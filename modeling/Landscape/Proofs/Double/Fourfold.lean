import Landscape.Proofs.Double.Mantissas

namespace Landscape.Double
open Float.Model Float.Model.UnpackedFloat

variable {F : Format} {u : UnpackedFloat} {a : ℝ} {k n : ℕ} {e : ℤ}

/-- The multiple of `d` nearest to `n`; of two equally near ones the even multiple. -/
def nearestMultiple (d n : ℕ) : ℕ :=
  d * if 2 * (n % d) < d then n / d else if d < 2 * (n % d) then n / d + 1 else n / d + n / d % 2

theorem roundEven_div (n : ℕ) {d : ℕ} (hd : 0 < d) :
    d * roundEven ((n : ℝ) / d) = nearestMultiple d n := by
  have hd' : (0 : ℝ) < d := by exact_mod_cast hd
  have hfloor : ⌊(n : ℝ) / d⌋ = ((n / d : ℕ) : ℤ) := by
    rw [Int.floor_div_natCast, Int.floor_natCast, Int.natCast_div]
  have hfract : Int.fract ((n : ℝ) / d) = ((n % d : ℕ) : ℝ) / d := by
    rw [Int.fract, hfloor, Int.cast_natCast, sub_eq_iff_eq_add, div_add' _ _ _ hd'.ne']
    congr 1
    exact_mod_cast (Nat.mod_add_div' n d).symm
  have hlow : ((n % d : ℕ) : ℝ) / d < 1 / 2 ↔ 2 * (n % d) < d := by
    rw [div_lt_div_iff₀ hd' (by norm_num), mul_comm, one_mul]
    norm_cast
  have hhigh : 1 / 2 < ((n % d : ℕ) : ℝ) / d ↔ d < 2 * (n % d) := by
    rw [div_lt_div_iff₀ (by norm_num) hd', mul_comm _ (2 : ℝ), one_mul]
    norm_cast
  unfold roundEven nearestMultiple
  rw [hfloor, hfract]
  simp only [hlow, hhigh]
  split_ifs <;> push_cast <;> rfl

/-- The nearest multiple is less than half of `d` away, or half of it and an even multiple. -/
theorem nearestMultiple_spec (n : ℕ) {d : ℕ} (hd : 0 < d) : ∃ j, nearestMultiple d n = d * j ∧
    (2 * n < 2 * (d * j) + d ∧ 2 * (d * j) < 2 * n + d ∨
      j % 2 = 0 ∧ (2 * n = 2 * (d * j) + d ∨ 2 * (d * j) = 2 * n + d)) := by
  refine ⟨_, rfl, ?_⟩
  have hdivision := Nat.div_add_mod n d
  have hrest := Nat.mod_lt n hd
  split_ifs with hlow hhigh
  · omega
  · rw [mul_add]
    omega
  · rcases Nat.mod_two_eq_zero_or_one (n / d) with h | h
    · rw [h, add_zero]
      omega
    · rw [h, mul_add]
      omega

/-- A whole number of units with `k` digits more than fit loses these digits. -/
theorem nearest_of_digits (hlower : 2 ^ (F.mantissaBitsWithoutImplicit + k) ≤ n)
    (hupper : n < 2 ^ (F.mantissaBits + k)) (he : F.minExponent ≤ e) :
    nearest F (n * 2 ^ e) = nearestMultiple (2 ^ k) n * 2 ^ e := by
  have hpos : 0 < n := lt_of_lt_of_le (by positivity) hlower
  have hbits := mantissaBits_eq F
  have hlog : n.log2 = F.mantissaBitsWithoutImplicit + k := by
    rw [Nat.log2_eq_iff hpos.ne']
    refine ⟨hlower, ?_⟩
    rwa [hbits, Nat.add_right_comm] at hupper
  have hplace : place F (n * 2 ^ e) = k + e := by
    rw [← targetExponent_eq_place hpos]
    unfold Format.targetExponent totalExponent
    omega
  have hquotient : (n : ℝ) * 2 ^ e / 2 ^ ((k : ℤ) + e) = n / (2 ^ k : ℕ) := by
    rw [zpow_add₀ (by norm_num), mul_div_mul_right _ _ (by positivity)]
    norm_cast
  have hround : ((2 ^ k : ℕ) : ℝ) * roundEven ((n : ℝ) / (2 ^ k : ℕ)) = nearestMultiple (2 ^ k) n := by
    exact_mod_cast roundEven_div n (Nat.two_pow_pos k)
  rw [nearest, hplace, hquotient, ← hround, zpow_add₀ (by norm_num), zpow_natCast]
  push_cast
  ring

theorem nearest_of_lt (hn : n < 2 ^ F.mantissaBits) (he : F.minExponent ≤ e) :
    nearest F (n * 2 ^ e) = n * 2 ^ e := by
  have habs : |(n : ℤ)| < 2 ^ F.mantissaBits := by
    rw [abs_of_nonneg (Int.natCast_nonneg n)]
    exact_mod_cast hn
  exact_mod_cast nearest_of_abs_lt habs he

theorem nearest_cases (hn : n < 2 ^ (F.mantissaBits + 2)) (he : F.minExponent ≤ e) :
    ∃ d, nearest F (n * 2 ^ e) = nearestMultiple d n * 2 ^ e ∧
      (d = 1 ∧ n < 2 ^ F.mantissaBits ∨
        d = 2 ∧ 2 ^ F.mantissaBits ≤ n ∧ n < 2 * 2 ^ F.mantissaBits ∨
        d = 4 ∧ 2 * 2 ^ F.mantissaBits ≤ n) := by
  have hbits := mantissaBits_eq F
  have hone : 2 ^ (F.mantissaBits + 1) = 2 * 2 ^ F.mantissaBits := by rw [pow_succ, mul_comm]
  rcases lt_or_ge n (2 ^ F.mantissaBits) with hfew | hmany
  · refine ⟨1, ?_, .inl ⟨rfl, hfew⟩⟩
    have hself : nearestMultiple 1 n = n := by simp [nearestMultiple, Nat.mod_one]
    rw [hself, nearest_of_lt hfew he]
  · rcases lt_or_ge n (2 ^ (F.mantissaBits + 1)) with htwo | htwo
    · exact ⟨2, nearest_of_digits (k := 1) (by rwa [← hbits]) htwo he, .inr (.inl ⟨rfl, hmany, by omega⟩)⟩
    · refine ⟨4, nearest_of_digits (k := 2) ?_ hn he, .inr (.inr ⟨rfl, by omega⟩)⟩
      rwa [hbits, Nat.add_assoc] at htwo

/-- What three times `n` is rounded to, added to `n`, is rounded to four times `n`. -/
theorem nearestMultiple_back {limit d d' : ℕ} (hn : n < limit)
    (hd : d = 1 ∨ d = 2 ∧ limit ≤ 3 * n ∨ d = 4 ∧ 2 * limit ≤ 3 * n)
    (hd' : d' = 1 ∧ nearestMultiple d (3 * n) + n < limit ∨
      d' = 2 ∧ nearestMultiple d (3 * n) + n < 2 * limit ∨ d' = 4) :
    nearestMultiple d' (nearestMultiple d (3 * n) + n) = 4 * n := by
  have hpos : 0 < d ∧ 0 < d' := by omega
  obtain ⟨j, hj, hmoved⟩ := nearestMultiple_spec (3 * n) hpos.1
  rw [hj] at hd' ⊢
  obtain ⟨j', hj', hback⟩ := nearestMultiple_spec (d * j + n) hpos.2
  rw [hj']
  -- The sum is four times `n`, moved by less than half of `d'`, or by half of it and `n` is even.
  rcases hd with rfl | ⟨rfl, hd⟩ | ⟨rfl, hd⟩
  · rcases hd' with ⟨rfl, hd'⟩ | ⟨rfl, hd'⟩ | rfl <;> omega
  · rcases hd' with ⟨rfl, hd'⟩ | ⟨rfl, hd'⟩ | rfl <;> omega
  · rcases hd' with ⟨rfl, hd'⟩ | ⟨rfl, hd'⟩ | rfl <;> omega

theorem nearest_three_add_one (hn : n < 2 ^ F.mantissaBits) (he : F.minExponent ≤ e) :
    nearest F (nearest F ((3 * n : ℕ) * 2 ^ e) + n * 2 ^ e) = (4 * n : ℕ) * 2 ^ e := by
  have hlimit : 2 ^ (F.mantissaBits + 2) = 4 * 2 ^ F.mantissaBits := by
    rw [pow_add]
    ring
  obtain ⟨d, hthree, hd⟩ := nearest_cases (F := F) (n := 3 * n) (e := e) (by omega) he
  have hsum : nearestMultiple d (3 * n) + n < 2 ^ (F.mantissaBits + 2) := by
    obtain ⟨j, hj, hmoved⟩ := nearestMultiple_spec (d := d) (3 * n) (by omega)
    rw [hj]
    rcases hd with ⟨rfl, hd⟩ | ⟨rfl, hd⟩ | ⟨rfl, hd⟩ <;> omega
  obtain ⟨d', hfour, hd'⟩ := nearest_cases (F := F) hsum he
  rw [hthree, ← add_mul, ← Nat.cast_add, hfour, nearestMultiple_back hn (by omega) (by omega)]

theorem StandsFor.nearest_two_pow_mul (h : StandsFor F u a) (k : ℕ) :
    nearest F (2 ^ k * a) = 2 ^ k * a := by
  obtain ⟨hfinite, hcanonical, rfl⟩ := h
  rcases u with s | _ | s | ⟨s, m, e, hm⟩
  · cases hfinite
  · cases hfinite
  · simp [real_zero]
  · have hexact : (2 : ℝ) ^ k * (factor s * (m * 2 ^ e)) = factor s * (m * 2 ^ (e + k)) := by
      rw [zpow_add₀ (by norm_num), zpow_natCast]
      ring
    have hexponent : F.minExponent ≤ e + k := by
      have := hcanonical.2.1
      omega
    rw [real_finite, hexact, nearest_factor_mul, nearest_of_lt hcanonical.1 hexponent]

/-- A number of the format added to three times itself gives four times it, although three times it need not
be one of the format. -/
theorem StandsFor.nearest_three_add (h : StandsFor F u a) :
    nearest F (nearest F (3 * a) + a) = 4 * a := by
  obtain ⟨hfinite, hcanonical, rfl⟩ := h
  rcases u with s | _ | s | ⟨s, m, e, hm⟩
  · cases hfinite
  · cases hfinite
  · simp [real_zero]
  · have hthree : 3 * (factor s * ((m : ℝ) * 2 ^ e)) = factor s * ((3 * m : ℕ) * 2 ^ e) := by
      push_cast
      ring
    have hfour : 4 * (factor s * ((m : ℝ) * 2 ^ e)) = factor s * ((4 * m : ℕ) * 2 ^ e) := by
      push_cast
      ring
    rw [real_finite, hthree, hfour, nearest_factor_mul, ← mul_add, nearest_factor_mul,
      nearest_three_add_one hcanonical.1 hcanonical.2.1]

end Landscape.Double
