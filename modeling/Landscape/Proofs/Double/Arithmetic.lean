import Landscape.Proofs.Double.Mantissas

namespace Landscape.Double
open Float.Model Float.Model.UnpackedFloat

variable {F : Format} {u v : UnpackedFloat} {a b : ℝ} {m n : ℕ} {e f : ℤ}

theorem minExponent_nonpos (F : Format) : F.minExponent ≤ 0 := by
  have hpow : (1 : ℤ) ≤ 2 ^ (F.exponentBits - 1) := one_le_pow₀ (by norm_num)
  have hm := F.hm
  unfold Format.minExponent Format.mantissaBits
  omega

theorem StandsFor.exists_units (h : StandsFor F u a) : ∃ k : ℤ, a = k * 2 ^ F.minExponent := by
  obtain ⟨hfinite, hcanonical, rfl⟩ := h
  rcases u with s | _ | s | ⟨s, m, e, hm⟩
  · cases hfinite
  · cases hfinite
  · exact ⟨0, by simp [real_zero]⟩
  · obtain ⟨k, rfl⟩ := Int.le.dest hcanonical.2.1
    refine ⟨s.apply (m * 2 ^ k), ?_⟩
    rw [real_finite, apply_eq_factor, zpow_add₀ (by norm_num), zpow_natCast]
    push_cast
    ring

/-- Different numbers of a format have a difference that rounding does not lose. -/
theorem nearest_sub_pos (hu : StandsFor F u a) (hv : StandsFor F v b) (h : a < b) :
    0 < nearest F (b - a) := by
  obtain ⟨k, rfl⟩ := hu.exists_units
  obtain ⟨l, rfl⟩ := hv.exists_units
  have hpos : (0 : ℝ) < 2 ^ F.minExponent := by positivity
  have hlt : k < l := by
    have := lt_of_mul_lt_mul_right h hpos.le
    exact_mod_cast this
  have hone : (1 : ℝ) ≤ l - k := by
    exact_mod_cast (by omega : 1 ≤ l - k)
  have hunit : nearest F (2 ^ F.minExponent) = 2 ^ F.minExponent := by
    have hdigits : |(1 : ℤ)| < 2 ^ F.mantissaBits := by
      rw [abs_one, mantissaBits_eq]
      exact one_lt_pow₀ (by norm_num) (Nat.succ_ne_zero _)
    simpa using nearest_of_abs_lt hdigits (le_refl F.minExponent)
  calc
    (0 : ℝ) < nearest F (2 ^ F.minExponent) := by
      rw [hunit]
      exact hpos
    _ ≤ nearest F (l * 2 ^ F.minExponent - k * 2 ^ F.minExponent) := by
      apply nearest_mono
      rw [← sub_mul]
      exact le_mul_of_one_le_left hpos.le hone

theorem StandsFor.neg (h : StandsFor F u a) : StandsFor F u.neg (-a) := by
  obtain ⟨hfinite, hcanonical, rfl⟩ := h
  rcases u with s | _ | s | ⟨s, m, e, hm⟩
  · cases hfinite
  · cases hfinite
  · exact ⟨rfl, trivial, neg_zero.symm⟩
  · refine ⟨rfl, hcanonical, ?_⟩
    change factor (-s) * _ = -(factor s * _)
    rw [factor_neg, neg_mul]

/-- The product of two mantissas starts at an exponent from which it can be rounded. -/
theorem add_exponents_le_place {s t : Sign} {hm : 0 < m} {hn : 0 < n}
    (hx : Canonical F (.finite s m e hm)) (hy : Canonical F (.finite t n f hn)) :
    e + f ≤ place F ((m * n : ℕ) * 2 ^ (e + f)) := by
  have hmin := minExponent_nonpos F
  rw [← targetExponent_eq_place (Nat.mul_pos hm hn)]
  unfold Format.targetExponent totalExponent
  rw [mantissaBits_eq]
  by_cases hlarge : 2 ^ F.mantissaBitsWithoutImplicit ≤ m * n
  · have hlog := (Nat.le_log2 (Nat.mul_pos hm hn).ne').mpr hlarge
    omega
  · -- Neither factor has all its digits, so both are at the least exponent.
    have he : e = F.minExponent := hx.2.2.resolve_left fun h =>
      hlarge (h.trans (Nat.le_mul_of_pos_right m hn))
    have hf : f = F.minExponent := hy.2.2.resolve_left fun h =>
      hlarge (h.trans (Nat.le_mul_of_pos_left n hm))
    omega

theorem StandsFor.mul (hu : StandsFor F u a) (hv : StandsFor F v b) :
    StandsFor F (UnpackedFloat.mul F u v) (nearest F (a * b)) := by
  obtain ⟨hfinite, hcanonical, rfl⟩ := hu
  obtain ⟨hfinite', hcanonical', rfl⟩ := hv
  rcases u with s | _ | s | ⟨s, m, e, hm⟩
  · cases hfinite
  · cases hfinite
  · rw [real_zero, zero_mul, nearest_zero]
    rcases v with t | _ | t | ⟨t, n, f, hn⟩
    · cases hfinite'
    · cases hfinite'
    · exact standsFor_zero F _
    · exact standsFor_zero F _
  · rcases v with t | _ | t | ⟨t, n, f, hn⟩
    · cases hfinite'
    · cases hfinite'
    · rw [real_zero, mul_zero, nearest_zero]
      exact standsFor_zero F _
    · have hexact : factor s * ((m : ℝ) * 2 ^ e) * (factor t * (n * 2 ^ f)) =
          factor (s * t) * ((m * n : ℕ) * 2 ^ (e + f)) := by
        rw [factor_mul, zpow_add₀ (by norm_num)]
        push_cast
        ring
      rw [real_finite, real_finite, hexact, nearest_factor_mul]
      refine standsFor_roundWithAccuracy (s * t) (by positivity) ?_
        (add_exponents_le_place hcanonical hcanonical')
      rw [mul_div_cancel_right₀ _ (by positivity)]
      exact holds_exact _

/-- The exact value of whole units at an exponent, rounded. -/
theorem standsFor_normalize (k : ℤ) (e : ℤ) (s : Sign) :
    StandsFor F (UnpackedFloat.normalize F k e s) (nearest F (k * 2 ^ e)) := by
  unfold UnpackedFloat.normalize
  rcases lt_trichotomy k 0 with hk | rfl | hk
  · rw [compare_lt_iff_lt.mpr hk]
    have hcast : (k : ℝ) = -((-k).toNat : ℝ) := by
      have : ((-k).toNat : ℤ) = -k := Int.toNat_of_nonneg (by omega)
      have : ((-k).toNat : ℝ) = ((-k : ℤ) : ℝ) := by exact_mod_cast this
      rw [this]
      simp
    have h := standsFor_round (F := F) .negative (m := (-k).toNat) (by omega) e
    rw [factor_negative, neg_one_mul, ← neg_mul, ← hcast] at h
    exact h
  · rw [compare_eq_iff_eq.mpr rfl, Int.cast_zero, zero_mul, nearest_zero]
    exact standsFor_zero F s
  · rw [compare_gt_iff_gt.mpr hk]
    have hcast : (k : ℝ) = (k.toNat : ℝ) := by
      exact_mod_cast (Int.toNat_of_nonneg hk.le).symm
    have h := standsFor_round (F := F) .positive (m := k.toNat) (by omega) e
    rw [factor_positive, one_mul, ← hcast] at h
    exact h

theorem shifted_units (m : ℕ) {e g : ℤ} (h : g ≤ e) :
    ((m <<< (e - g).toNat : ℕ) : ℝ) * 2 ^ g = m * 2 ^ e := by
  have hexponent : ((e - g).toNat : ℤ) + g = e := by omega
  rw [Nat.shiftLeft_eq]
  push_cast
  rw [mul_assoc, ← zpow_natCast, ← zpow_add₀ (by norm_num), hexponent]

theorem StandsFor.add (hu : StandsFor F u a) (hv : StandsFor F v b) :
    StandsFor F (UnpackedFloat.add F u v) (nearest F (a + b)) := by
  have hkeep := hu.nearest_eq
  have hkeep' := hv.nearest_eq
  obtain ⟨hfinite, hcanonical, rfl⟩ := hu
  obtain ⟨hfinite', hcanonical', rfl⟩ := hv
  rcases u with s | _ | s | ⟨s, m, e, hm⟩
  · cases hfinite
  · cases hfinite
  · rcases v with t | _ | t | ⟨t, n, f, hn⟩
    · cases hfinite'
    · cases hfinite'
    · rw [real_zero, real_zero, add_zero, nearest_zero]
      cases s <;> cases t <;> exact standsFor_zero F _
    · rw [real_zero, zero_add, hkeep']
      exact ⟨rfl, hcanonical', rfl⟩
  · rcases v with t | _ | t | ⟨t, n, f, hn⟩
    · cases hfinite'
    · cases hfinite'
    · rw [real_zero t, add_zero, hkeep]
      exact ⟨rfl, hcanonical, rfl⟩
    · have h := standsFor_normalize (F := F)
        (s.apply ((m <<< (e - min e f).toNat : ℕ) : ℤ) +
          t.apply ((n <<< (f - min e f).toNat : ℕ) : ℤ)) (min e f) .positive
      rw [Int.cast_add, apply_eq_factor, apply_eq_factor, add_mul, mul_assoc, mul_assoc, Int.cast_natCast,
        Int.cast_natCast, shifted_units m (min_le_left e f), shifted_units n (min_le_right e f)] at h
      exact h

theorem factor_div (s t : Sign) : factor (s / t) = factor s * factor t := by
  rw [← factor_mul]
  cases s <;> cases t <;> rfl

theorem quotient_units (m : ℕ) (hn : 0 < n) {g : ℤ} (h : g ≤ e - f) :
    (m : ℝ) * 2 ^ e / (n * 2 ^ f) / 2 ^ g =
      ((m <<< (e - f - g).toNat / n : ℕ) : ℝ) + ((m <<< (e - f - g).toNat % n : ℕ) : ℝ) / n := by
  have hn' : (0 : ℝ) < n := by exact_mod_cast hn
  have hunits := shifted_units m h
  have hdivision : ((m <<< (e - f - g).toNat : ℕ) : ℝ) =
      n * ((m <<< (e - f - g).toNat / n : ℕ) : ℝ) + ((m <<< (e - f - g).toNat % n : ℕ) : ℝ) := by
    exact_mod_cast (Nat.div_add_mod _ n).symm
  have hsum : ((m <<< (e - f - g).toNat / n : ℕ) : ℝ) + ((m <<< (e - f - g).toNat % n : ℕ) : ℝ) / n =
      ((m <<< (e - f - g).toNat : ℕ) : ℝ) / n := by
    rw [hdivision]
    field_simp
  have hpow : (2 : ℝ) ^ e = 2 ^ (e - f) * 2 ^ f := by
    rw [← zpow_add₀ (by norm_num)]
    congr 1
    ring
  rw [hsum, div_div, div_eq_div_iff (by positivity) (by positivity), mul_comm _ (n : ℝ), hpow,
    ← mul_assoc (m : ℝ), ← hunits]
  ring

theorem targetExponent_le_place_div (hm : 0 < m) (hn : 0 < n) (e f : ℤ) :
    F.targetExponent (totalExponent m e - totalExponent n f) ≤
      place F ((m : ℝ) * 2 ^ e / (n * 2 ^ f)) := by
  have hn' : (0 : ℝ) < n := by exact_mod_cast hn
  have hx : (0 : ℝ) < m * 2 ^ e / (n * 2 ^ f) := by positivity
  have hlog : (m.log2 : ℤ) - n.log2 - 1 + e - f ≤ Int.log 2 ((m : ℝ) * 2 ^ e / (n * 2 ^ f)) := by
    apply (Int.zpow_le_iff_le_log (by decide) hx).mp
    have hlower : (2 : ℝ) ^ m.log2 ≤ m := by exact_mod_cast Nat.log2_self_le hm.ne'
    have hupper : (n : ℝ) ≤ 2 ^ (n.log2 + 1) := by exact_mod_cast Nat.lt_log2_self.le
    push_cast
    rw [le_div_iff₀ (by positivity)]
    calc
      (2 : ℝ) ^ ((m.log2 : ℤ) - n.log2 - 1 + e - f) * (n * 2 ^ f) ≤
          2 ^ ((m.log2 : ℤ) - n.log2 - 1 + e - f) * (2 ^ (n.log2 + 1) * 2 ^ f) := by gcongr
      _ = 2 ^ m.log2 * 2 ^ e := by
        rw [← zpow_natCast, ← zpow_natCast, ← zpow_add₀ (by norm_num),
          ← zpow_add₀ (by norm_num), ← zpow_add₀ (by norm_num)]
        congr 1
        push_cast
        ring
      _ ≤ m * 2 ^ e := by gcongr
  unfold Format.targetExponent totalExponent place
  rw [abs_of_pos hx]
  omega

theorem StandsFor.div (hu : StandsFor F u a) (hv : StandsFor F v b) (hb : b ≠ 0) :
    StandsFor F (UnpackedFloat.div F u v) (nearest F (a / b)) := by
  obtain ⟨hfinite, hcanonical, rfl⟩ := hu
  obtain ⟨hfinite', hcanonical', rfl⟩ := hv
  rcases v with t | _ | t | ⟨t, n, f, hn⟩
  · cases hfinite'
  · cases hfinite'
  · exact absurd rfl hb
  · rcases u with s | _ | s | ⟨s, m, e, hm⟩
    · cases hfinite
    · cases hfinite
    · rw [real_zero, zero_div, nearest_zero]
      exact standsFor_zero F _
    · have hexact : factor s * ((m : ℝ) * 2 ^ e) / (factor t * (n * 2 ^ f)) =
          factor (s / t) * (m * 2 ^ e / (n * 2 ^ f)) := by
        rw [factor_div]
        cases t <;> simp [div_neg, mul_div_assoc]
      rw [real_finite, real_finite, hexact, nearest_factor_mul]
      have hn' : (0 : ℝ) < n := by exact_mod_cast hn
      let g := min (e - f) (F.targetExponent (totalExponent m e - totalExponent n f))
      refine standsFor_roundWithAccuracy (e := g) (s / t) (by positivity) ?_ ?_
      · rw [quotient_units m hn (min_le_left _ _)]
        exact holds_fraction _ (Nat.mod_lt _ hn)
      · exact (min_le_right _ _).trans (targetExponent_le_place_div hm hn e f)

end Landscape.Double
