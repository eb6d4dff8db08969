import Landscape.Double.Basic
import Landscape.Proofs.Double.Reals

namespace Landscape.Double
open Float.Model Float.Model.UnpackedFloat

variable {F : Format} {m n : ℕ} {e f : ℤ}

/-- The whole root of a number and what is left say on which side of the half its root lies. -/
theorem holds_root (m : ℕ) :
    Holds (.ofMantissaAndAccuracy m.sqrt (if m - m.sqrt * m.sqrt = 0 then .exact
      else .inexact (if m - m.sqrt * m.sqrt ≤ m.sqrt then .lt else .gt))) √m := by
  obtain ⟨rest, hrest⟩ := Nat.exists_eq_add_of_le (Nat.sqrt_le m)
  have hlt : m < (m.sqrt + 1) * (m.sqrt + 1) := Nat.lt_succ_sqrt m
  generalize m.sqrt = root at *
  have hm : (m : ℝ) = root * root + rest := by exact_mod_cast hrest
  have hsub : m - root * root = rest := by omega
  have hroot : (0 : ℝ) ≤ root := Nat.cast_nonneg root
  rw [hsub]
  by_cases hzero : rest = 0
  · rw [if_pos hzero, hm, hzero, Nat.cast_zero, add_zero, Real.sqrt_mul_self hroot]
    exact holds_exact root
  · have hpos : (0 : ℝ) < rest := by exact_mod_cast Nat.pos_of_ne_zero hzero
    rw [if_neg hzero]
    -- The square of the half place is a quarter above `root * root + root`, so it is never met.
    by_cases hhalf : rest ≤ root
    · have hhalf' : (rest : ℝ) ≤ root := by exact_mod_cast hhalf
      rw [if_pos hhalf]
      refine .low ?_ ?_
      · apply Real.lt_sqrt_of_sq_lt
        nlinarith
      · apply (Real.sqrt_lt' (by positivity)).mpr
        nlinarith
    · have hhalf' : (root : ℝ) + 1 ≤ rest := by exact_mod_cast not_le.mp hhalf
      have hlt' : (m : ℝ) < (root + 1) * (root + 1) := by exact_mod_cast hlt
      rw [if_neg hhalf]
      refine .high ?_ ?_
      · apply Real.lt_sqrt_of_sq_lt
        nlinarith
      · apply (Real.sqrt_lt' (by positivity)).mpr
        nlinarith

theorem log_sqrt {x : ℝ} (hx : 0 < x) : Int.log 2 √x = Int.log 2 x / 2 := by
  have hsqrt : 0 < √x := Real.sqrt_pos.mpr hx
  have hpow (k : ℤ) : ((2 : ℝ) ^ k) ^ 2 = 2 ^ (2 * k) := by
    rw [mul_comm, zpow_mul]
    norm_cast
  -- A power of two is not above the root exactly if its square is not above the number.
  have hiff (k : ℤ) : k ≤ Int.log 2 √x ↔ 2 * k ≤ Int.log 2 x := by
    rw [← Int.zpow_le_iff_le_log (by decide) hsqrt, ← Int.zpow_le_iff_le_log (by decide) hx,
      Nat.cast_ofNat, Real.le_sqrt' (by positivity), hpow]
  have hlower := (hiff (Int.log 2 √x)).mp le_rfl
  have hupper := mt (hiff (Int.log 2 √x + 1)).mpr (by omega)
  omega

theorem standsFor_sqrt (hm : 0 < m) (e : ℤ) :
    StandsFor F (UnpackedFloat.sqrt F (.finite .positive m e hm)) (nearest F √(m * 2 ^ e)) := by
  let g := min (e.ediv 2) (F.targetExponent ((totalExponent m e + 1).ediv 2))
  have hg : 2 * g ≤ e := by
    have : g ≤ e / 2 := min_le_left _ _
    omega
  have hx : (0 : ℝ) < m * 2 ^ e := by positivity
  have hshift : √((m : ℝ) * 2 ^ e) / 2 ^ g = √((m <<< (e - 2 * g).toNat : ℕ) : ℝ) := by
    have hpow : (2 : ℝ) ^ (2 * g) = 2 ^ g * 2 ^ g := by
      rw [← zpow_add₀ (by norm_num), two_mul]
    rw [← shifted_units m hg, hpow, ← mul_assoc, Real.sqrt_mul' _ (by positivity),
      Real.sqrt_mul' _ (by positivity), mul_assoc, Real.mul_self_sqrt (by positivity)]
    exact mul_div_cancel_right₀ _ (by positivity)
  have h := standsFor_roundWithAccuracy (F := F) (e := g) .positive (Real.sqrt_pos.mpr hx)
    (hshift ▸ holds_root _) ?_
  · rw [factor_positive, one_mul] at h
    exact h
  · refine (min_le_right _ _).trans ?_
    have hlog : Int.log 2 ((m : ℝ) * 2 ^ e) = m.log2 + e := by
      have hpos : (0 : ℝ) < 2 ^ e := by positivity
      exact log_eq_of_digits hm.ne' le_rfl (by nlinarith)
    have htarget : F.targetExponent ((totalExponent m e + 1).ediv 2) =
        max ((m.log2 + 1 + e + 1) / 2 - F.mantissaBits) F.minExponent := rfl
    rw [htarget, place, abs_of_pos (Real.sqrt_pos.mpr hx), log_sqrt hx, hlog]
    omega

/-- Which of the digits of a root are kept is decided above the quarter place. -/
theorem nearest_of_negligible {s : Sign} {hm : 0 < m} {x : ℝ}
    (h : Canonical .binary64 (.finite s m e hm)) (he : Format.binary64.minExponent < e)
    (hlower : m * 2 ^ e ≤ x) (hupper : x < (m + 1 / 2) * 2 ^ e) :
    nearest .binary64 x = m * 2 ^ e := by
  obtain ⟨hlt, -, hdigits⟩ := h
  have hlog : m.log2 = 52 :=
    (Nat.log2_eq_iff hm.ne').mpr ⟨hdigits.resolve_right he.ne', hlt⟩
  have hpos : (0 : ℝ) < 2 ^ e := by positivity
  have hx : 0 < x := lt_of_lt_of_le (by positivity) hlower
  have hplace : place .binary64 x = e := by
    rw [place, abs_of_pos hx, log_eq_of_digits hm.ne' hlower (by nlinarith), hlog]
    have hbits : Format.binary64.mantissaBits = 53 := rfl
    omega
  have hround : roundEven (x / 2 ^ e) = m := by
    rcases hlower.lt_or_eq with hlt | heq
    · have hholds : Holds ⟨m, false, true⟩ (x / 2 ^ e) :=
        .low ((lt_div_iff₀ hpos).mpr hlt) ((div_lt_iff₀ hpos).mpr hupper)
      exact hholds.roundedMantissa.symm
    · have hholds : Holds ⟨m, false, false⟩ (x / 2 ^ e) :=
        .exact ((div_eq_iff hpos.ne').mpr heq.symm)
      exact hholds.roundedMantissa.symm
  rw [nearest, hplace, hround]
  norm_cast

theorem nearest_hypotenuse_of_lt {s t : Sign} {hm : 0 < m} {hn : 0 < n}
    (hx : Canonical .binary64 (.finite s m e hm)) (hy : Canonical .binary64 (.finite t n f hn))
    (h : f + negligiblePlaces < e) :
    nearest .binary64 √((m * 2 ^ e) ^ 2 + (n * 2 ^ f) ^ 2) = m * 2 ^ e := by
  have he : Format.binary64.minExponent < e := by
    have := hy.2.1
    unfold negligiblePlaces at h
    omega
  have hpos : (0 : ℝ) < 2 ^ e := by positivity
  have hdigits : (2 : ℝ) ^ (52 : ℕ) ≤ m := by exact_mod_cast hx.2.2.resolve_right he.ne'
  -- The shorter leg is less than the product of `2 ^ 20` and the last place of the longer.
  have hshort : (n : ℝ) * 2 ^ f ≤ 2 ^ (20 : ℕ) * 2 ^ e := by
    have hlt : (n : ℝ) < 2 ^ (53 : ℕ) := by exact_mod_cast hy.1
    calc
      (n : ℝ) * 2 ^ f ≤ 2 ^ (53 : ℕ) * 2 ^ (e - 33) := by
        gcongr
        · norm_num
        · unfold negligiblePlaces at h
          omega
      _ = 2 ^ (20 : ℕ) * 2 ^ e := by
        rw [zpow_sub₀ (by norm_num)]
        field_simp
  have hleg : (0 : ℝ) ≤ n * 2 ^ f := by positivity
  apply nearest_of_negligible hx he
  · apply Real.le_sqrt_of_sq_le
    nlinarith
  · apply (Real.sqrt_lt' (by positivity)).mpr
    have hsquare : ((n : ℝ) * 2 ^ f) ^ 2 ≤ (2 ^ (20 : ℕ) * 2 ^ e) ^ 2 := by gcongr
    nlinarith

theorem standsFor_finiteHypotenuse {s t : Sign} {hm : 0 < m} {hn : 0 < n}
    (hx : Canonical .binary64 (.finite s m e hm)) (hy : Canonical .binary64 (.finite t n f hn)) :
    StandsFor .binary64 (finiteHypotenuse m e hm n f hn)
      (nearest .binary64 √((m * 2 ^ e) ^ 2 + (n * 2 ^ f) ^ 2)) := by
  unfold finiteHypotenuse
  by_cases hlong : f + negligiblePlaces < e
  · rw [if_pos hlong, nearest_hypotenuse_of_lt hx hy hlong]
    exact ⟨rfl, hx, by rw [real_finite, factor_positive, one_mul]⟩
  · by_cases hlong' : e + negligiblePlaces < f
    · rw [if_neg hlong, if_pos hlong', add_comm, nearest_hypotenuse_of_lt hy hx hlong']
      exact ⟨rfl, hy, by rw [real_finite, factor_positive, one_mul]⟩
    · rw [if_neg hlong, if_neg hlong']
      have hexact : ((m : ℝ) * 2 ^ e) ^ 2 + (n * 2 ^ f) ^ 2 =
          ((m <<< (e - min e f).toNat * m <<< (e - min e f).toNat +
            n <<< (f - min e f).toNat * n <<< (f - min e f).toNat : ℕ) : ℝ) *
              2 ^ (2 * min e f) := by
        rw [← shifted_units m (min_le_left e f), ← shifted_units n (min_le_right e f), two_mul,
          zpow_add₀ (by norm_num)]
        push_cast
        ring
      rw [hexact]
      exact standsFor_sqrt _ _

theorem factor_mul_sq (s : Sign) (a : ℝ) : (factor s * a) ^ 2 = a ^ 2 := by
  cases s <;> simp

theorem standsFor_abs {u : UnpackedFloat} {a : ℝ} (h : StandsFor F u a) : StandsFor F u.abs |a| := by
  obtain ⟨hfinite, hcanonical, rfl⟩ := h
  rcases u with s | _ | s | ⟨s, m, e, hm⟩
  · cases hfinite
  · cases hfinite
  · exact ⟨rfl, trivial, abs_zero.symm⟩
  · refine ⟨rfl, hcanonical, ?_⟩
    rw [real_finite, abs_factor_mul s (by positivity)]
    exact one_mul _

theorem standsFor_hypotenuseOf {u v : UnpackedFloat} {a b : ℝ} (hu : StandsFor .binary64 u a)
    (hv : StandsFor .binary64 v b) :
    StandsFor .binary64 (hypotenuseOf u v) (nearest .binary64 √(a ^ 2 + b ^ 2)) := by
  have hkeep := (standsFor_abs hu).nearest_eq
  have hkeep' := (standsFor_abs hv).nearest_eq
  have habs := standsFor_abs hu
  have habs' := standsFor_abs hv
  obtain ⟨hfinite, hcanonical, rfl⟩ := hu
  obtain ⟨hfinite', hcanonical', rfl⟩ := hv
  rcases u with s | _ | s | ⟨s, m, e, hm⟩
  · cases hfinite
  · cases hfinite
  · have hroot : √(real (.zero s) ^ 2 + real v ^ 2) = |real v| := by
      rw [real_zero, zero_pow two_ne_zero, zero_add, Real.sqrt_sq_eq_abs]
    rw [hroot, hkeep']
    cases v <;> exact habs'
  · rcases v with t | _ | t | ⟨t, n, f, hn⟩
    · cases hfinite'
    · cases hfinite'
    · rw [real_zero, zero_pow two_ne_zero, add_zero, Real.sqrt_sq_eq_abs, hkeep]
      exact habs
    · rw [real_finite, real_finite, factor_mul_sq, factor_mul_sq]
      exact standsFor_finiteHypotenuse hcanonical hcanonical'

variable {x y : Float} {a b : ℝ}

theorem parts_hypotenuse (x y : Float) :
    parts (hypotenuse x y) = stored (hypotenuseOf (parts x) (parts y)) :=
  parts_ofModel _

theorem isRounded_hypotenuse (hx : StandsForReal x a) (hy : StandsForReal y b) :
    IsRounded (hypotenuse x y) √(a ^ 2 + b ^ 2) :=
  isRounded_of_stored (parts_hypotenuse x y) (standsFor_hypotenuseOf hx hy)

theorem parts_hypotenuse_of_infinity {s : Sign} (h : parts x = .infinity s ∨ parts y = .infinity s) :
    parts (hypotenuse x y) = .infinity .positive := by
  have hdata : hypotenuseOf (parts x) (parts y) = .infinity .positive := by
    rcases h with h | h
    · rw [h]
      rfl
    · rw [h]
      cases parts x <;> rfl
  rw [parts_hypotenuse, hdata, stored_infinity]

theorem isNumber_hypotenuse (hx : IsNumber x) (hy : IsNumber y) : IsNumber (hypotenuse x y) := by
  cases hx.kind with
  | infinity s h => exact isNumber_of_infinity (parts_hypotenuse_of_infinity (.inl h))
  | real a h =>
    cases hy.kind with
    | infinity t h' => exact isNumber_of_infinity (parts_hypotenuse_of_infinity (.inr h'))
    | real b h' => exact (isRounded_hypotenuse h h').isNumber

theorem hypotenuseOf_notANumber {u v : UnpackedFloat} (hu : ∀ s, u ≠ .infinity s)
    (hv : ∀ s, v ≠ .infinity s) (h : u = .notANumber ∨ v = .notANumber) :
    hypotenuseOf u v = .notANumber := by
  rcases h with rfl | rfl
  · cases v with
    | infinity s => exact absurd rfl (hv s)
    | _ => rfl
  · cases u with
    | infinity s => exact absurd rfl (hu s)
    | _ => rfl

/-- A hypotenuse is a number only with an infinite leg or with two real legs. -/
theorem legs_of_isNumber_hypotenuse (h : IsNumber (hypotenuse x y)) :
    (∃ s, parts x = .infinity s ∨ parts y = .infinity s) ∨
      ∃ a b, StandsForReal x a ∧ StandsForReal y b := by
  by_cases hinfinity : ∃ s, parts x = .infinity s ∨ parts y = .infinity s
  · exact .inl hinfinity
  · simp only [not_exists, not_or, forall_and] at hinfinity
    obtain ⟨hx, hy⟩ := hinfinity
    have hreal {z : Float} (hz : IsNumber z) (hz' : ∀ s, parts z ≠ .infinity s) :
        ∃ a, StandsForReal z a := by
      cases hz.kind with
      | infinity s h => exact absurd h (hz' s)
      | real a h => exact ⟨a, h⟩
    by_cases hnumbers : IsNumber x ∧ IsNumber y
    · obtain ⟨a, ha⟩ := hreal hnumbers.1 hx
      obtain ⟨b, hb⟩ := hreal hnumbers.2 hy
      exact .inr ⟨a, b, ha, hb⟩
    · have hparts : parts x = .notANumber ∨ parts y = .notANumber :=
        (not_and_or.mp hnumbers).imp not_not.mp not_not.mp
      rw [IsNumber, parts_hypotenuse, hypotenuseOf_notANumber hx hy hparts] at h
      exact absurd stored_notANumber h

theorem not_isNumber_hypotenuse (hx : ¬ IsNumber x) (hy : ¬ IsNumber y) :
    ¬ IsNumber (hypotenuse x y) := by
  intro h
  rcases legs_of_isNumber_hypotenuse h with ⟨s, h | h⟩ | ⟨a, b, h, -⟩
  · exact hx (isNumber_of_infinity h)
  · exact hy (isNumber_of_infinity h)
  · exact hx h.isNumber

theorem standsForReal_of_hypotenuse {c : ℝ} (h : StandsForReal (hypotenuse x y) c) :
    ∃ a b, StandsForReal x a ∧ StandsForReal y b := by
  rcases legs_of_isNumber_hypotenuse h.isNumber with ⟨s, hs⟩ | hlegs
  · have hvalue := value_of_infinity (parts_hypotenuse_of_infinity hs)
    rw [h.value_eq] at hvalue
    exact absurd hvalue (EReal.coe_ne_top c)
  · exact hlegs

theorem eq_zero_of_nearest_hypotenuse (hx : StandsForReal x a) (hle : a ^ 2 ≤ b)
    (h : nearest .binary64 √b = 0) : a = 0 := by
  have hmono := rounded_mono (EReal.coe_le_coe_iff.mpr (Real.abs_le_sqrt hle))
  have hzero : limit 0 = 0 := limit_of_abs_lt (by simp)
  rw [hx.rounded_abs, rounded_coe, h, hzero] at hmono
  have habs : |a| ≤ 0 := EReal.coe_le_coe_iff.mp hmono
  exact abs_nonpos_iff.mp habs

theorem hypotenuse_zero_iff :
    StandsForReal (hypotenuse x y) 0 ↔ StandsForReal x 0 ∧ StandsForReal y 0 := by
  constructor
  · intro h
    obtain ⟨a, b, hx, hy⟩ := standsForReal_of_hypotenuse h
    have hnearest := (isRounded_hypotenuse hx hy).nearest_eq h
    have ha : a = 0 := eq_zero_of_nearest_hypotenuse hx (by nlinarith) hnearest
    have hb : b = 0 := eq_zero_of_nearest_hypotenuse hy (by nlinarith) hnearest
    subst ha hb
    exact ⟨hx, hy⟩
  · rintro ⟨hx, hy⟩
    apply (isRounded_hypotenuse hx hy).standsForReal
    simp

/-- A hypotenuse of length zero is no negative zero. -/
theorem parts_hypotenuse_of_zero (h : StandsForReal (hypotenuse x y) 0) :
    parts (hypotenuse x y) = .zero .positive := by
  obtain ⟨hx, hy⟩ := hypotenuse_zero_iff.mp h
  obtain ⟨s, hs⟩ := hx.exists_zero
  obtain ⟨t, ht⟩ := hy.exists_zero
  rw [parts_hypotenuse, hs, ht]
  exact stored_zero .positive

theorem value_hypotenuse_nonneg (x y : Float) : 0 ≤ value (hypotenuse x y) := by
  by_cases hnumber : IsNumber (hypotenuse x y)
  · rcases legs_of_isNumber_hypotenuse hnumber with ⟨s, hs⟩ | ⟨a, b, hx, hy⟩
    · rw [value_of_infinity (parts_hypotenuse_of_infinity hs)]
      exact le_top
    · rw [(isRounded_hypotenuse hx hy).value_eq]
      exact rounded_nonneg (EReal.coe_nonneg.mpr (Real.sqrt_nonneg _))
  · rw [value_of_notANumber (not_not.mp hnumber)]

end Landscape.Double
