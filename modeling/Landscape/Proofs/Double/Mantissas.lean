import Landscape.Proofs.Double.Rounding

namespace Landscape.Double
open Float.Model Float.Model.UnpackedFloat

/-- What a mantissa and its two bits say about an exact value. -/
inductive Holds : ExtendedMantissa → ℝ → Prop
  | exact {m : ℕ} {x : ℝ} (h : x = m) : Holds ⟨m, false, false⟩ x
  | low {m : ℕ} {x : ℝ} (hlower : m < x) (hupper : x < m + 1 / 2) : Holds ⟨m, false, true⟩ x
  | half {m : ℕ} {x : ℝ} (h : x = m + 1 / 2) : Holds ⟨m, true, false⟩ x
  | high {m : ℕ} {x : ℝ} (hlower : m + 1 / 2 < x) (hupper : x < m + 1) : Holds ⟨m, true, true⟩ x

theorem holds_exact (m : ℕ) : Holds (.ofMantissaAndAccuracy m .exact) m := .exact rfl

theorem holds_fraction (m : ℕ) {part whole : ℕ} (h : part < whole) :
    Holds (.ofMantissaAndAccuracy m (accuracyOfFraction part whole)) (m + part / whole) := by
  have hwhole : (0 : ℝ) < whole := by exact_mod_cast (Nat.zero_le _).trans_lt h
  have hlt : (part : ℝ) < whole := by exact_mod_cast h
  unfold accuracyOfFraction
  by_cases hzero : part = 0
  · rw [if_pos hzero, hzero, Nat.cast_zero, zero_div, add_zero]
    exact holds_exact m
  · have hpos : (0 : ℝ) < part := by exact_mod_cast Nat.pos_of_ne_zero hzero
    have hfraction : (0 : ℝ) < part / whole := by positivity
    rw [if_neg hzero]
    rcases lt_trichotomy (2 * part) whole with hhalf | hhalf | hhalf
    · have hcast : 2 * (part : ℝ) < whole := by exact_mod_cast hhalf
      have hupper : (part : ℝ) / whole < 1 / 2 := by
        rw [div_lt_div_iff₀ hwhole (by norm_num)]
        linarith
      rw [Nat.compare_eq_lt.mpr hhalf]
      exact .low (by linarith) (by linarith)
    · have hcast : 2 * (part : ℝ) = whole := by exact_mod_cast hhalf
      have heq : (part : ℝ) / whole = 1 / 2 := by
        rw [div_eq_div_iff hwhole.ne' (by norm_num)]
        linarith
      rw [Nat.compare_eq_eq.mpr hhalf, heq]
      exact .half rfl
    · have hcast : (whole : ℝ) < 2 * part := by exact_mod_cast hhalf
      have hlower : 1 / 2 < (part : ℝ) / whole := by
        rw [div_lt_div_iff₀ (by norm_num) hwhole]
        linarith
      have hupper : (part : ℝ) / whole < 1 := (div_lt_one hwhole).mpr hlt
      rw [Nat.compare_eq_gt.mpr hhalf]
      exact .high (by linarith) (by linarith)

namespace Holds

variable {em : ExtendedMantissa} {x : ℝ}

theorem le (h : Holds em x) : em.mantissa ≤ x := by
  cases h <;> dsimp only <;> linarith

theorem lt (h : Holds em x) : x < em.mantissa + 1 := by
  cases h <;> dsimp only <;> linarith

theorem floor (h : Holds em x) : ⌊x⌋ = em.mantissa :=
  Int.floor_eq_iff.mpr ⟨by exact_mod_cast h.le, by exact_mod_cast h.lt⟩

theorem shiftRightOne (h : Holds em x) : Holds em.shiftRightOne (x / 2) := by
  obtain ⟨m, half, below⟩ := em
  have hcast : (m : ℝ) = ((m % 2 : ℕ) : ℝ) + 2 * ((m / 2 : ℕ) : ℝ) := by
    exact_mod_cast (Nat.mod_add_div m 2).symm
  -- The last digit comes to the half place, and all that was below it under the half.
  change Holds ⟨m / 2, m % 2 != 0, half || below⟩ (x / 2)
  rcases Nat.mod_two_eq_zero_or_one m with hrest | hrest
  · rw [hrest, Nat.cast_zero] at hcast
    rw [hrest]
    cases h with
    | exact h => exact .exact (by linarith)
    | low hlower hupper => exact .low (by linarith) (by linarith)
    | half h => exact .low (by linarith) (by linarith)
    | high hlower hupper => exact .low (by linarith) (by linarith)
  · rw [hrest, Nat.cast_one] at hcast
    rw [hrest]
    cases h with
    | exact h => exact .half (by linarith)
    | low hlower hupper => exact .high (by linarith) (by linarith)
    | half h => exact .high (by linarith) (by linarith)
    | high hlower hupper => exact .high (by linarith) (by linarith)

theorem shiftRight (h : Holds em x) (n : ℕ) : Holds (em >>> n) (x / 2 ^ n) := by
  change Holds (n.repeat ExtendedMantissa.shiftRightOne em) _
  induction n with
  | zero => simpa [Nat.repeat] using h
  | succ n ih =>
    rw [Nat.repeat, pow_succ, ← div_div]
    exact ih.shiftRightOne

theorem roundedMantissa (h : Holds em x) : (em.roundedMantissa : ℤ) = roundEven x := by
  have hfract : Int.fract x = x - em.mantissa := by
    rw [Int.fract, h.floor]
    norm_cast
  unfold roundEven
  rw [hfract, h.floor]
  cases h <;>
    simp only [ExtendedMantissa.roundedMantissa, ExtendedMantissa.accuracy,
      Accuracy.roundToNearestEven] <;>
    split_ifs <;> first | rfl | (exfalso; linarith)

end Holds

variable {F : Format} {x : ℝ} {m : ℕ} {e : ℤ} {a : Accuracy}

theorem mantissa_ofMantissaAndAccuracy (m : ℕ) (a : Accuracy) :
    (ExtendedMantissa.ofMantissaAndAccuracy m a).mantissa = m := by
  rcases a with _ | o
  · rfl
  · cases o <;> rfl

theorem log_eq_of_digits (hm : m ≠ 0) (hlower : m * 2 ^ e ≤ x) (hupper : x < (m + 1) * 2 ^ e) :
    Int.log 2 x = m.log2 + e := by
  have hx : 0 < x := by
    refine lt_of_lt_of_le ?_ hlower
    have : (0 : ℝ) < m := by exact_mod_cast Nat.pos_of_ne_zero hm
    positivity
  apply le_antisymm
  · apply Int.lt_add_one_iff.mp
    apply (Int.lt_zpow_iff_log_lt (by decide) hx).mp
    have hpow : ((m : ℝ) + 1) ≤ 2 ^ (m.log2 + 1) := by
      exact_mod_cast Nat.lt_log2_self
    push_cast
    calc
      x < (m + 1) * 2 ^ e := hupper
      _ ≤ 2 ^ (m.log2 + 1) * 2 ^ e := by gcongr
      _ = 2 ^ ((m.log2 : ℤ) + e + 1) := by
        rw [← zpow_natCast, ← zpow_add₀ (by norm_num)]
        congr 1
        push_cast
        ring
  · apply (Int.zpow_le_iff_le_log (by decide) hx).mp
    have hpow : (2 : ℝ) ^ m.log2 ≤ m := by
      exact_mod_cast Nat.log2_self_le hm
    push_cast
    calc
      (2 : ℝ) ^ ((m.log2 : ℤ) + e) = 2 ^ m.log2 * 2 ^ e := by
        rw [zpow_add₀ (by norm_num), zpow_natCast]
      _ ≤ m * 2 ^ e := by gcongr
      _ ≤ x := hlower

theorem targetExponent_eq_place (hm : 0 < m) (e : ℤ) :
    F.targetExponent (totalExponent m e) = place F (m * 2 ^ e) := by
  have hpos : (0 : ℝ) < 2 ^ e := by positivity
  have hlog : Int.log 2 |(m : ℝ) * 2 ^ e| = m.log2 + e := by
    rw [abs_of_pos (by positivity)]
    exact log_eq_of_digits hm.ne' le_rfl (by nlinarith)
  unfold Format.targetExponent totalExponent place
  rw [hlog]
  omega

/-- A mantissa whose exponent is not above the place of the value is shifted to that place. -/
theorem targetExponent_of_holds (hx : 0 < x)
    (h : Holds (.ofMantissaAndAccuracy m a) (x / 2 ^ e)) (he : e ≤ place F x) :
    F.targetExponent (totalExponent m e) = place F x := by
  have hlower := h.le
  have hupper := h.lt
  rw [mantissa_ofMantissaAndAccuracy] at hlower hupper
  rw [le_div_iff₀ (by positivity)] at hlower
  rw [div_lt_iff₀ (by positivity)] at hupper
  have hbits := mantissaBits_eq F
  unfold Format.targetExponent totalExponent
  by_cases hm : m = 0
  · -- The value is below one unit of its exponent, which is then not above the least place.
    subst hm
    have hlt : x < 2 ^ e := by simpa using hupper
    have hlog : Int.log 2 x < e :=
      (Int.lt_zpow_iff_log_lt (by decide) hx).mp (by exact_mod_cast hlt)
    rw [place, abs_of_pos hx] at he ⊢
    rw [Nat.log2_zero]
    omega
  · rw [place, abs_of_pos hx, log_eq_of_digits hm hlower hupper]
    omega

theorem shiftToTargetExponent_eq {k : ℕ}
    (hk : (F.targetExponent (totalExponent m e) - e).toNat = k) :
    shiftToTargetExponent F m e a =
      (ExtendedMantissa.ofMantissaAndAccuracy m a >>> k, e + k) := by
  subst hk
  rfl

/-- The first shift and its rounding, in terms of the exact value. -/
theorem roundedMantissa_shiftToTargetExponent (hx : 0 < x)
    (h : Holds (.ofMantissaAndAccuracy m a) (x / 2 ^ e)) (he : e ≤ place F x) :
    (shiftToTargetExponent F m e a).2 = place F x ∧
      ((shiftToTargetExponent F m e a).1.roundedMantissa : ℤ) =
        roundEven (x / 2 ^ place F x) := by
  have htarget := targetExponent_of_holds hx h he
  obtain ⟨k, hk⟩ := Int.le.dest he
  rw [shiftToTargetExponent_eq (k := k) (by omega)]
  refine ⟨hk, ?_⟩
  have hshift := (h.shiftRight k).roundedMantissa
  rwa [div_div, ← zpow_natCast, ← zpow_add₀ (by norm_num), hk] at hshift

theorem shiftToTargetExponent_of_lt (hm : m < 2 ^ F.mantissaBits) (he : F.minExponent ≤ e) :
    shiftToTargetExponent F m e .exact = (⟨m, false, false⟩, e) := by
  have hlog : m.log2 < F.mantissaBits := by
    by_cases hzero : m = 0
    · rw [hzero, mantissaBits_eq, Nat.log2_zero]
      omega
    · exact (Nat.log2_lt hzero).mpr hm
  have htarget : F.targetExponent (totalExponent m e) ≤ e := by
    unfold Format.targetExponent totalExponent
    omega
  rw [shiftToTargetExponent_eq (k := 0) (by omega)]
  simp [ExtendedMantissa.ofMantissaAndAccuracy, HShiftRight.hShiftRight, Nat.repeat]

/-- A mantissa rounded up to the next power of two is halved. -/
theorem shiftToTargetExponent_of_eq (he : F.minExponent ≤ e) :
    shiftToTargetExponent F (2 ^ F.mantissaBits) e .exact =
      (⟨2 ^ F.mantissaBitsWithoutImplicit, false, false⟩, e + 1) := by
  have htarget : F.targetExponent (totalExponent (2 ^ F.mantissaBits) e) = e + 1 := by
    unfold Format.targetExponent totalExponent
    rw [Nat.log2_two_pow]
    omega
  rw [shiftToTargetExponent_eq (k := 1) (by omega)]
  simp [ExtendedMantissa.ofMantissaAndAccuracy, HShiftRight.hShiftRight, Nat.repeat,
    ExtendedMantissa.shiftRightOne, mantissaBits_eq, pow_succ]

/-- The digits of a rounded number: as many as fit, or one more, and fewer only at the least exponent. -/
theorem digits_of_nearest {r : ℕ} (hx : 0 < x) (h : nearest F x = r * 2 ^ place F x) :
    r ≤ 2 ^ F.mantissaBits ∧
      (2 ^ F.mantissaBitsWithoutImplicit ≤ r ∨ place F x = F.minExponent) := by
  have hpos : (0 : ℝ) < 2 ^ place F x := by positivity
  constructor
  · have hlt := (lt_of_place (F := F) hx).le
    rw [add_comm, zpow_add₀ (by norm_num), zpow_natCast] at hlt
    have hle := nearest_le_of_le (F := F) (x := x) (n := 2 ^ F.mantissaBits) (by exact_mod_cast hlt)
    rw [h] at hle
    exact_mod_cast le_of_mul_le_mul_right hle hpos
  · rcases (minExponent_le_place (F := F) (x := x)).lt_or_eq with hlt | heq
    · left
      have hle := le_of_minExponent_lt_place hx hlt
      rw [mantissaBits_eq, Nat.cast_add_one, add_sub_assoc, add_sub_cancel_right, add_comm,
        zpow_add₀ (by norm_num), zpow_natCast] at hle
      have hle := le_nearest_of_le (F := F) (x := x)
        (n := 2 ^ F.mantissaBitsWithoutImplicit) (by exact_mod_cast hle)
      rw [h] at hle
      exact_mod_cast le_of_mul_le_mul_right hle hpos
    · exact .inr heq.symm

/-- Rounding gives the number of the format nearest to the exact value, if the mantissa starts at an
exponent not above the value's place. -/
theorem standsFor_roundWithAccuracy (s : Sign) (hx : 0 < x)
    (h : Holds (.ofMantissaAndAccuracy m a) (x / 2 ^ e)) (he : e ≤ place F x) :
    StandsFor F (roundWithAccuracy F s m e a) (factor s * nearest F x) := by
  obtain ⟨hexponent, hround⟩ := roundedMantissa_shiftToTargetExponent hx h he
  have hvalue : nearest F x =
      ((shiftToTargetExponent F m e a).1.roundedMantissa : ℝ) * 2 ^ place F x := by
    rw [nearest, ← hround, Int.cast_natCast]
  obtain ⟨hupper, hlower⟩ := digits_of_nearest hx hvalue
  have hmin : F.minExponent ≤ place F x := minExponent_le_place
  rw [hvalue]
  unfold roundWithAccuracy
  rcases hfirst : shiftToTargetExponent F m e a with ⟨first, exponent⟩
  rw [hfirst] at hexponent hupper hlower
  subst hexponent
  dsimp only at hupper hlower ⊢
  generalize first.roundedMantissa = r at hupper hlower ⊢
  -- A mantissa that fits stays, and one that has become the next power of two is halved.
  rcases hupper.lt_or_eq with hlt | rfl
  · rw [shiftToTargetExponent_of_lt hlt hmin]
    dsimp only
    split_ifs with hzero
    · exact ⟨rfl, trivial, by simp [real, hzero]⟩
    · exact standsFor_finite s (Nat.pos_of_ne_zero hzero) hlt hmin hlower
  · rw [shiftToTargetExponent_of_eq hmin]
    have hne : ¬ 2 ^ F.mantissaBitsWithoutImplicit = 0 := by positivity
    have hlt : 2 ^ F.mantissaBitsWithoutImplicit < 2 ^ F.mantissaBits := by
      rw [mantissaBits_eq]
      exact Nat.pow_lt_pow_right (by decide) (Nat.lt_succ_self _)
    dsimp only
    rw [dif_neg hne]
    have hstands := standsFor_finite s (Nat.pos_of_ne_zero hne) hlt (e := place F x + 1)
      (by omega) (.inl le_rfl)
    refine ⟨hstands.isFinite, hstands.canonical, hstands.real_eq.trans ?_⟩
    rw [mantissaBits_eq, zpow_add_one₀ (by norm_num)]
    push_cast
    ring

/-- Rounding an exact value, whatever the exponent it starts at. -/
theorem standsFor_round (s : Sign) (hm : 0 < m) (e : ℤ) :
    StandsFor F (UnpackedFloat.round F s m e) (nearest F (factor s * (m * 2 ^ e))) := by
  have hx : (0 : ℝ) < m * 2 ^ e := by positivity
  let k := (e - F.targetExponent (totalExponent m e)).toNat
  have hexact : (m : ℝ) * 2 ^ e / 2 ^ (e - k) = ((m <<< k : ℕ) : ℝ) := by
    rw [Nat.shiftLeft_eq, div_eq_iff (by positivity)]
    push_cast
    rw [mul_assoc, ← zpow_natCast, ← zpow_add₀ (by norm_num)]
    congr 2
    ring
  have hplace := targetExponent_eq_place (F := F) hm e
  unfold UnpackedFloat.round decreaseExponent
  rw [nearest_factor_mul]
  refine standsFor_roundWithAccuracy s hx ?_ ?_
  · change Holds _ (_ / 2 ^ (e - (k : ℤ)))
    rw [hexact]
    exact holds_exact _
  · omega

end Landscape.Double
