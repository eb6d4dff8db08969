import Landscape.Proofs.Double.Hypotenuse
import Landscape.Proofs.Double.Reals
import Landscape.Relief

namespace Landscape
open Double Float.Model Float.Model.UnpackedFloat

variable {x y : Float} {a b : ℝ} {s : Sign}

theorem isRounded_square (h : IsNumber x) : IsRounded (x * x) (value x * value x) :=
  isRounded_mul h h (multiplies_self _)

theorem value_square_of_infinity (h : parts x = .infinity s) : value (x * x) = ⊤ := by
  have hsign : s * s = .positive := by cases s <;> rfl
  rw [(isRounded_square (isNumber_of_infinity h)).value_eq, value_of_infinity h, endOf_mul_endOf,
    rounded_endOf, hsign]
  rfl

theorem value_square_of_zero (hx : IsNumber x) (h : value x = 0) : value (x * x) = 0 := by
  rw [(isRounded_square hx).value_eq, h, mul_zero, rounded_zero]

/-- The size of a product is no less than the smaller of the squares of its factors. -/
theorem rounded_abs_mul_eq_top (h : rounded (a * a : ℝ) = ⊤) (h' : rounded (b * b : ℝ) = ⊤) :
    rounded (|a * b| : ℝ) = ⊤ := by
  have hsize : min (a * a) (b * b) ≤ |a * b| := by
    rw [abs_mul, ← abs_mul_abs_self a, ← abs_mul_abs_self b]
    rcases le_total |a| |b| with hle | hle
    · exact (min_le_left _ _).trans (mul_le_mul_of_nonneg_left hle (abs_nonneg a))
    · exact (min_le_right _ _).trans (mul_le_mul_of_nonneg_right hle (abs_nonneg b))
  have hmono := rounded_mono (EReal.coe_le_coe_iff.mpr hsize)
  apply top_le_iff.mp
  rcases min_choice (a * a) (b * b) with hmin | hmin
  · rwa [hmin, h] at hmono
  · rwa [hmin, h'] at hmono

/-- A result whose size is past the largest double is infinite. -/
theorem infinity_of_rounded_abs (hx : IsRounded x a) (h : rounded (|a| : ℝ) = ⊤) :
    ∃ s, parts x = .infinity s := by
  rcases abs_choice a with habs | habs
  · rw [habs, ← hx.value_eq] at h
    exact ⟨.positive, parts_of_value_eq_endOf h⟩
  · rw [habs, EReal.coe_neg, rounded_neg, ← hx.value_eq, EReal.neg_eq_top_iff] at h
    exact ⟨.negative, parts_of_value_eq_endOf h⟩

theorem infinity_mul (hx : parts x = .infinity s) (hy : IsNumber y) (h : value y ≠ 0) :
    ∃ t, parts (x * y) = .infinity t := by
  cases hy.kind with
  | infinity t hy' =>
    refine ⟨s * t, ?_⟩
    rw [parts_mul, hx, hy']
    exact stored_infinity _
  | real b hy' =>
    rw [float_mul_comm]
    rcases parts_mul_infinity hy' hx with ⟨rfl, -⟩ | ⟨-, t, ht, -⟩
    · exact absurd hy'.value_eq h
    · exact ⟨t, ht⟩

theorem infinity_mul_of_squares (hx : IsNumber x) (hy : IsNumber y) (hsquare : value (x * x) = ⊤)
    (hsquare' : value (y * y) = ⊤) : ∃ s, parts (x * y) = .infinity s := by
  have hne {z : Float} (hz : IsNumber z) (hsquare : value (z * z) = ⊤) : value z ≠ 0 := by
    intro hzero
    rw [value_square_of_zero hz hzero] at hsquare
    exact EReal.zero_ne_top hsquare
  cases hx.kind with
  | infinity s hx' => exact infinity_mul hx' hy (hne hy hsquare')
  | real a hx' =>
    cases hy.kind with
    | infinity t hy' =>
      rw [float_mul_comm]
      exact infinity_mul hy' hx (hne hx hsquare)
    | real b hy' =>
      have hproduct := isRounded_mul hx hy
      rw [hx'.value_eq, hy'.value_eq] at hproduct
      rw [(isRounded_square hx).value_eq, hx'.value_eq] at hsquare
      rw [(isRounded_square hy).value_eq, hy'.value_eq] at hsquare'
      exact infinity_of_rounded_abs (hproduct (multiplies_coe a b))
        (rounded_abs_mul_eq_top hsquare hsquare')

/-- Of two numbers whose product is none, one is zero and the other infinite, and so are their
squares. -/
theorem infinity_sub_of_not_isNumber_mul (hx : IsNumber x) (hy : IsNumber y)
    (h : ¬ IsNumber (x * y)) : ∃ s, parts (x * x - y * y) = .infinity s := by
  have hmultiplies : (value x = 0 ∧ (value y = ⊤ ∨ value y = ⊥)) ∨
      ((value x = ⊤ ∨ value x = ⊥) ∧ value y = 0) := by
    have h' : ¬ Multiplies (value x) (value y) := fun h' => h (isNumber_mul_iff.mpr ⟨hx, hy, h'⟩)
    unfold Multiplies at h'
    tauto
  have hsquare := (isRounded_square hx).isNumber
  have hsquare' := (isRounded_square hy).isNumber
  have hinfinity {z : Float} (h : value z = ⊤ ∨ value z = ⊥) : value (z * z) = ⊤ := by
    rcases h with h | h
    · exact value_square_of_infinity (s := .positive) (parts_of_value_eq_endOf h)
    · exact value_square_of_infinity (s := .negative) (parts_of_value_eq_endOf h)
  have hdifference := isRounded_sub hsquare hsquare'
  rcases hmultiplies with ⟨hzero, hend⟩ | ⟨hend, hzero⟩
  · rw [value_square_of_zero hx hzero, hinfinity hend] at hdifference
    refine ⟨.negative, parts_of_value_eq_endOf ?_⟩
    rw [(hdifference (by simp [Adds])).value_eq]
    simp [endOf]
  · rw [value_square_of_zero hy hzero, hinfinity hend] at hdifference
    refine ⟨.positive, parts_of_value_eq_endOf ?_⟩
    rw [(hdifference (by simp [Adds])).value_eq]
    simp [endOf]

/-- A difference of two squares that is no number has two infinite squares. -/
theorem value_squares_of_not_isNumber_sub (hx : IsNumber x) (hy : IsNumber y)
    (h : ¬ IsNumber (x * x - y * y)) : value (x * x) = ⊤ ∧ value (y * y) = ⊤ := by
  have hsquare := isRounded_square hx
  have hnonneg : 0 ≤ value (x * x) := by
    rw [hsquare.value_eq]
    apply rounded_nonneg
    exact EReal.mul_nonneg_iff.mpr ((le_total 0 (value x)).imp (fun h => ⟨h, h⟩) fun h => ⟨h, h⟩)
  have hadds : value (x * x) = ⊤ ∧ value (y * y) = ⊤ ∨
      value (x * x) = ⊥ ∧ -value (y * y) = ⊤ := by
    have h' : ¬ Adds (value (x * x)) (-value (y * y)) := fun h' =>
      h (isNumber_sub_iff.mpr ⟨hsquare.isNumber, (isRounded_square hy).isNumber, h'⟩)
    rw [Adds, EReal.neg_eq_bot_iff] at h'
    tauto
  rcases hadds with hadds | ⟨hbot, -⟩
  · exact hadds
  · rw [hbot] at hnonneg
    exact absurd hnonneg EReal.bot_lt_zero.not_ge

theorem isRounded_double (h : IsNumber (x * y)) :
    IsRounded (x * y + y * x) (value (x * y) + value (x * y)) := by
  rw [float_mul_comm y x]
  apply isRounded_add h h
  constructor
  · rintro ⟨htop, hbot⟩
    exact bot_ne_top (hbot.symm.trans htop)
  · rintro ⟨hbot, htop⟩
    exact bot_ne_top (hbot.symm.trans htop)

theorem isNumber_modulus {z : Point} (hreal : IsNumber z.real) (himaginary : IsNumber z.imaginary) :
    IsNumber (modulus z) := by
  obtain ⟨x, y⟩ := z
  change IsNumber x at hreal
  change IsNumber y at himaginary
  show IsNumber (hypotenuse (1.0 + (x * x - y * y)) (0.0 + (x * y + y * x)))
  by_cases hproduct : IsNumber (x * y)
  · have hdouble := isRounded_double hproduct
    by_cases hdifference : IsNumber (x * x - y * y)
    · apply isNumber_hypotenuse
      · exact isNumber_add_of_real standsForReal_one hdifference
      · exact isNumber_add_of_real standsForReal_zero hdouble.isNumber
    · -- The real part is no number, so both squares are infinite, and the imaginary part with them.
      obtain ⟨hsquare, hsquare'⟩ := value_squares_of_not_isNumber_sub hreal himaginary hdifference
      obtain ⟨s, hs⟩ := infinity_mul_of_squares hreal himaginary hsquare hsquare'
      have htwice : endOf s + endOf s = endOf s := by cases s <;> rfl
      have hsum : parts (x * y + y * x) = .infinity s := by
        apply parts_of_value_eq_endOf
        rw [hdouble.value_eq, value_of_infinity hs, htwice, rounded_endOf]
      apply isNumber_of_infinity
      exact parts_hypotenuse_of_infinity (.inr (parts_real_add_infinity standsForReal_zero hsum))
  · -- The imaginary part is no number, so one coordinate is zero and the square of the other infinite.
    obtain ⟨s, hs⟩ := infinity_sub_of_not_isNumber_mul hreal himaginary hproduct
    apply isNumber_of_infinity
    exact parts_hypotenuse_of_infinity (.inl (parts_real_add_infinity standsForReal_one hs))

end Landscape
