import Landscape.Proofs.Relief.Modulus

namespace Landscape
open Double Float.Model Float.Model.UnpackedFloat

variable {x y : Float} {a b : ℝ}

theorem standsForReal_of_square {c : ℝ} (h : StandsForReal (x * x) c) : ∃ a, StandsForReal x a := by
  have hx := (isNumber_mul_iff.mp h.isNumber).1
  cases hx.kind with
  | real a hx' => exact ⟨a, hx'⟩
  | infinity s hx' =>
    have hvalue := value_square_of_infinity hx'
    rw [h.value_eq] at hvalue
    exact absurd hvalue (EReal.coe_ne_top c)

theorem abs_eq_one_of_square (hx : StandsForReal x a) (h : StandsForReal (x * x) 1) : |a| = 1 := by
  have hnearest := (isRounded_mul_reals hx hx).nearest_eq h
  have hkeep : nearest .binary64 |a| = |a| := eq_of_limit_eq (by rw [← rounded_coe, hx.rounded_abs])
  rw [← abs_mul_abs_self] at hnearest
  -- The square of a size on either side of one lies further out, and rounding keeps the size itself.
  rcases lt_trichotomy |a| 1 with hlt | heq | hgt
  · have hle := nearest_mono .binary64 (mul_le_of_le_one_right (abs_nonneg a) hlt.le)
    rw [hnearest, hkeep] at hle
    linarith
  · exact heq
  · have hle := nearest_mono .binary64 (le_mul_of_one_le_right (abs_nonneg a) hgt.le)
    rw [hnearest, hkeep] at hle
    linarith

theorem isNumber_modulus_iff {z : Point} :
    IsNumber (modulus z) ↔ IsNumber z.real ∧ IsNumber z.imaginary := by
  constructor
  · intro h
    by_contra hcoordinates
    -- Both parts of the square read both coordinates.
    apply not_isNumber_hypotenuse _ _ h
    · intro hreal
      obtain ⟨-, hdifference, -⟩ := isNumber_add_iff.mp hreal
      obtain ⟨hsquare, hsquare', -⟩ := isNumber_sub_iff.mp hdifference
      exact hcoordinates ⟨(isNumber_mul_iff.mp hsquare).1, (isNumber_mul_iff.mp hsquare').1⟩
    · intro himaginary
      obtain ⟨-, htwice, -⟩ := isNumber_add_iff.mp himaginary
      obtain ⟨hproduct, -, -⟩ := isNumber_add_iff.mp htwice
      obtain ⟨hx, hy, -⟩ := isNumber_mul_iff.mp hproduct
      exact hcoordinates ⟨hx, hy⟩
  · rintro ⟨hreal, himaginary⟩
    exact isNumber_modulus hreal himaginary

/-- A product counted twice is zero only if it is zero once. -/
theorem standsForReal_mul_of_double (h : StandsForReal (x * y + y * x) 0) :
    StandsForReal (x * y) 0 := by
  obtain ⟨c, d, hc, hd⟩ := standsForReal_of_add h
  have hneg : d = -c := eq_neg_of_add_eq_zero hc hd h
  have hsame : d = c := by
    rw [float_mul_comm] at hd
    exact StandsForReal.unique hd hc
  have hzero : c = 0 := by linarith
  rwa [hzero] at hc

/-- Underflow takes a factor of at most one half. -/
theorem eq_zero_of_underflow (hx : StandsForReal x a) (h : nearest .binary64 (a * b) = 0)
    (hb : 1 / 2 < |b|) : a = 0 := by
  obtain ⟨k, hk⟩ := StandsFor.exists_units hx
  have hunit : (0 : ℝ) < 2 ^ Format.binary64.minExponent := by positivity
  by_contra ha
  have hone : (1 : ℝ) ≤ |(k : ℝ)| := by
    have hne : k ≠ 0 := fun h => ha (by rw [hk, h, Int.cast_zero, zero_mul])
    exact_mod_cast Int.one_le_abs hne
  have hsmall := abs_le_of_nearest_eq_zero h
  rw [hk, abs_mul, abs_mul, abs_of_pos hunit] at hsmall
  have hlarge : 1 / 2 < |(k : ℝ)| * |b| := by nlinarith
  nlinarith

/-- A difference of squares that is rounded to minus one takes away more than a quarter. -/
theorem lt_abs_of_nearest_sub {A B : ℝ} (hy : StandsForReal y b) (hsquare : StandsForReal (y * y) B)
    (hA : 0 ≤ A) (h : nearest .binary64 (A - B) = -1) : 1 / 2 < |b| := by
  have hquarter : nearest .binary64 (1 / 4) = 1 / 4 := by
    have h := nearest_of_abs_lt (F := .binary64) (n := 1) (e := -2) (by decide) (by decide)
    norm_num at h ⊢
    exact h
  by_contra hb
  have hsmall : B ≤ 1 / 4 := by
    rw [← (isRounded_mul_reals hy hy).nearest_eq hsquare, ← hquarter]
    apply nearest_mono
    rw [← abs_mul_abs_self]
    nlinarith [abs_nonneg b]
  have hbound : nearest .binary64 (-(1 / 4)) ≤ nearest .binary64 (A - B) :=
    nearest_mono _ (by linarith)
  rw [nearest_neg, hquarter, h] at hbound
  norm_num at hbound

theorem square_nonneg {A : ℝ} (h : StandsForReal (x * x) A) : 0 ≤ A := by
  obtain ⟨a, hx⟩ := standsForReal_of_square h
  rw [← (isRounded_mul_reals hx hx).nearest_eq h]
  exact nearest_nonneg (mul_self_nonneg a)

/-- A sum of one and a square vanishes only at the two roots of minus one: no rounding leads there. -/
theorem roots_of_square (hreal : StandsForReal (x * x - y * y) (-1)) (himaginary : StandsForReal (x * y) 0) :
    StandsForReal x 0 ∧ (StandsForReal y 1 ∨ StandsForReal y (-1)) := by
  obtain ⟨A, B, hA, hB⟩ := standsForReal_of_sub hreal
  obtain ⟨a, hx⟩ := standsForReal_of_square hA
  obtain ⟨b, hy⟩ := standsForReal_of_square hB
  have hdifference := (isRounded_sub_reals hA hB).nearest_eq hreal
  have hproduct := (isRounded_mul_reals hx hy).nearest_eq himaginary
  have hlarge : 1 / 2 < |b| := lt_abs_of_nearest_sub hy hB (square_nonneg hA) hdifference
  have ha : a = 0 := eq_zero_of_underflow hx hproduct hlarge
  subst ha
  have hzero : A = 0 := by
    rw [← (isRounded_mul_reals hx hx).nearest_eq hA, mul_zero, nearest_zero]
  rw [hzero, zero_sub, nearest_neg, StandsFor.nearest_eq hB] at hdifference
  have hone : B = 1 := by linarith
  subst hone
  rcases eq_or_eq_neg_of_abs_eq (abs_eq_one_of_square hy hB) with rfl | rfl
  · exact ⟨hx, .inl hy⟩
  · exact ⟨hx, .inr hy⟩

theorem modulus_zero_of_root (hx : StandsForReal x 0) (hy : StandsForReal y b) (hb : b * b = 1) :
    StandsForReal (modulus ⟨x, y⟩) 0 := by
  have hzero := standsForReal_zero.rounded_eq
  have hunit := standsForReal_one.rounded_eq
  have hsquare : StandsForReal (x * x) 0 :=
    (isRounded_mul_reals hx hx).standsForReal (by rw [mul_zero, hzero])
  have hsquare' : StandsForReal (y * y) 1 :=
    (isRounded_mul_reals hy hy).standsForReal (by rw [hb, hunit])
  have hreal : StandsForReal (x * x - y * y) (-1) :=
    (isRounded_sub_reals hsquare hsquare').standsForReal (by
      rw [zero_sub, EReal.coe_neg, rounded_neg, hunit])
  have hproduct : StandsForReal (x * y) 0 :=
    (isRounded_mul_reals hx hy).standsForReal (by rw [zero_mul, hzero])
  have hproduct' : StandsForReal (y * x) 0 :=
    (isRounded_mul_reals hy hx).standsForReal (by rw [mul_zero, hzero])
  have himaginary : StandsForReal (x * y + y * x) 0 :=
    (isRounded_add_reals hproduct hproduct').standsForReal (by rw [add_zero, hzero])
  apply hypotenuse_zero_iff.mpr
  constructor
  · exact (isRounded_add_reals standsForReal_one hreal).standsForReal (by
      rw [add_neg_cancel, hzero])
  · exact (isRounded_add_reals standsForReal_zero himaginary).standsForReal (by
      rw [add_zero, hzero])

theorem modulus_zero_iff : StandsForReal (modulus ⟨x, y⟩) 0 ↔
    StandsForReal x 0 ∧ (StandsForReal y 1 ∨ StandsForReal y (-1)) := by
  constructor
  · intro h
    obtain ⟨hreal, himaginary⟩ := hypotenuse_zero_iff.mp h
    obtain ⟨-, c, -, hc⟩ := standsForReal_of_add hreal
    obtain ⟨-, d, -, hd⟩ := standsForReal_of_add himaginary
    obtain rfl := eq_neg_of_add_eq_zero standsForReal_one hc hreal
    obtain rfl := eq_neg_of_add_eq_zero standsForReal_zero hd himaginary
    rw [neg_zero] at hd
    exact roots_of_square hc (standsForReal_mul_of_double hd)
  · rintro ⟨hx, hy | hy⟩
    · exact modulus_zero_of_root hx hy (by norm_num)
    · exact modulus_zero_of_root hx hy (by norm_num)

theorem hypotenuse_pos_iff : 0.0 < hypotenuse x y ↔
    (hypotenuse x y).isNaN = false ∧ (hypotenuse x y == 0.0) = false := by
  have hzero := standsForReal_zero
  rw [isNaN_eq_false_iff, ← Bool.not_eq_true, Double.beq_iff, Double.lt_iff, hzero.value_eq,
    EReal.coe_zero]
  have hnonneg := value_hypotenuse_nonneg x y
  constructor
  · rintro ⟨-, hnumber, hpos⟩
    exact ⟨hnumber, fun h => hpos.ne' h.2.2⟩
  · rintro ⟨hnumber, hne⟩
    exact ⟨hzero.isNumber, hnumber, hnonneg.lt_of_ne' fun h => hne ⟨hnumber, hzero.isNumber, h⟩⟩

/-- The modulus is no number exactly where a coordinate is none, zero exactly at the roots of `1 + z²`,
whichever zero the real coordinate is, and positive everywhere else. -/
theorem modulus_classified (z : Point) :
    let outside := z.real.isNaN || z.imaginary.isNaN
    let root := z.real == 0.0 && (z.imaginary == 1.0 || z.imaginary == -1.0)
    (modulus z).isNaN = outside ∧ (modulus z == 0.0) = root ∧
      (0.0 < modulus z ↔ outside = false ∧ root = false) := by
  intro outside root
  have hnumber : (modulus z).isNaN = outside := by
    have hfalse : (modulus z).isNaN = false ↔ outside = false := by
      rw [Bool.or_eq_false_iff]
      simp only [isNaN_eq_false_iff]
      exact isNumber_modulus_iff
    rwa [← Bool.not_eq_true, ← Bool.not_eq_true, not_iff_not, ← Bool.eq_iff_iff] at hfalse
  have hroot : (modulus z == 0.0) = root := by
    rw [Bool.eq_iff_iff, standsForReal_zero.beq_iff, modulus_zero_iff]
    simp only [root, Bool.and_eq_true, Bool.or_eq_true, standsForReal_zero.beq_iff,
      standsForReal_one.beq_iff, standsForReal_one.neg.beq_iff]
  refine ⟨hnumber, hroot, ?_⟩
  rw [← hnumber, ← hroot]
  exact hypotenuse_pos_iff

end Landscape
