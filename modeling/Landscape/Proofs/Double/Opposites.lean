import Landscape.Proofs.Double.Hypotenuse

namespace Landscape.Double
open Float.Model Float.Model.UnpackedFloat

/-- The numbers of two doubles are each other's negation, or neither is a number. -/
structure Opposite (x y : Float) : Prop where
  isNumber_iff : IsNumber x ↔ IsNumber y
  value_eq : value x = -value y

variable {x x' y y' : Float} {a b : EReal}

theorem opposite_of_numbers (hiff : IsNumber x ↔ IsNumber y)
    (hvalue : IsNumber x → IsNumber y → value x = -value y) : Opposite x y := by
  refine ⟨hiff, ?_⟩
  by_cases hy : IsNumber y
  · exact hvalue (hiff.mpr hy) hy
  · have hx : ¬ IsNumber x := mt hiff.mp hy
    rw [value_of_notANumber (not_not.mp hx), value_of_notANumber (not_not.mp hy), neg_zero]

theorem opposite_neg (x : Float) : Opposite (-x) x :=
  ⟨isNumber_neg, value_neg x⟩

theorem opposite_zero : Opposite 0.0 0.0 where
  isNumber_iff := Iff.rfl
  value_eq := by rw [standsForReal_zero.value_eq, EReal.coe_zero, neg_zero]

theorem multiplies_neg : Multiplies (-a) b ↔ Multiplies a b := by
  simp only [Multiplies, EReal.neg_eq_zero_iff, EReal.neg_eq_top_iff, EReal.neg_eq_bot_iff,
    or_comm (a := a = ⊥)]

theorem adds_neg : Adds (-a) (-b) ↔ Adds a b := by
  simp only [Adds, EReal.neg_eq_top_iff, EReal.neg_eq_bot_iff, and_comm]

theorem Opposite.mul_left (h : Opposite x x') (y : Float) : Opposite (x * y) (x' * y) := by
  apply opposite_of_numbers
  · rw [isNumber_mul_iff, isNumber_mul_iff, h.isNumber_iff, h.value_eq, multiplies_neg]
  · intro hproduct hproduct'
    obtain ⟨hx, hy, hmultiplies⟩ := isNumber_mul_iff.mp hproduct
    obtain ⟨hx', -, hmultiplies'⟩ := isNumber_mul_iff.mp hproduct'
    rw [(isRounded_mul hx hy hmultiplies).value_eq, (isRounded_mul hx' hy hmultiplies').value_eq,
      h.value_eq, neg_mul, rounded_neg]

theorem Opposite.mul_right (h : Opposite y y') (x : Float) : Opposite (x * y) (x * y') := by
  rw [float_mul_comm x y, float_mul_comm x y']
  exact h.mul_left x

theorem Opposite.add (h : Opposite x x') (h' : Opposite y y') : Opposite (x + y) (x' + y') := by
  apply opposite_of_numbers
  · rw [isNumber_add_iff, isNumber_add_iff, h.isNumber_iff, h'.isNumber_iff, h.value_eq, h'.value_eq,
      adds_neg]
  · intro hsum hsum'
    obtain ⟨hx, hy, hadds⟩ := isNumber_add_iff.mp hsum
    obtain ⟨hx', hy', hadds'⟩ := isNumber_add_iff.mp hsum'
    have hneg : -(value x' + value y') = -value x' + -value y' :=
      EReal.neg_add (not_and_or.mp hadds'.2) (not_and_or.mp hadds'.1)
    rw [(isRounded_add hx hy hadds).value_eq, (isRounded_add hx' hy' hadds').value_eq, ← rounded_neg,
      hneg, h.value_eq, h'.value_eq]

/-- The signs of two factors that are both changed cancel, whatever the factors are. -/
theorem float_neg_mul_neg (x y : Float) : -x * -y = x * y := by
  have hsign (s t : Sign) : -s * -t = s * t := by cases s <;> cases t <;> rfl
  apply parts_inj.mp
  rw [parts_mul, parts_mul, parts_neg_eq, parts_neg_eq]
  congr 1
  cases parts x <;> cases parts y <;> simp only [UnpackedFloat.neg, UnpackedFloat.mul, hsign]

theorem Opposite.abs_parts (h : Opposite x y) : (parts x).abs = (parts y).abs := by
  by_cases hy : IsNumber y
  · have hx : IsNumber x := h.isNumber_iff.mpr hy
    by_cases hzero : value y = 0
    · obtain ⟨s, hs⟩ := (standsForReal_of_value hx (by rw [h.value_eq, hzero]; simp)).exists_zero
      obtain ⟨t, ht⟩ := (standsForReal_of_value hy hzero).exists_zero
      rw [hs, ht]
      rfl
    · have hneg : x = -y := by
        apply eq_of_value_eq hx (isNumber_neg.mpr hy)
        · rw [h.value_eq, value_neg]
        · rw [h.value_eq]
          exact mt EReal.neg_eq_zero_iff.mp hzero
      rw [hneg, parts_neg_eq]
      cases parts y <;> rfl
  · have hx : ¬ IsNumber x := mt h.isNumber_iff.mp hy
    rw [not_not.mp hx, not_not.mp hy]

theorem hypotenuseOf_abs (u v : UnpackedFloat) : hypotenuseOf u v.abs = hypotenuseOf u v := by
  cases u <;> cases v <;> rfl

theorem Opposite.hypotenuse_eq (h : Opposite y y') (x : Float) : hypotenuse x y = hypotenuse x y' := by
  apply parts_inj.mp
  rw [parts_hypotenuse, parts_hypotenuse, ← hypotenuseOf_abs, h.abs_parts, hypotenuseOf_abs]

end Landscape.Double
