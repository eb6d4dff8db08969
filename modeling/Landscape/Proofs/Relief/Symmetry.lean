import Landscape.Proofs.Double.Opposites
import Landscape.Proofs.Relief.Lookups

namespace Landscape
open Double

theorem modulus_neg_neg (x y : Float) : modulus ⟨-x, -y⟩ = modulus ⟨x, y⟩ := by
  simp only [modulus, float_neg_mul_neg]

theorem modulus_neg_real (x y : Float) : modulus ⟨-x, y⟩ = modulus ⟨x, y⟩ := by
  have hproduct : Opposite (-x * y + y * -x) (x * y + y * x) :=
    ((opposite_neg x).mul_left y).add ((opposite_neg x).mul_right y)
  simp only [modulus, float_neg_mul_neg]
  exact (opposite_zero.add hproduct).hypotenuse_eq _

theorem modulus_neg_imaginary (x y : Float) : modulus ⟨x, -y⟩ = modulus ⟨x, y⟩ := by
  rw [← modulus_neg_real x (-y), modulus_neg_neg]

theorem modulus_of_signs {x y x' y' : Float} (hx : x' = x ∨ x' = -x) (hy : y' = y ∨ y' = -y) :
    modulus ⟨x', y'⟩ = modulus ⟨x, y⟩ := by
  rcases hx with rfl | rfl
  · rcases hy with rfl | rfl
    · rfl
    · exact modulus_neg_imaginary x' y
  · rw [modulus_neg_real]
    rcases hy with rfl | rfl
    · rfl
    · exact modulus_neg_imaginary x y

/-- The modulus does not depend on the signs of the coordinates, nor does the relief over a mesh on those
of the samples: heights, low and high are the same. -/
theorem relief_of_signs :
    (∀ x y : Float, modulus ⟨-x, y⟩ = modulus ⟨x, y⟩ ∧ modulus ⟨x, -y⟩ = modulus ⟨x, y⟩ ∧
      modulus ⟨-x, -y⟩ = modulus ⟨x, y⟩) ∧
    ∀ (n : Nat) (real imaginary real' imaginary' : Vector Float n),
      (∀ j, real'.get j = real.get j ∨ real'.get j = -real.get j) →
      (∀ i, imaginary'.get i = imaginary.get i ∨ imaginary'.get i = -imaginary.get i) →
      Relief.ofMesh (.ofAxes real' imaginary') = Relief.ofMesh (.ofAxes real imaginary) := by
  refine ⟨fun x y => ⟨modulus_neg_real x y, modulus_neg_imaginary x y, modulus_neg_neg x y⟩, ?_⟩
  intro n real imaginary real' imaginary' hreal himaginary
  have hheights : (fun i j => modulus ⟨real'.get j, imaginary'.get i⟩) =
      fun i j => modulus ⟨real.get j, imaginary.get i⟩ :=
    funext₂ fun i j => modulus_of_signs (hreal j) (himaginary i)
  rw [Relief.ofMesh_eq, Relief.ofMesh_eq]
  exact congrArg (fun heights => Relief.ofHeights (.ofFn heights)) hheights

end Landscape
