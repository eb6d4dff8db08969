import Landscape.Proofs.Double.Results

namespace Landscape.Double
open Float.Model Float.Model.UnpackedFloat

theorem parts_nan : parts Float.nan = .notANumber := rfl

theorem eq_of_parts {x y : Float} {u : UnpackedFloat} (hx : parts x = stored u) (hu : stored u = parts y) :
    x = y :=
  parts_inj.mp (hx.trans hu)

theorem sub_self_cases (u : UnpackedFloat) :
    UnpackedFloat.sub .binary64 u u = .zero .positive ∨
      UnpackedFloat.sub .binary64 u u = .notANumber := by
  rcases u with s | _ | s | ⟨s, m, e, hm⟩
  · right
    cases s <;> rfl
  · exact .inr rfl
  · left
    cases s <;> rfl
  · left
    simp only [UnpackedFloat.sub, sub_self]
    rfl

def selfQuotient : UnpackedFloat :=
  roundWithAccuracy .binary64 .positive (2 ^ 53) (-53) .exact

theorem div_self_cases (u : UnpackedFloat) :
    UnpackedFloat.div .binary64 u u = selfQuotient ∨ UnpackedFloat.div .binary64 u u = .notANumber := by
  rcases u with s | _ | s | ⟨s, m, e, hm⟩
  · exact .inr rfl
  · exact .inr rfl
  · exact .inr rfl
  · left
    have hsign : s / s = .positive := by cases s <;> rfl
    have htarget : min 0 (Format.binary64.targetExponent 0) = -53 := by decide
    simp only [UnpackedFloat.div, divCore, sub_self, hsign, htarget, Nat.shiftLeft_eq]
    -- The mantissa divides its own multiple, so the quotient is a power of two and exact.
    rw [Nat.mul_div_cancel_left _ hm, Nat.mul_mod_right, accuracyOfFraction, if_pos rfl]
    rfl

theorem zero_div_cases (s : Sign) (u : UnpackedFloat) :
    (∃ t, UnpackedFloat.div .binary64 (.zero s) u = .zero t) ∨
      UnpackedFloat.div .binary64 (.zero s) u = .notANumber := by
  rcases u with t | _ | t | ⟨t, m, e, hm⟩
  · exact .inl ⟨_, rfl⟩
  · exact .inr rfl
  · exact .inr rfl
  · exact .inl ⟨_, rfl⟩

theorem sub_self_eq (x : Float) : x - x = 0.0 ∨ x - x = Float.nan := by
  have hparts := parts_sub x x
  rcases sub_self_cases (parts x) with h | h
  · rw [h] at hparts
    exact .inl (eq_of_parts hparts rfl)
  · rw [h] at hparts
    exact .inr (eq_of_parts hparts rfl)

theorem div_self_eq (x : Float) : x / x = 1.0 ∨ x / x = Float.nan := by
  have hparts := parts_div x x
  rcases div_self_cases (parts x) with h | h
  · rw [h] at hparts
    exact .inl (eq_of_parts hparts rfl)
  · rw [h] at hparts
    exact .inr (eq_of_parts hparts rfl)

theorem zero_div_eq (x : Float) : 0.0 / x = 0.0 ∨ 0.0 / x = -0.0 ∨ 0.0 / x = Float.nan := by
  have hparts : parts (0.0 / x) = stored (UnpackedFloat.div .binary64 (.zero .positive) (parts x)) :=
    parts_div 0.0 x
  rcases zero_div_cases .positive (parts x) with ⟨t, h⟩ | h
  · rw [h] at hparts
    cases t
    · exact .inr (.inl (eq_of_parts hparts rfl))
    · exact .inl (eq_of_parts hparts rfl)
  · rw [h] at hparts
    exact .inr (.inr (eq_of_parts hparts rfl))

theorem nan_div (x : Float) : Float.nan / x = Float.nan := by
  have hparts : parts (Float.nan / x) = .notANumber :=
    not_not.mp fun h => isNumber_of_div h parts_nan
  exact parts_inj.mp (hparts.trans parts_nan.symm)

end Landscape.Double
