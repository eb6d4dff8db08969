import Landscape.Proofs.Double.Words
import Landscape.Settings

namespace Landscape
open Double

/-- The number of pixels that belong to a product of size and resolution: none where there is no number or
less than half a pixel, as many as a word can hold from one half below that number on, and otherwise the one
whole number that is no further away than one half, with the upper of two. -/
structure CountsPixels (product : Float) (n : ℕ) : Prop where
  none : product.isNaN = true ∨ value product < ((1 / 2 : ℝ) : EReal) → n = 0
  most : ((2 ^ 32 - 3 / 2 : ℝ) : EReal) ≤ value product → n = 2 ^ 32 - 1
  nearest : ((1 / 2 : ℝ) : EReal) ≤ value product →
    value product < ((2 ^ 32 - 3 / 2 : ℝ) : EReal) →
    ∀ k : ℤ, k = n ↔
      ((k - 1 / 2 : ℝ) : EReal) ≤ value product ∧ value product < ((k + 1 / 2 : ℝ) : EReal)

theorem countsPixels_nearestWord (product : Float) :
    CountsPixels product (nearestWord product).toNat := by
  rw [toNat_nearestWord]
  constructor
  · intro h
    rw [wholeWord_eq_zero_iff]
    rcases h with hnan | hsmall
    · -- What is no number counts as zero.
      have hparts : ¬ IsNumber product := by
        rw [← isNaN_eq_false_iff, hnan]
        decide
      rw [value_of_notANumber (not_not.mp hparts), ← EReal.coe_zero, EReal.coe_lt_coe_iff]
      norm_num
    · exact hsmall
  · exact fun h => wholeWord_of_le h
  · exact fun hlow hhigh k => eq_wholeWord_iff hlow hhigh k

/-- Of two sizes at one resolution the larger has no fewer pixels, as long as both have a product. -/
theorem nearestWord_mul_mono {size size' dpi : Float} (hsize : size ≤ size') (hdpi : 0.0 ≤ dpi)
    (hproduct : (size * dpi).isNaN = false) (hproduct' : (size' * dpi).isNaN = false) :
    nearestWord (size * dpi) ≤ nearestWord (size' * dpi) := by
  rw [isNaN_eq_false_iff] at hproduct hproduct'
  exact nearestWord_le_nearestWord (mul_le_mul_of_nonneg hsize hdpi hproduct hproduct')

namespace Settings

/-- The pixels of all settings, accepted or not, and of two that share their resolution. -/
theorem pixels_nearest_to_products (s t : Settings) :
    (CountsPixels (s.width * s.dpi) s.pixelWidth.toNat ∧
      CountsPixels (s.height * s.dpi) s.pixelHeight.toNat) ∧
    (s.dpi = t.dpi →
      (s.width = t.width → s.pixelWidth = t.pixelWidth) ∧
      (s.height = t.height → s.pixelHeight = t.pixelHeight)) ∧
    (s.dpi = t.dpi → 0.0 ≤ s.dpi →
      (s.width ≤ t.width → (s.width * s.dpi).isNaN = false → (t.width * t.dpi).isNaN = false →
        s.pixelWidth ≤ t.pixelWidth) ∧
      (s.height ≤ t.height → (s.height * s.dpi).isNaN = false → (t.height * t.dpi).isNaN = false →
        s.pixelHeight ≤ t.pixelHeight)) := by
  refine ⟨⟨countsPixels_nearestWord _, countsPixels_nearestWord _⟩, ?_, ?_⟩
  · intro hdpi
    constructor
    · intro hwidth
      rw [pixelWidth, pixelWidth, hwidth, hdpi]
    · intro hheight
      rw [pixelHeight, pixelHeight, hheight, hdpi]
  · intro hdpi hnonneg
    rw [← hdpi]
    constructor
    · intro hle hproduct hproduct'
      rw [pixelWidth, pixelWidth, ← hdpi]
      exact nearestWord_mul_mono hle hnonneg hproduct hproduct'
    · intro hle hproduct hproduct'
      rw [pixelHeight, pixelHeight, ← hdpi]
      exact nearestWord_mul_mono hle hnonneg hproduct hproduct'

/-- The largest double below one half, to which adding one half would give one. -/
example : ({ width := 0.49999999999999994, dpi := 1.0 } : Settings).pixelWidth = 0 := by
  decide

end Settings
end Landscape
