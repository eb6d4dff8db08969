import Landscape.Proofs.Double.Fourfold
import Landscape.Proofs.Double.Reals

namespace Landscape.Double
open Float.Model Float.Model.UnpackedFloat

variable {w x y z : Float} {a : ℝ}

def meanOfFour (w x y z : Float) : Float :=
  (0.0 + w + x + y + z) / 4.0

/-- A real number whose fourfold is finite in double arithmetic has an exact one. -/
theorem standsForReal_four_mul (hx : StandsForReal x a) (h : (4.0 * x).isFinite = true) :
    StandsForReal (4.0 * x) (4 * a) := by
  obtain ⟨c, hc⟩ := isFinite_iff.mp h
  have hnearest := (isRounded_mul_reals standsForReal_four hx).nearest_eq hc
  have hexact := StandsFor.nearest_two_pow_mul hx 2
  norm_num at hexact
  rwa [← hnearest, hexact] at hc

theorem isFinite_four_mul_of_le (hx : x.isFinite = true) (hnonneg : 0 ≤ value x) (hy : y.isFinite = true)
    (hle : x ≤ y) (h : (4.0 * y).isFinite = true) : (4.0 * x).isFinite = true := by
  obtain ⟨a, ha⟩ := isFinite_iff.mp hx
  obtain ⟨b, hb⟩ := isFinite_iff.mp hy
  rw [ha.value_eq, EReal.coe_nonneg] at hnonneg
  rw [ha.le_iff hb] at hle
  have hsize : |4 * a| ≤ |4 * b| := by
    rw [abs_of_nonneg (by linarith), abs_of_nonneg (by linarith)]
    linarith
  have hproduct := isRounded_mul_reals standsForReal_four ha
  exact isFinite_iff.mpr ⟨_, hproduct.standsForReal_of_abs_le (standsForReal_four_mul hb h) hsize⟩

theorem standsForReal_sum_of_equals (hx : StandsForReal x a) (h : (4.0 * x).isFinite = true) :
    StandsForReal (0.0 + x + x + x + x) (4 * a) := by
  have hfour := standsForReal_four_mul hx h
  have hsize {k : ℝ} (hk : 0 ≤ k) (hle : k ≤ 4) : |k * a| ≤ |4 * a| := by
    rw [abs_mul, abs_mul, abs_of_nonneg hk, abs_of_pos (by norm_num : (0 : ℝ) < 4)]
    gcongr
  have hone : StandsForReal (0.0 + x) a := by
    apply (isRounded_add_reals standsForReal_zero hx).standsForReal
    rw [zero_add, hx.rounded_eq]
  have htwo : StandsForReal (0.0 + x + x) (2 * a) := by
    have hsum := isRounded_add_reals hone hx
    rw [← two_mul] at hsum
    have hstands := hsum.standsForReal_of_abs_le hfour (hsize (by norm_num) (by norm_num))
    have hexact := StandsFor.nearest_two_pow_mul hx 1
    rw [pow_one] at hexact
    rwa [hexact] at hstands
  -- Three times the double is rounded, and what that loses comes back with the fourth.
  have hthree : StandsForReal (0.0 + x + x + x) (nearest .binary64 (3 * a)) := by
    have hsum := isRounded_add_reals htwo hx
    have htriple : 2 * a + a = 3 * a := by ring
    rw [htriple] at hsum
    exact hsum.standsForReal_of_abs_le hfour (hsize (by norm_num) (by norm_num))
  apply (isRounded_add_reals hthree hx).standsForReal
  have hkeep := hfour.rounded_eq
  rw [rounded_coe, StandsFor.nearest_eq hfour] at hkeep
  rw [rounded_coe, StandsFor.nearest_three_add hx, hkeep]

theorem standsForReal_mean_of_equals (hx : StandsForReal x a) (h : (4.0 * x).isFinite = true) :
    StandsForReal (meanOfFour x x x x) a := by
  have hsum := standsForReal_sum_of_equals hx h
  have hquotient := isRounded_div hsum.isNumber standsForReal_four (by norm_num)
  rw [hsum.value_eq, ← EReal.coe_div, mul_div_cancel_left₀ a (by norm_num)] at hquotient
  exact hquotient.standsForReal hx.rounded_eq

theorem mean_le_mean {w' x' y' z' : Float} (hw : w ≤ w') (hx : x ≤ x') (hy : y ≤ y') (hz : z ≤ z')
    (hreal : ∀ v ∈ [w, x, y, z], v.isFinite = true)
    (hreal' : ∀ v ∈ [w', x', y', z'], v.isFinite = true) :
    meanOfFour w x y z ≤ meanOfFour w' x' y' z' := by
  simp only [List.forall_mem_cons, isFinite_iff] at hreal hreal'
  obtain ⟨⟨b, hb⟩, ⟨c, hc⟩, ⟨d, hd⟩, ⟨e, he⟩, -⟩ := hreal
  obtain ⟨⟨b', hb'⟩, ⟨c', hc'⟩, ⟨d', hd'⟩, ⟨e', he'⟩, -⟩ := hreal'
  apply div_le_div_of_real ?_ standsForReal_four (by norm_num)
  apply add_le_add_of_reals ?_ he he' hz
  apply add_le_add_of_reals ?_ hd hd' hy
  apply add_le_add_of_reals ?_ hc hc' hx
  exact add_le_add_of_reals (by decide) hb hb' hw

section Bounds

variable {bound : Float} (hreal : ∀ v ∈ [w, x, y, z], v.isFinite = true)
  (hbound : bound.isFinite = true) (hfour : (4.0 * bound).isFinite = true)
include hreal hbound hfour

theorem mean_le (h : ∀ v ∈ [w, x, y, z], v ≤ bound) : meanOfFour w x y z ≤ bound := by
  obtain ⟨b, hb⟩ := isFinite_iff.mp hbound
  have hequals := standsForReal_mean_of_equals hb hfour
  simp only [List.forall_mem_cons] at h
  obtain ⟨hw, hx, hy, hz, -⟩ := h
  obtain ⟨hnumber, -, hle⟩ := le_iff.mp (mean_le_mean hw hx hy hz hreal (by simpa using hbound))
  rw [hequals.value_eq, ← hb.value_eq] at hle
  exact le_iff.mpr ⟨hnumber, hb.isNumber, hle⟩

theorem le_mean (h : ∀ v ∈ [w, x, y, z], bound ≤ v) : bound ≤ meanOfFour w x y z := by
  obtain ⟨b, hb⟩ := isFinite_iff.mp hbound
  have hequals := standsForReal_mean_of_equals hb hfour
  simp only [List.forall_mem_cons] at h
  obtain ⟨hw, hx, hy, hz, -⟩ := h
  obtain ⟨-, hnumber, hle⟩ := le_iff.mp (mean_le_mean hw hx hy hz (by simpa using hbound) hreal)
  rw [hequals.value_eq, ← hb.value_eq] at hle
  exact le_iff.mpr ⟨hb.isNumber, hnumber, hle⟩

end Bounds

end Landscape.Double
