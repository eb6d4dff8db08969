import Landscape.Patch
import Landscape.Proofs.Relief.Extremes

namespace Landscape
open Double

variable {x y : Float} {a : ℝ}

theorem isNumber_foldl_add {α : Type} {f : α → Float} {l : List α} (hx : IsNumber x)
    (hl : ∀ v ∈ l, (f v).isFinite = true) : IsNumber (l.foldl (fun sum v => sum + f v) x) := by
  induction l generalizing x with
  | nil => exact hx
  | cons v l ih =>
    obtain ⟨b, hb⟩ := isFinite_iff.mp (hl v List.mem_cons_self)
    have hsum : IsNumber (x + f v) := by
      rw [isNumber_add_iff, hb.value_eq]
      exact ⟨hx, hb.isNumber, adds_coe b _⟩
    exact ih hsum fun w hw => hl w (List.mem_cons_of_mem v hw)

theorem Patch.isNumber_height {p : Patch} (h : ∀ v ∈ p.corners, v.height.isFinite = true) :
    IsNumber p.height := by
  have hsum := isNumber_foldl_add (f := Vertex.height) standsForReal_zero.isNumber h
  exact (isRounded_div hsum standsForReal_four (by norm_num)).isNumber

theorem clamp_eq_self (hzero : 0.0 ≤ x) (hone : x ≤ 1.0) : clamp x 0.0 1.0 = x := by
  have hlow : ¬ x < 0.0 := fun h => (le_iff.mp hzero).2.2.not_gt (lt_iff.mp h).2.2
  have hhigh : ¬ 1.0 < x := fun h => (le_iff.mp hone).2.2.not_gt (lt_iff.mp h).2.2
  rw [clamp, if_neg hlow, if_neg hhigh]

theorem clamp_mem (hx : IsNumber x) :
    0.0 ≤ clamp x 0.0 1.0 ∧ clamp x 0.0 1.0 ≤ 1.0 := by
  have hzero : (0.0 : Float) ≤ 0.0 ∧ (0.0 : Float) ≤ 1.0 := by decide
  have hone : (0.0 : Float) ≤ 1.0 ∧ (1.0 : Float) ≤ 1.0 := by decide
  have hreal := standsForReal_zero
  have hreal' := standsForReal_one
  unfold clamp
  split_ifs with hlow hhigh
  · exact hzero
  · exact hone
  · rw [lt_iff] at hlow hhigh
    constructor
    · exact le_iff.mpr ⟨hreal.isNumber, hx, not_lt.mp fun h => hlow ⟨hx, hreal.isNumber, h⟩⟩
    · exact le_iff.mpr ⟨hx, hreal'.isNumber, not_lt.mp fun h => hhigh ⟨hreal'.isNumber, hx, h⟩⟩

namespace Relief

variable {m : Mesh}

/-- From low to high it is no further than from zero, so the distance is real if it is not zero. -/
theorem standsForReal_span {r : Relief} {low high : ℝ} (hlow : StandsForReal r.low low)
    (hhigh : StandsForReal r.high high) (hnonneg : 0 ≤ low) (hspan : 0.0 < r.high - r.low) :
    ∃ s, StandsForReal (r.high - r.low) s ∧ 0 < s := by
  obtain ⟨-, hnumber, hpos⟩ := lt_iff.mp hspan
  rw [standsForReal_zero.value_eq] at hpos
  have hupper : value (r.high - r.low) ≤ high := by
    have hkeep := rounded_value r.high
    rw [hhigh.value_eq] at hkeep
    rw [(isRounded_sub_real hhigh.isNumber hlow).value_eq, hhigh.value_eq, ← EReal.coe_sub, ← hkeep]
    apply rounded_mono
    exact EReal.coe_le_coe_iff.mpr (by linarith)
  obtain ⟨s, hs⟩ := standsForReal_of_between hnumber hpos.le hupper
  refine ⟨s, hs, ?_⟩
  rw [hs.value_eq] at hpos
  exact EReal.coe_lt_coe_iff.mp hpos

/-- Between a real low and a real high the level of a height is the rounded quotient. -/
theorem level_of_between {r : Relief} {low high : ℝ} {height : Float} (hlow : StandsForReal r.low low)
    (hhigh : StandsForReal r.high high) (hnonneg : 0 ≤ low) (hspan : 0.0 < r.high - r.low)
    (hlower : r.low ≤ height) (hupper : height ≤ r.high) :
    let quotient := (height - r.low) / (r.high - r.low)
    0.0 ≤ quotient ∧ quotient ≤ 1.0 ∧ r.level height = quotient := by
  intro quotient
  obtain ⟨s, hs, hpos⟩ := standsForReal_span hlow hhigh hnonneg hspan
  have hdifference := isRounded_sub_real (le_iff.mp hlower).2.1 hlow
  have hnonneg' : ((0 : ℝ) : EReal) ≤ value (height - r.low) := by
    rw [hdifference.value_eq]
    apply rounded_nonneg
    rw [EReal.sub_nonneg (.inr (EReal.coe_ne_top low)) (.inr (EReal.coe_ne_bot low)), ← hlow.value_eq]
    exact (le_iff.mp hlower).2.2
  have hle : height - r.low ≤ r.high - r.low := sub_le_sub_of_real hupper hlow
  obtain ⟨d, hd⟩ := standsForReal_of_between hdifference.isNumber hnonneg'
    (hs.value_eq ▸ (le_iff.mp hle).2.2)
  rw [hd.value_eq, EReal.coe_le_coe_iff] at hnonneg'
  rw [hd.le_iff hs] at hle
  have hquotient := isRounded_div hd.isNumber hs hpos.ne'
  rw [hd.value_eq, ← EReal.coe_div] at hquotient
  have hzero : 0.0 ≤ quotient := by
    refine le_iff.mpr ⟨standsForReal_zero.isNumber, hquotient.isNumber, ?_⟩
    rw [hquotient.value_eq, standsForReal_zero.value_eq]
    exact rounded_nonneg (EReal.coe_nonneg.mpr (div_nonneg hnonneg' hpos.le))
  have hone : quotient ≤ 1.0 := by
    refine le_iff.mpr ⟨hquotient.isNumber, standsForReal_one.isNumber, ?_⟩
    rw [hquotient.value_eq, standsForReal_one.value_eq, ← standsForReal_one.rounded_eq]
    exact rounded_mono (EReal.coe_le_coe_iff.mpr (div_le_one_of_le₀ hle hpos.le))
  exact ⟨hzero, hone, (if_pos hspan).trans (clamp_eq_self hzero hone)⟩

theorem level_mem {height : Float} (hfinite : ∀ x ∈ (ofMesh m).heights.entries, x.isFinite = true)
    (hmem : x ∈ (ofMesh m).heights.entries) (hheight : IsNumber height) :
    0.0 ≤ (ofMesh m).level height ∧ (ofMesh m).level height ≤ 1.0 := by
  obtain ⟨a, ha⟩ := isFinite_iff.mp (hfinite _ hmem)
  have hlow_mem : (ofMesh m).low ∈ (ofMesh m).heights.entries := low_mem hmem ha.isNumber
  have hhigh_mem : (ofMesh m).high ∈ (ofMesh m).heights.entries := high_mem hmem ha.isNumber
  obtain ⟨low, hlow⟩ := isFinite_iff.mp (hfinite _ hlow_mem)
  obtain ⟨high, hhigh⟩ := isFinite_iff.mp (hfinite _ hhigh_mem)
  have hnonneg : 0 ≤ low := by
    have h := value_nonneg_of_mem hlow_mem
    rw [hlow.value_eq] at h
    exact EReal.coe_nonneg.mp h
  unfold level
  dsimp only
  split_ifs with hspan
  · obtain ⟨s, hs, hpos⟩ := standsForReal_span hlow hhigh hnonneg hspan
    have hdifference := isRounded_sub_real hheight hlow
    exact clamp_mem (isRounded_div hdifference.isNumber hs hpos.ne').isNumber
  · decide

end Relief
end Landscape
