import Landscape.Proofs.Relief.Numbers

namespace Landscape.Relief
open Double

section Tables

variable {n : ℕ} {t : Table Float n} {height : Float}

theorem low_mem (hmem : height ∈ t.entries) (hnumber : IsNumber height) :
    (ofHeights t).low ∈ t.entries := by
  have hvalue : value infinity = ⊤ := value_of_infinity parts_infinity
  change foldTable lesser infinity t ∈ _
  rw [foldTable_eq]
  apply picks_lesser.foldl_mem_of_isNumber lesser_mem (isNumber_of_infinity parts_infinity) ?_ ?_ hmem
    hnumber
  · intro a ha
    rw [hvalue] at ha ⊢
    exact top_le_iff.mp ha
  · rw [hvalue]
    exact EReal.top_ne_zero

theorem high_mem (hmem : height ∈ t.entries) (hnumber : IsNumber height) :
    (ofHeights t).high ∈ t.entries := by
  have hvalue : value (-infinity) = ⊥ := by
    rw [value_neg, value_of_infinity parts_infinity]
    rfl
  change foldTable greater (-infinity) t ∈ _
  rw [foldTable_eq]
  apply picks_greater.foldl_mem_of_isNumber greater_mem
    (isNumber_neg.mpr (isNumber_of_infinity parts_infinity)) ?_ ?_ hmem hnumber
  · intro a ha
    rw [hvalue] at ha ⊢
    exact le_bot_iff.mp ha
  · rw [hvalue]
    exact EReal.bot_ne_zero

/-- Where no height is a number, low and high are where they started. -/
theorem extremes_of_no_number (h : ∀ height ∈ t.entries, ¬ IsNumber height) :
    (ofHeights t).low = infinity ∧ (ofHeights t).high = -infinity := by
  have hstart : IsNumber infinity := isNumber_of_infinity parts_infinity
  change foldTable lesser infinity t = _ ∧ foldTable greater (-infinity) t = _
  rw [foldTable_eq, foldTable_eq]
  constructor
  · have hnumber := (picks_lesser.foldl hstart t.entries).1
    rcases List.mem_cons.mp (foldl_mem lesser_mem infinity t.entries) with heq | hmem
    · exact heq
    · exact absurd hnumber (h _ hmem)
  · have hnumber := (picks_greater.foldl (isNumber_neg.mpr hstart) t.entries).1
    rcases List.mem_cons.mp (foldl_mem greater_mem (-infinity) t.entries) with heq | hmem
    · exact heq
    · exact absurd hnumber (h _ hmem)

/-- Without negative zeros the heights may be walked in any order. -/
theorem extremes_of_perm (hzero : ∀ x ∈ t.entries, StandsForReal x 0 → parts x = .zero .positive)
    {heights : List Float} (hperm : heights.Perm t.entries) :
    heights.foldl lesser infinity = (ofHeights t).low ∧
      heights.foldl greater (-infinity) = (ofHeights t).high := by
  have hstart : IsNumber infinity := isNumber_of_infinity parts_infinity
  have hinfinite {x : Float} {s} (hx : parts x = .infinity s) (y : Float) (hy : y ∈ x :: t.entries)
      (hreal : StandsForReal y 0) : parts y = .zero .positive := by
    rcases List.mem_cons.mp hy with rfl | hy
    · have hfinite := hreal.isFinite
      rw [hx] at hfinite
      cases hfinite
    · exact hzero y hy hreal
  change _ = foldTable lesser infinity t ∧ _ = foldTable greater (-infinity) t
  rw [foldTable_eq, foldTable_eq]
  constructor
  · exact picks_lesser.foldl_perm lesser_mem hstart (hinfinite parts_infinity) hperm
  · exact picks_greater.foldl_perm greater_mem (isNumber_neg.mpr hstart)
      (hinfinite (x := -infinity) (s := .negative) rfl) hperm

end Tables

variable {m : Mesh} {height : Float}

theorem value_nonneg_of_mem (h : height ∈ (ofMesh m).heights.entries) : 0 ≤ value height := by
  obtain ⟨i, j, rfl⟩ := mem_entries_ofMesh.mp h
  exact value_hypotenuse_nonneg _ _

theorem parts_of_zero_mem (h : height ∈ (ofMesh m).heights.entries) (hzero : StandsForReal height 0) :
    parts height = .zero .positive := by
  obtain ⟨i, j, rfl⟩ := mem_entries_ofMesh.mp h
  exact parts_hypotenuse_of_zero hzero

/-- Over every mesh: if any height is a number, low and high are such heights, every other one lies between
them, and none is negative; if none is, low is infinite and high minus infinity. So low does not exceed
high exactly if any height is a number, and no order in which the heights are walked changes either. -/
theorem extremes_of_heights (m : Mesh) :
    let r := ofMesh m
    let numbers := r.heights.entries.filter fun height => !height.isNaN
    (numbers ≠ [] → r.low ∈ numbers ∧ r.high ∈ numbers ∧
      (∀ height ∈ numbers, r.low ≤ height ∧ height ≤ r.high) ∧ 0.0 ≤ r.low) ∧
    (numbers = [] → r.low = infinity ∧ r.high = -infinity) ∧
    (r.low ≤ r.high ↔ numbers ≠ []) ∧
    ∀ heights : List Float, heights.Perm r.heights.entries →
      heights.foldl lesser infinity = r.low ∧ heights.foldl greater (-infinity) = r.high := by
  intro r numbers
  have hnumbers {height : Float} :
      height ∈ numbers ↔ height ∈ r.heights.entries ∧ IsNumber height := by
    rw [List.mem_filter, ← isNaN_eq_false_iff, Bool.not_eq_true']
  have hbounds {height : Float} (h : height ∈ numbers) : r.low ≤ height ∧ height ≤ r.high :=
    low_le_and_le_high (hnumbers.mp h).1 (hnumbers.mp h).2
  have hnone (h : numbers = []) : r.low = infinity ∧ r.high = -infinity := by
    apply extremes_of_no_number
    intro height hmem hnumber
    have hheight := hnumbers.mpr ⟨hmem, hnumber⟩
    rw [h] at hheight
    cases hheight
  refine ⟨?_, hnone, ?_, ?_⟩
  · intro hne
    obtain ⟨height, h⟩ := List.exists_mem_of_ne_nil numbers hne
    obtain ⟨hmem, hnumber⟩ := hnumbers.mp h
    obtain ⟨hlow, hhigh⟩ := hbounds h
    have hlow_number := (le_iff.mp hlow).1
    have hlow_mem : r.low ∈ r.heights.entries := low_mem hmem hnumber
    have hnonneg : 0.0 ≤ r.low := by
      refine le_iff.mpr ⟨standsForReal_zero.isNumber, hlow_number, ?_⟩
      rw [standsForReal_zero.value_eq]
      exact value_nonneg_of_mem hlow_mem
    exact ⟨hnumbers.mpr ⟨hlow_mem, hlow_number⟩,
      hnumbers.mpr ⟨high_mem hmem hnumber, (le_iff.mp hhigh).2.1⟩, fun _ h => hbounds h, hnonneg⟩
  · constructor
    · intro hle h
      rw [(hnone h).1, (hnone h).2] at hle
      exact absurd hle (by decide)
    · intro hne
      obtain ⟨height, h⟩ := List.exists_mem_of_ne_nil numbers hne
      obtain ⟨hlow, -, hlow'⟩ := le_iff.mp (hbounds h).1
      obtain ⟨-, hhigh, hhigh'⟩ := le_iff.mp (hbounds h).2
      exact le_iff.mpr ⟨hlow, hhigh, hlow'.trans hhigh'⟩
  · intro heights hperm
    exact extremes_of_perm (fun _ h => parts_of_zero_mem h) hperm

end Landscape.Relief
