import Landscape.Proofs.Double.Means
import Landscape.Proofs.Relief.Levels
import Landscape.Proofs.Surface.Extents
import Landscape.Proofs.Surface.Seams

namespace Landscape
open Double

namespace Patch

variable {p : Patch}

theorem height_eq_mean (p : Patch) :
    p.height = meanOfFour p.first.height p.second.height p.third.height p.fourth.height :=
  rfl

theorem exists_extremes (h : ∀ v ∈ p.corners, v.height.isFinite = true) :
    ∃ bottom ∈ p.corners, ∃ top ∈ p.corners,
      ∀ v ∈ p.corners, bottom.height ≤ v.height ∧ v.height ≤ top.height := by
  have hfinite := List.finite_toSet p.corners
  have hnonempty : {v | v ∈ p.corners}.Nonempty := ⟨p.first, List.mem_cons_self⟩
  obtain ⟨bottom, hbottom, hleast⟩ :=
    Set.exists_min_image _ (fun v : Vertex => value v.height) hfinite hnonempty
  obtain ⟨top, htop, hgreatest⟩ :=
    Set.exists_max_image _ (fun v : Vertex => value v.height) hfinite hnonempty
  have hnumber {v : Vertex} (hv : v ∈ p.corners) : IsNumber v.height :=
    (standsForReal_of_isFinite (h v hv)).isNumber
  refine ⟨bottom, hbottom, top, htop, ?_⟩
  intro v hv
  exact ⟨le_iff.mpr ⟨hnumber hbottom, hnumber hv, hleast v hv⟩,
    le_iff.mpr ⟨hnumber hv, hnumber htop, hgreatest v hv⟩⟩

theorem forall_heights {P : Float → Prop} (h : ∀ v ∈ p.corners, P v.height) :
    ∀ x ∈ [p.first.height, p.second.height, p.third.height, p.fourth.height], P x := by
  simpa [corners] using h

/-- The height of a patch lies between the heights of its lowest and its highest corner. -/
theorem height_between {bottom top : Vertex} (hfinite : ∀ v ∈ p.corners, v.height.isFinite = true)
    (hbottom : bottom ∈ p.corners) (htop : top ∈ p.corners) (hnonneg : 0 ≤ value bottom.height)
    (hbounds : ∀ v ∈ p.corners, bottom.height ≤ v.height ∧ v.height ≤ top.height)
    (hfour : (4.0 * top.height).isFinite = true) :
    bottom.height ≤ p.height ∧ p.height ≤ top.height := by
  have hreal := forall_heights (P := fun x => x.isFinite = true) hfinite
  have hfour' : (4.0 * bottom.height).isFinite = true :=
    isFinite_four_mul_of_le (hfinite _ hbottom) hnonneg (hfinite _ htop) (hbounds _ hbottom).2 hfour
  rw [height_eq_mean]
  constructor
  · exact le_mean hreal (hfinite _ hbottom) hfour'
      (forall_heights (P := (bottom.height ≤ ·)) fun v hv => (hbounds v hv).1)
  · exact mean_le hreal (hfinite _ htop) hfour
      (forall_heights (P := (· ≤ top.height)) fun v hv => (hbounds v hv).2)

end Patch

/-- Over a mesh and a relief of one shape: a patch with finite corners of which the highest has a finite
fourfold is no lower than its lowest corner and no higher than its highest, and lies between low and high;
and where all heights are finite, high has a finite fourfold and the relief is not flat, the quotient of
every patch is a number from zero to one, and its level is this quotient. -/
theorem patches_between_corners (m source : Mesh) (stride : ℕ) (hshape : source.size = m.size)
    (hstride : 1 ≤ stride) :
    let r := Relief.ofMesh source
    (1 ≤ m.size → ∃ ps, patches m r stride = .ok ps) ∧
    ∀ ps, patches m r stride = .ok ps → ∀ p ∈ ps,
      ((∀ v ∈ p.corners, v.height.isFinite = true) →
        ∃ bottom ∈ p.corners, ∃ top ∈ p.corners,
          (∀ v ∈ p.corners, bottom.height ≤ v.height ∧ v.height ≤ top.height) ∧
          ((4.0 * top.height).isFinite = true →
            bottom.height ≤ p.height ∧ p.height ≤ top.height ∧
              r.low ≤ p.height ∧ p.height ≤ r.high)) ∧
      ((∀ i j height, r.heightAt i j = .ok height → height.isFinite = true) →
        (4.0 * r.high).isFinite = true → 0.0 < r.high - r.low →
        let quotient := (p.height - r.low) / (r.high - r.low)
        0.0 ≤ quotient ∧ quotient ≤ 1.0 ∧ r.level p.height = quotient) := by
  intro r
  constructor
  · intro hsize
    obtain ⟨ps, hps, -⟩ := exists_spanning_patches (r := r) hsize hshape hstride
    exact ⟨ps, hps⟩
  · intro ps hps p hp
    have hmem {v : Vertex} (hv : v ∈ p.corners) : v.height ∈ r.heights.entries :=
      height_mem_of_patches hshape hstride hps hp hv
    have hbetween (hfinite : ∀ v ∈ p.corners, v.height.isFinite = true) :
        ∃ bottom ∈ p.corners, ∃ top ∈ p.corners,
          (∀ v ∈ p.corners, bottom.height ≤ v.height ∧ v.height ≤ top.height) ∧
          ((4.0 * top.height).isFinite = true →
            bottom.height ≤ p.height ∧ p.height ≤ top.height ∧
              r.low ≤ p.height ∧ p.height ≤ r.high) := by
      obtain ⟨bottom, hbottom, top, htop, hbounds⟩ := Patch.exists_extremes hfinite
      refine ⟨bottom, hbottom, top, htop, hbounds, ?_⟩
      intro hfour
      obtain ⟨hlower, hupper⟩ := Patch.height_between hfinite hbottom htop
        (Relief.value_nonneg_of_mem (hmem hbottom)) hbounds hfour
      have hextremes {v : Vertex} (hv : v ∈ p.corners) : r.low ≤ v.height ∧ v.height ≤ r.high :=
        Relief.low_le_and_le_high (hmem hv) (standsForReal_of_isFinite (hfinite v hv)).isNumber
      exact ⟨hlower, hupper, trans_le (hextremes hbottom).1 hlower,
        trans_le hupper (hextremes htop).2⟩
    refine ⟨hbetween, ?_⟩
    intro hheights hfour hspan
    have hentries := Relief.isFinite_of_mem hheights
    have hfinite : ∀ v ∈ p.corners, v.height.isFinite = true := fun v hv => hentries _ (hmem hv)
    obtain ⟨bottom, hbottom, top, htop, hbounds, hmean⟩ := hbetween hfinite
    have hnumber : IsNumber top.height := (standsForReal_of_isFinite (hfinite top htop)).isNumber
    have hlow_mem : r.low ∈ r.heights.entries := Relief.low_mem (hmem htop) hnumber
    have hhigh_mem : r.high ∈ r.heights.entries := Relief.high_mem (hmem htop) hnumber
    have hfour' : (4.0 * top.height).isFinite = true :=
      isFinite_four_mul_of_le (hfinite top htop) (Relief.value_nonneg_of_mem (hmem htop))
        (hentries _ hhigh_mem) (Relief.low_le_and_le_high (hmem htop) hnumber).2 hfour
    obtain ⟨-, -, hlower, hupper⟩ := hmean hfour'
    obtain ⟨low, hlow⟩ := isFinite_iff.mp (hentries _ hlow_mem)
    obtain ⟨high, hhigh⟩ := isFinite_iff.mp (hentries _ hhigh_mem)
    have hnonneg := Relief.value_nonneg_of_mem hlow_mem
    rw [hlow.value_eq, EReal.coe_nonneg] at hnonneg
    exact Relief.level_of_between hlow hhigh hnonneg hspan hlower hupper

/-- The patch over two by two samples of a relief that is not flat. -/
theorem patches_between_corners_two_samples :
    let m := Mesh.ofSpans ⟨0.1, 0.3⟩ ⟨0.2, 0.7⟩ 2
    let r := Relief.ofMesh m
    (m.size = m.size ∧ 1 ≤ 1 ∧ 1 ≤ m.size ∧ (4.0 * r.high).isFinite = true ∧
      0.0 < r.high - r.low ∧ ∀ i j height, r.heightAt i j = .ok height → height.isFinite = true) ∧
    ∃ ps, patches m r 1 = .ok ps ∧ ps.length = 1 ∧ ∀ p ∈ ps,
      (∃ bottom ∈ p.corners, ∃ top ∈ p.corners, bottom.height ≤ p.height ∧ p.height ≤ top.height) ∧
      0.0 ≤ (p.height - r.low) / (r.high - r.low) ∧ (p.height - r.low) / (r.high - r.low) ≤ 1.0 ∧
      r.level p.height = (p.height - r.low) / (r.high - r.low) := by
  intro m r
  have hfour : (4.0 * r.high).isFinite = true := by decide +kernel
  have hspan : 0.0 < r.high - r.low := by decide +kernel
  have hsamples : ∀ i j : Fin 2, (modulus ⟨m.real.get j, m.imaginary.get i⟩).isFinite = true ∧
      (4.0 * modulus ⟨m.real.get j, m.imaginary.get i⟩).isFinite = true := by
    decide +kernel
  have hentries : ∀ x ∈ r.heights.entries, x.isFinite = true ∧ (4.0 * x).isFinite = true := by
    intro x hx
    obtain ⟨i, j, rfl⟩ := Relief.mem_entries_ofMesh.mp hx
    exact hsamples i j
  have hheights : ∀ i j height, r.heightAt i j = .ok height → height.isFinite = true :=
    fun i j height h => (hentries height (Relief.mem_of_heightAt h)).1
  obtain ⟨ps, hps, hlen, -⟩ := exists_patch_grid (by decide : 1 ≤ m.size) (rfl : r.size = m.size) le_rfl
  have hcount : (m.size - 1) ⌈/⌉ 1 = 1 := by decide
  rw [hcount] at hlen
  obtain ⟨-, hpatches⟩ := patches_between_corners m m 1 rfl le_rfl
  refine ⟨⟨rfl, le_rfl, by decide, hfour, hspan, hheights⟩, ps, hps, hlen, ?_⟩
  intro p hp
  obtain ⟨hcorners, hquotient⟩ := hpatches ps hps p hp
  have hmem {v : Vertex} (hv : v ∈ p.corners) : v.height ∈ r.heights.entries :=
    height_mem_of_patches rfl le_rfl hps hp hv
  obtain ⟨bottom, hbottom, top, htop, -, hmean⟩ := hcorners fun v hv => (hentries _ (hmem hv)).1
  obtain ⟨hlower, hupper, -⟩ := hmean (hentries _ (hmem htop)).2
  exact ⟨⟨bottom, hbottom, top, htop, hlower, hupper⟩, hquotient hheights hfour hspan⟩

end Landscape
