import Landscape.Proofs.Relief.Numbers
import Landscape.Proofs.Relief.Walks
import Landscape.Proofs.Surface.Tiling

namespace Landscape
open Double

variable {m : Mesh} {r : Relief}

/-- There are patches over every mesh that has samples, each over some block. -/
theorem exists_spanning_patches (hsize : 1 ≤ m.size) (hshape : r.size = m.size) {stride : ℕ}
    (hstride : 1 ≤ stride) :
    ∃ ps, patches m r stride = .ok ps ∧ ∀ p ∈ ps, ∃ b, p.Spans m r b := by
  obtain ⟨bs, hbs, htiles⟩ := blocks_tile hsize hstride
  obtain ⟨ps, hps, hspans⟩ := exists_patches hshape hbs htiles.within (by omega)
  refine ⟨ps, hps, ?_⟩
  intro p hp
  obtain ⟨k, hk, rfl⟩ := List.mem_iff_getElem.mp hp
  exact ⟨_, hspans.get (hspans.length_eq ▸ hk) hk⟩

theorem Patch.Spans.liesAt {p : Patch} {b : Block} {v : Vertex} (h : p.Spans m r b)
    (hv : v ∈ p.corners) : ∃ i j, v.LiesAt m r i j := by
  simp only [corners, List.mem_cons, List.not_mem_nil, or_false] at hv
  rcases hv with rfl | rfl | rfl | rfl
  · exact ⟨_, _, h.first⟩
  · exact ⟨_, _, h.second⟩
  · exact ⟨_, _, h.third⟩
  · exact ⟨_, _, h.fourth⟩

theorem Vertex.LiesAt.real_eq {v : Vertex} {i j : ℕ} (h : v.LiesAt m r i j) :
    ∃ k, v.real = m.real.get k := by
  obtain ⟨hj, heq⟩ := Vector.getElem?_eq_some_iff.mp h.1
  exact ⟨⟨j, hj⟩, heq.symm⟩

theorem Vertex.LiesAt.imaginary_eq {v : Vertex} {i j : ℕ} (h : v.LiesAt m r i j) :
    ∃ k, v.imaginary = m.imaginary.get k := by
  obtain ⟨hi, heq⟩ := Vector.getElem?_eq_some_iff.mp h.2.2
  exact ⟨⟨i, hi⟩, heq.symm⟩

theorem Vertex.LiesAt.height_mem {v : Vertex} {i j : ℕ} (h : v.LiesAt m r i j) :
    v.height ∈ r.heights.entries := by
  obtain ⟨row, hrow, hheight⟩ := Option.bind_eq_some_iff.mp h.2.1
  obtain ⟨hi, rfl⟩ := Vector.getElem?_eq_some_iff.mp hrow
  obtain ⟨hj, heq⟩ := Vector.getElem?_eq_some_iff.mp hheight
  rw [Table.entries, List.mem_flatMap, ← heq]
  exact ⟨_, Vector.mem_toList_iff.mpr (Vector.getElem_mem hi),
    Vector.mem_toList_iff.mpr (Vector.getElem_mem hj)⟩

theorem one_le_size_of_patches {stride : ℕ} {ps : List Patch} (h : patches m r stride = .ok ps) :
    1 ≤ m.size := by
  by_contra hempty
  have hblocks : blocks m.size stride = .error (.overflow .difference) := if_pos (by omega)
  rw [patches, hblocks] at h
  cases h

theorem height_mem_of_patches (hshape : r.size = m.size) {stride : ℕ} (hstride : 1 ≤ stride)
    {ps : List Patch} (h : patches m r stride = .ok ps) {p : Patch} (hp : p ∈ ps) {v : Vertex}
    (hv : v ∈ p.corners) : v.height ∈ r.heights.entries := by
  obtain ⟨ps', hps', hspans⟩ := exists_spanning_patches (one_le_size_of_patches h) hshape hstride
  obtain rfl : ps' = ps := Except.ok.inj (hps'.symm.trans h)
  obtain ⟨b, hb⟩ := hspans p hp
  obtain ⟨i, j, hlies⟩ := hb.liesAt hv
  exact hlies.height_mem

theorem Relief.mem_of_heightAt {i j : ℕ} {height : Float} (h : r.heightAt i j = .ok height) :
    height ∈ r.heights.entries := by
  rw [heightAt, Table.entry] at h
  split_ifs at h
  cases h
  rw [Table.entries, List.mem_flatMap]
  exact ⟨_, Vector.mem_toList_iff.mpr (Vector.getElem_mem _),
    Vector.mem_toList_iff.mpr (Vector.getElem_mem _)⟩

/-- The heights that can be looked up are all there are. -/
theorem Relief.isFinite_of_mem (h : ∀ i j height, (ofMesh m).heightAt i j = .ok height →
    height.isFinite = true) : ∀ x ∈ (ofMesh m).heights.entries, x.isFinite = true := by
  intro x hx
  obtain ⟨i, j, rfl⟩ := mem_entries_ofMesh.mp hx
  exact h i j _ (heightAt_eq_modulus i.isLt j.isLt)

/-- Over axes of finite length, constant ones and such as run downwards included: the samples walk the
axes, and the box of the chart, from the first to the last sample of either axis and from low to high,
holds every corner of every patch. -/
theorem box_holds_surface (real imaginary : Span) (n : ℕ) (hn : 1 ≤ n) (hsize : n < UInt64.size)
    (hreal : (real.stop - real.start).isFinite = true)
    (himaginary : (imaginary.stop - imaginary.start).isFinite = true) :
    let m := Mesh.ofSpans real imaginary n
    let r := Relief.ofMesh m
    real.Walks m.real ∧ imaginary.Walks m.imaginary ∧
    ∃ across along, m.realExtent = .ok across ∧ m.imaginaryExtent = .ok along ∧
      Chart.box m r = .ok #v[across, ⟨r.low, r.high⟩, along] ∧
      ∀ stride, 1 ≤ stride → ∃ ps, patches m r stride = .ok ps ∧
        ∀ p ∈ ps, ∀ v ∈ p.corners, across.Between v.real ∧ along.Between v.imaginary ∧
          r.low ≤ v.height ∧ v.height ≤ r.high := by
  intro m r
  have hwalks : real.Walks m.real := Span.walks_samples hreal hsize
  have hwalks' : imaginary.Walks m.imaginary := Span.walks_samples himaginary hsize
  have hpos : 0 < m.size := hn
  have hlast : m.size - 1 < m.size := Nat.sub_one_lt hpos.ne'
  refine ⟨hwalks, hwalks', _, _, Mesh.extent_eq_ok hpos (dif_pos hpos) (dif_pos hlast),
    Mesh.extent_eq_ok hpos (dif_pos hpos) (dif_pos hlast), exists_box hpos r, ?_⟩
  intro stride hstride
  obtain ⟨ps, hps, hspans⟩ := exists_spanning_patches (r := r) hn rfl hstride
  refine ⟨ps, hps, ?_⟩
  intro p hp v hv
  obtain ⟨b, hb⟩ := hspans p hp
  obtain ⟨i, j, hlies⟩ := hb.liesAt hv
  obtain ⟨k, hk⟩ := hlies.real_eq
  obtain ⟨k', hk'⟩ := hlies.imaginary_eq
  obtain ⟨row, column, hheight⟩ := Relief.mem_entries_ofMesh.mp hlies.height_mem
  have hnumber : IsNumber v.height := by
    rw [← hheight]
    exact isNumber_modulus (isNaN_eq_false_iff.mp (hwalks.isNumber column))
      (isNaN_eq_false_iff.mp (hwalks'.isNumber row))
  rw [hk, hk']
  exact ⟨hwalks.between hreal k, hwalks'.between himaginary k',
    Relief.low_le_and_le_high hlies.height_mem hnumber⟩

/-- An axis that runs downwards and a constant one, with three samples each. -/
theorem box_holds_surface_downwards :
    let real : Span := ⟨1.0, -0.5⟩
    let imaginary : Span := ⟨0.1, 0.1⟩
    let m := Mesh.ofSpans real imaginary 3
    let r := Relief.ofMesh m
    (1 ≤ 3 ∧ 3 < UInt64.size ∧ (real.stop - real.start).isFinite = true ∧
      (imaginary.stop - imaginary.start).isFinite = true) ∧
      real.Walks m.real ∧ ∃ ps, patches m r 2 = .ok ps ∧
        ∀ p ∈ ps, ∀ v ∈ p.corners, r.low ≤ v.height ∧ v.height ≤ r.high := by
  intro real imaginary m r
  have hreal : (real.stop - real.start).isFinite = true := by decide
  have himaginary : (imaginary.stop - imaginary.start).isFinite = true := by decide
  obtain ⟨hwalks, -, across, along, -, -, -, hsurface⟩ :=
    box_holds_surface real imaginary 3 (by decide) (by decide) hreal himaginary
  obtain ⟨ps, hps, hcorners⟩ := hsurface 2 (by decide)
  refine ⟨⟨by decide, by decide, hreal, himaginary⟩, hwalks, ps, hps, ?_⟩
  intro p hp v hv
  exact (hcorners p hp v hv).2.2

end Landscape
