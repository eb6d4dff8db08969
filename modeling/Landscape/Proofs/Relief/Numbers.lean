import Landscape.Chart
import Landscape.Proofs.Double.Extremes
import Landscape.Proofs.Relief.Lookups
import Landscape.Proofs.Relief.Modulus
import Landscape.Proofs.Settings.Check

namespace Landscape
open Double

namespace Table

variable {α : Type} {n : ℕ}

def entries (t : Table α n) : List α :=
  t.rows.toList.flatMap Vector.toList

theorem mem_entries_ofFn {f : Fin n → Fin n → α} {a : α} :
    a ∈ (ofFn f).entries ↔ ∃ i j, f i j = a := by
  simp [entries, ofFn]

end Table

namespace Relief

theorem mem_entries_ofMesh {m : Mesh} {height : Float} :
    height ∈ (ofMesh m).heights.entries ↔
      ∃ i j, modulus ⟨m.real.get j, m.imaginary.get i⟩ = height := by
  rw [ofMesh_eq]
  exact Table.mem_entries_ofFn

theorem heightAt_eq_modulus {m : Mesh} {i j : ℕ} (hi : i < m.size) (hj : j < m.size) :
    (ofMesh m).heightAt i j = .ok (modulus ⟨m.real.get ⟨j, hj⟩, m.imaginary.get ⟨i, hi⟩⟩) := by
  rw [heightAt_ofMesh]
  exact Table.entry_ofFn hi hj

theorem foldTable_eq {n : ℕ} (f : Float → Float → Float) (start : Float) (t : Table Float n) :
    foldTable f start t = t.entries.foldl f start := by
  simp [foldTable, Table.entries, List.foldl_flatMap]

/-- Every height that is a number lies between low and high. -/
theorem low_le_and_le_high {n : ℕ} {t : Table Float n} {height : Float} (hmem : height ∈ t.entries)
    (hnumber : IsNumber height) : (ofHeights t).low ≤ height ∧ height ≤ (ofHeights t).high := by
  have hstart : IsNumber infinity := isNumber_of_infinity parts_infinity
  have hstart' : IsNumber (-infinity) := isNumber_neg.mpr hstart
  obtain ⟨hlow, -, hle⟩ := picks_lesser.foldl hstart t.entries
  obtain ⟨hhigh, -, hge⟩ := picks_greater.foldl hstart' t.entries
  rw [← foldTable_eq] at hlow hle hhigh hge
  exact ⟨le_iff.mpr ⟨hlow, hnumber, hle _ hmem hnumber⟩,
    le_iff.mpr ⟨hnumber, hhigh, hge _ hmem hnumber⟩⟩

end Relief

theorem exists_box {m : Mesh} (h : 0 < m.size) (r : Relief) :
    Chart.box m r = .ok #v[⟨m.real.get ⟨0, h⟩, m.real.get ⟨m.size - 1, Nat.sub_one_lt h.ne'⟩⟩,
      ⟨r.low, r.high⟩,
      ⟨m.imaginary.get ⟨0, h⟩, m.imaginary.get ⟨m.size - 1, Nat.sub_one_lt h.ne'⟩⟩] := by
  have hlast := Nat.sub_one_lt h.ne'
  have hreal : m.realExtent = _ := Mesh.extent_eq_ok h (dif_pos h) (dif_pos hlast)
  have himaginary : m.imaginaryExtent = _ := Mesh.extent_eq_ok h (dif_pos h) (dif_pos hlast)
  rw [Chart.box, hreal, himaginary]
  rfl

/-- Of settings that are accepted: an axis has only numbers for samples exactly if its length is finite;
and if both are, every height is a number, the low does not exceed the high, and the chart has a box with
numbers for bounds. -/
theorem accepted_surface_isNumber (s : Settings) (hcheck : s.check = .ok ())
    (hsize : s.samples < UInt64.size) :
    let m := Mesh.ofSpans s.real s.imaginary s.samples
    let r := Relief.ofMesh m
    let realFinite := (s.real.stop - s.real.start).isFinite = true
    let imaginaryFinite := (s.imaginary.stop - s.imaginary.start).isFinite = true
    ((∀ j, (m.real.get j).isNaN = false) ↔ realFinite) ∧
    ((∀ i, (m.imaginary.get i).isNaN = false) ↔ imaginaryFinite) ∧
    (realFinite → imaginaryFinite →
      (∀ i < s.samples, ∀ j < s.samples, ∃ height, r.heightAt i j = .ok height ∧
        height.isNaN = false) ∧
      r.low ≤ r.high ∧
      ∃ box, Chart.box m r = .ok box ∧
        ∀ bounds ∈ box, bounds.start.isNaN = false ∧ bounds.stop.isNaN = false) := by
  intro m r realFinite imaginaryFinite
  obtain ⟨-, -, hsamples, -⟩ := Settings.check_eq_ok_iff.mp hcheck
  have hpos : 0 < m.size := by
    change 0 < s.samples
    omega
  simp only [isNaN_eq_false_iff]
  have hreal := Span.isNumber_samples_iff (s := s.real) hsamples hsize
  have himaginary := Span.isNumber_samples_iff (s := s.imaginary) hsamples hsize
  refine ⟨hreal, himaginary, ?_⟩
  intro h h'
  have hreal := hreal.mpr h
  have himaginary := himaginary.mpr h'
  have hfirst : modulus ⟨m.real.get ⟨0, hpos⟩, m.imaginary.get ⟨0, hpos⟩⟩ ∈ r.heights.entries :=
    Relief.mem_entries_ofMesh.mpr ⟨⟨0, hpos⟩, ⟨0, hpos⟩, rfl⟩
  obtain ⟨hlow, hhigh⟩ :=
    Relief.low_le_and_le_high hfirst (isNumber_modulus (hreal ⟨0, hpos⟩) (himaginary ⟨0, hpos⟩))
  obtain ⟨hlow, -, hlow'⟩ := le_iff.mp hlow
  obtain ⟨-, hhigh, hhigh'⟩ := le_iff.mp hhigh
  refine ⟨?_, le_iff.mpr ⟨hlow, hhigh, hlow'.trans hhigh'⟩, _, exists_box hpos r, ?_⟩
  · intro i hi j hj
    exact ⟨_, Relief.heightAt_eq_modulus hi hj, isNumber_modulus (hreal ⟨j, hj⟩) (himaginary ⟨i, hi⟩)⟩
  · intro bounds hmem
    simp only [Vector.mem_mk, List.mem_toArray, List.mem_cons, List.not_mem_nil, or_false] at hmem
    rcases hmem with rfl | rfl | rfl
    · exact ⟨hreal _, hreal _⟩
    · exact ⟨hlow, hhigh⟩
    · exact ⟨himaginary _, himaginary _⟩

/-- The default settings are accepted and both lengths are finite. -/
theorem accepted_surface_isNumber_default :
    let s : Settings := {}
    let m := Mesh.ofSpans s.real s.imaginary s.samples
    s.check = .ok () ∧ s.samples < UInt64.size ∧ (Relief.ofMesh m).low ≤ (Relief.ofMesh m).high := by
  intro s m
  have hcheck : s.check = .ok () := Settings.check_eq_ok_iff.mpr (by decide)
  have hsize : s.samples < UInt64.size := by decide
  obtain ⟨-, -, h⟩ := accepted_surface_isNumber s hcheck hsize
  exact ⟨hcheck, hsize, (h (by decide) (by decide)).2.1⟩

/-- Settings whose real axis is longer than the largest double are accepted, and the first sample of the
axis is no number. -/
theorem first_sample_not_a_number :
    let s : Settings := { real := ⟨-1e308, 1e308⟩ }
    let m := Mesh.ofSpans s.real s.imaginary s.samples
    s.check = .ok () ∧ ∃ x, m.realAt 0 = .ok x ∧ x.isNaN = true := by
  intro s m
  constructor
  · exact Settings.check_eq_ok_iff.mpr (by decide +kernel)
  · refine ⟨s.real.sample s.samples 0, ?_, by decide +kernel⟩
    rw [← Span.get_samples s.real (n := s.samples) ⟨0, by decide⟩]
    rfl

end Landscape
