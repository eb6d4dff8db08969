import Landscape.Proofs.Relief.Axes

namespace Landscape

/-- A look-up gives a value inside its bounds, and crashes outside. -/
structure Gives {α : Type} (result : Except Fault α) (inside : Prop) (value : α) (fault : Fault) :
    Prop where
  found : inside → result = .ok value
  missing : ¬ inside → result = .error fault

variable {α : Type}

theorem gives_dite {inside : Prop} [Decidable inside] {f : inside → α} {value : α} (fault : Fault)
    (h : ∀ hinside, f hinside = value) :
    Gives (if hinside : inside then .ok (f hinside) else .error fault) inside value fault where
  found hinside := by rw [dif_pos hinside, h]
  missing houtside := dif_neg houtside

namespace Table

variable {n : ℕ}

@[simp]
theorem get_ofFn (f : Fin n → Fin n → α) (i j : Fin n) : (ofFn f).get i j = f i j := by
  simp [get, ofFn, Vector.get_eq_getElem]

theorem entry_ofFn {f : Fin n → Fin n → α} {i j : ℕ} (hi : i < n) (hj : j < n) :
    (ofFn f).entry i j = .ok (f ⟨i, hi⟩ ⟨j, hj⟩) := by
  rw [entry, dif_pos ⟨hi, hj⟩, get_ofFn]

theorem gives_entry {t : Table α n} {g : ℕ → ℕ → α} (h : ∀ i j, t.get i j = g i j) (i j : ℕ) :
    Gives (t.entry i j) (i < n ∧ j < n) (g i j) (.beyondTable i j n) :=
  gives_dite _ fun _ => h _ _

end Table

namespace Mesh

@[simp]
theorem get_reals (m : Mesh) (i j : Fin m.size) : m.reals.get i j = m.real.get j := by
  rw [m.reals_eq, Table.get_ofFn]

@[simp]
theorem get_imaginaries (m : Mesh) (i j : Fin m.size) :
    m.imaginaries.get i j = m.imaginary.get i := by
  rw [m.imaginaries_eq, Table.get_ofFn]

/-- The tables of a mesh give each point the samples of both axes. -/
theorem point_eq (m : Mesh) (i j : ℕ) :
    m.point i j = if h : i < m.size ∧ j < m.size
      then .ok ⟨m.real.get ⟨j, h.2⟩, m.imaginary.get ⟨i, h.1⟩⟩
      else .error (.beyondTable i j m.size) := by
  rw [point, Table.entry, Table.entry]
  split
  · rw [get_reals, get_imaginaries]
    rfl
  · rfl

end Mesh

theorem Relief.ofMesh_eq (m : Mesh) :
    ofMesh m = ofHeights (.ofFn fun i j => modulus ⟨m.real.get j, m.imaginary.get i⟩) := by
  simp only [ofMesh, Table.zipWith, Mesh.get_reals, Mesh.get_imaginaries]

theorem Relief.heightAt_ofMesh (m : Mesh) : (ofMesh m).heightAt =
    (Table.ofFn fun i j => modulus ⟨m.real.get j, m.imaginary.get i⟩).entry := by
  rw [ofMesh_eq]
  rfl

namespace Mesh

variable {m : Mesh}

theorem extent_eq_ok {read : ℕ → Except Fault Float} {first last : Float} (hpos : 0 < m.size)
    (hfirst : read 0 = .ok first) (hlast : read (m.size - 1) = .ok last) :
    (do return Span.mk (← read 0) (← read (← m.lastIndex))) = .ok ⟨first, last⟩ := by
  have hindex : m.lastIndex = .ok (m.size - 1) := if_neg hpos.ne'
  rw [hfirst, hindex]
  show (do return Span.mk first (← read (m.size - 1))) = _
  rw [hlast]
  rfl

theorem gives_extent {read : ℕ → Except Fault Float} {sample : ℕ → Float}
    (h : ∀ k, Gives (read k) (k < m.size) (sample k) (.beyondAxis k m.size)) :
    Gives (do return Span.mk (← read 0) (← read (← m.lastIndex))) (0 < m.size)
      ⟨sample 0, sample (m.size - 1)⟩ (.beyondAxis 0 0) where
  found hpos := extent_eq_ok hpos ((h 0).found hpos) ((h _).found (Nat.sub_one_lt hpos.ne'))
  missing hempty := by
    -- The first sample is asked for before the last is counted.
    have hfirst := (h 0).missing hempty
    rw [Nat.eq_zero_of_not_pos hempty] at hfirst
    rw [hfirst]
    rfl

/-- Over the rectangle of two intervals of any doubles and with any number of samples: the coordinate
tables hold the samples of the real axis in every row and those of the imaginary axis in every column;
axes, points and heights give the same samples at the same indices and the modulus over them, and crash
exactly outside; and an extent goes from the first to the last sample, or crashes at the first. -/
theorem lookups_agree (real imaginary : Span) (n : ℕ) :
    let m := Mesh.ofSpans real imaginary n
    let r := Relief.ofMesh m
    let a := real.sample n
    let b := imaginary.sample n
    m.size = n ∧ r.size = n ∧
    (∀ i j, Gives (m.reals.entry i j) (i < n ∧ j < n) (a j) (.beyondTable i j n) ∧
      Gives (m.imaginaries.entry i j) (i < n ∧ j < n) (b i) (.beyondTable i j n) ∧
      Gives (m.point i j) (i < n ∧ j < n) ⟨a j, b i⟩ (.beyondTable i j n) ∧
      Gives (r.heightAt i j) (i < n ∧ j < n) (modulus ⟨a j, b i⟩) (.beyondTable i j n)) ∧
    (∀ k, Gives (m.realAt k) (k < n) (a k) (.beyondAxis k n) ∧
      Gives (m.imaginaryAt k) (k < n) (b k) (.beyondAxis k n)) ∧
    Gives m.realExtent (0 < n) ⟨a 0, a (n - 1)⟩ (.beyondAxis 0 0) ∧
    Gives m.imaginaryExtent (0 < n) ⟨b 0, b (n - 1)⟩ (.beyondAxis 0 0) := by
  intro m r a b
  have hreal (j : Fin n) : m.real.get j = a j := Span.get_samples real j
  have himaginary (i : Fin n) : m.imaginary.get i = b i := Span.get_samples imaginary i
  have hrealAt (k : ℕ) : Gives (m.realAt k) (k < n) (a k) (.beyondAxis k n) :=
    gives_dite _ fun hk => hreal ⟨k, hk⟩
  have himaginaryAt (k : ℕ) : Gives (m.imaginaryAt k) (k < n) (b k) (.beyondAxis k n) :=
    gives_dite _ fun hk => himaginary ⟨k, hk⟩
  refine ⟨rfl, rfl, ?_, fun k => ⟨hrealAt k, himaginaryAt k⟩, gives_extent hrealAt,
    gives_extent himaginaryAt⟩
  intro i j
  refine ⟨?_, ?_, ?_, ?_⟩
  · apply Table.gives_entry (g := fun _ j => a j)
    intro i j
    rw [get_reals, hreal j]
  · apply Table.gives_entry (g := fun i _ => b i)
    intro i j
    rw [get_imaginaries, himaginary i]
  · rw [point_eq]
    apply gives_dite
    rintro ⟨hi, hj⟩
    exact congrArg₂ Point.mk (hreal ⟨j, hj⟩) (himaginary ⟨i, hi⟩)
  · rw [Relief.heightAt_ofMesh]
    apply Table.gives_entry (g := fun i j => modulus ⟨a j, b i⟩)
    intro i j
    rw [Table.get_ofFn, hreal j, himaginary i]

end Mesh
end Landscape
