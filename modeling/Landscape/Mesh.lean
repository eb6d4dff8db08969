import Landscape.Double.Basic
import Landscape.Settings
import Landscape.Fault

namespace Landscape

structure Table (α : Type) (n : Nat) where
  rows : Vector (Vector α n) n

namespace Table

variable {α β γ : Type} {n : Nat}

def ofFn (f : Fin n → Fin n → α) : Table α n :=
  ⟨Vector.ofFn fun i => Vector.ofFn (f i)⟩

def get (t : Table α n) (i j : Fin n) : α :=
  (t.rows.get i).get j

def entry (t : Table α n) (i j : Nat) : Except Fault α :=
  if h : i < n ∧ j < n then .ok (t.get ⟨i, h.1⟩ ⟨j, h.2⟩) else .error (.beyondTable i j n)

def zipWith (f : α → β → γ) (s : Table α n) (t : Table β n) : Table γ n :=
  ofFn fun i j => f (s.get i j) (t.get i j)

end Table

def Span.step (s : Span) (n : Nat) : Float :=
  if 1 < n then (s.stop - s.start) / Double.ofCount (n - 1) else 0.0

/-- Sample `i` of `n`, both ends included. -/
def Span.sample (s : Span) (n i : Nat) : Float :=
  s.start + s.step n * Double.ofCount i

def Span.samples (s : Span) (n : Nat) : Vector Float n :=
  let step := s.step n
  Vector.ofFn fun i => s.start + step * Double.ofCount i

structure Point where
  real : Float
  imaginary : Float

/-- The sample points of a rectangle, by two axes of `size` samples each and two tables that hold the real
and the imaginary part of every point. Rows walk the imaginary axis and columns the real one. -/
structure Mesh where
  size : Nat
  real : Vector Float size
  imaginary : Vector Float size
  reals : Table Float size
  imaginaries : Table Float size
  reals_eq : reals = .ofFn fun _ j => real.get j
  imaginaries_eq : imaginaries = .ofFn fun i _ => imaginary.get i

namespace Mesh

def ofAxes {n : Nat} (real imaginary : Vector Float n) : Mesh :=
  ⟨n, real, imaginary, .ofFn fun _ j => real.get j, .ofFn fun i _ => imaginary.get i, rfl, rfl⟩

def ofSpans (real imaginary : Span) (n : Nat) : Mesh :=
  ofAxes (real.samples n) (imaginary.samples n)

def realAt (m : Mesh) (j : Nat) : Except Fault Float :=
  if h : j < m.size then .ok (m.real.get ⟨j, h⟩) else .error (.beyondAxis j m.size)

def imaginaryAt (m : Mesh) (i : Nat) : Except Fault Float :=
  if h : i < m.size then .ok (m.imaginary.get ⟨i, h⟩) else .error (.beyondAxis i m.size)

def point (m : Mesh) (i j : Nat) : Except Fault Point := do
  return ⟨← m.reals.entry i j, ← m.imaginaries.entry i j⟩

/-- The number of the last sample of an axis; without samples there is none. -/
def lastIndex (m : Mesh) : Except Fault Nat :=
  if m.size = 0 then .error (.overflow .difference) else .ok (m.size - 1)

def realExtent (m : Mesh) : Except Fault Span := do
  return ⟨← m.realAt 0, ← m.realAt (← m.lastIndex)⟩

def imaginaryExtent (m : Mesh) : Except Fault Span := do
  return ⟨← m.imaginaryAt 0, ← m.imaginaryAt (← m.lastIndex)⟩

end Mesh
end Landscape
