import Landscape.Relief

namespace Landscape

structure Strip where
  start : Nat
  stop : Nat
  deriving DecidableEq, Repr

/-- The strips from line `i` on: each ends `stride` unit steps further, or at the last line if that
comes first. -/
def stripsFrom (cells stride i : Nat) : List Strip :=
  if 0 < stride ∧ i < cells then
    ⟨i, min (i + stride) cells⟩ :: stripsFrom cells stride (i + stride)
  else []
termination_by cells - i
decreasing_by omega

/-- The strips of `stride` unit steps that `cells` steps are cut into; the last may be narrower. -/
def strips (cells stride : Nat) : List Strip :=
  stripsFrom cells stride 0

structure Block where
  rows : Strip
  columns : Strip
  deriving DecidableEq, Repr

def blocks (size stride : Nat) : Except Fault (List Block) :=
  if size = 0 then .error (.overflow .difference)
  else if stride = 0 then .error .zeroStep
  else .ok ((strips (size - 1) stride).flatMap fun rows =>
    (strips (size - 1) stride).map fun columns => ⟨rows, columns⟩)

structure Vertex where
  real : Float
  height : Float
  imaginary : Float

def vertexAt (m : Mesh) (r : Relief) (i j : Nat) : Except Fault Vertex := do
  let z ← m.point i j
  return ⟨z.real, ← r.heightAt i j, z.imaginary⟩

structure Patch where
  first : Vertex
  second : Vertex
  third : Vertex
  fourth : Vertex

namespace Patch

def corners (p : Patch) : List Vertex :=
  [p.first, p.second, p.third, p.fourth]

/-- The mean height of the corners, summed from zero in their order. -/
def height (p : Patch) : Float :=
  (p.corners.foldl (fun sum v => sum + v.height) 0.0) / 4.0

def ofBlock (m : Mesh) (r : Relief) (b : Block) : Except Fault Patch := do
  return ⟨← vertexAt m r b.rows.start b.columns.start, ← vertexAt m r b.rows.start b.columns.stop,
    ← vertexAt m r b.rows.stop b.columns.stop, ← vertexAt m r b.rows.stop b.columns.start⟩

end Patch

def patches (m : Mesh) (r : Relief) (stride : Nat) : Except Fault (List Patch) := do
  (← blocks m.size stride).mapM (Patch.ofBlock m r)

end Landscape
