import Landscape.Canvas.Stroke

namespace Landscape.Canvas

variable {width height : Nat}

/-- A side of a polygon, from its lower end along the sweep to its upper one. -/
structure Side where
  low : Int
  high : Int
  /-- The place across the sweep at the lower end. -/
  start : Int
  /-- The place across the sweep at the upper end. -/
  stop : Int

structure Crossing where
  passed : Int
  total : Int
  start : Int
  stop : Int

namespace Crossing

def left (c : Crossing) : Int :=
  c.total - c.passed

def atEnd (c : Crossing) : Bool :=
  c.left = 0

def place (c : Crossing) : Float :=
  Double.ofInt c.start + Double.ofInt ((c.stop - c.start) * c.passed) / Double.ofInt c.total

/-- A side at its lower end; a side that lies along the sweep line has no crossing. -/
def enter (s : Side) : Option Crossing :=
  if s.low = s.high then none else some ⟨0, s.high - s.low, s.start, s.stop⟩

def advance (c : Crossing) : Option Crossing :=
  if 0 < c.left then some { c with passed := c.passed + 1 } else none

/-- The crossings between which there is ink, two by two. A side that ends takes no partner that goes
on: the one that goes on waits for the next. -/
def pairs (waiting : Option Crossing) : List Crossing → List (Crossing × Crossing)
  | [] => []
  | b :: rest =>
    match waiting with
    | none => pairs (some b) rest
    | some a =>
      if a.atEnd && !b.atEnd then pairs (some b) rest
      else if !a.atEnd && b.atEnd then pairs (some a) rest
      else (a, b) :: pairs none rest

end Crossing

def sides (alongX : Bool) (corners : List Dot) : List Side :=
  let master (p : Dot) := if alongX then p.x else p.y
  let slave (p : Dot) := if alongX then p.y else p.x
  let side (p q : Dot) : Side :=
    if master q < master p then ⟨master q, master p, slave q, slave p⟩
    else ⟨master p, master q, slave p, slave q⟩
  (List.zipWith side corners (corners.tail ++ corners.take 1)).mergeSort fun a b => a.low ≤ b.low

def between (alongX : Bool) (sweep : Int) (ink : Ink) (c : Canvas width height)
    (pair : Crossing × Crossing) : Canvas width height :=
  let start := pair.1.place
  let stop := pair.2.place
  if pair.1.atEnd && pair.2.atEnd && decide (1.0 < stop - start) then c
  else
    let dot (z : Float) : Dot :=
      if alongX then ⟨sweep, Double.toInt z⟩ else ⟨Double.toInt z, sweep⟩
    let c := c.stroke (dot (Double.ceil start)) (dot (Double.floor stop)) ink
    let c := c.dab (dot (Double.floor start)) ink.color (ink.strength * (Double.ceil start - start))
    let part := if alongX then stop - Double.floor stop else Double.floor stop - stop
    c.dab (dot (Double.ceil stop)) ink.color (ink.strength * part)

def sweep (alongX : Bool) (ink : Ink) (now : Int) (coming : List Side) (passing : List Crossing)
    (c : Canvas width height) : Nat → Canvas width height
  | 0 => c
  | count + 1 =>
    let entered := (coming.takeWhile (·.low ≤ now)).filterMap Crossing.enter
    let crossings := (passing.filterMap Crossing.advance ++ entered).mergeSort fun a b =>
      a.place ≤ b.place
    let c := (Crossing.pairs none crossings).foldl (between alongX now ink) c
    sweep alongX ink (now + 1) (coming.dropWhile (·.low ≤ now)) crossings c count

def bounds (zs : List Int) : Int × Int :=
  match zs with
  | [] => (0, 0)
  | z :: rest => (rest.foldl min z, rest.foldl max z)

/-- A polygon filled with ink; one without breadth is a stroke. -/
def polygon (c : Canvas width height) (corners : List Dot) (ink : Ink) : Canvas width height :=
  let (left, right) := bounds (corners.map (·.x))
  let (top, bottom) := bounds (corners.map (·.y))
  if left = right ∨ top = bottom then c.stroke ⟨left, top⟩ ⟨right, bottom⟩ ink
  else
    let alongX := decide (bottom - top < right - left)
    let (low, high) := if alongX then (left, right) else (top, bottom)
    sweep alongX ink low (sides alongX corners) [] c (high + 1 - low).toNat

end Landscape.Canvas
