import Landscape.Canvas
import Landscape.Double.Basic

namespace Landscape.Canvas

variable {width height : Nat}

/-- A slanted stroke, walked along its longer side: in a steep one the coordinates are exchanged. -/
structure Slant where
  steep : Bool
  start : Dot
  stop : Dot
  /-- The size of the canvas along the walk. -/
  along : Int
  /-- The size of the canvas across the walk. -/
  across : Int

namespace Slant

def ofDots (width height : Nat) (a b : Dot) : Slant :=
  let steep := decide ((a.x - b.x).natAbs < (a.y - b.y).natAbs)
  let turn (p : Dot) : Dot := if steep then ⟨p.y, p.x⟩ else p
  let (p, q) := (turn a, turn b)
  let (along, across) : Int × Int := if steep then (height, width) else (width, height)
  if q.x < p.x then ⟨steep, q, p, along, across⟩ else ⟨steep, p, q, along, across⟩

def slope (s : Slant) : Float :=
  Double.ofInt (s.stop.y - s.start.y) / Double.ofInt (s.stop.x - s.start.x)

def first (s : Slant) : Int :=
  let skipped := max (min s.start.y (s.across - 2)) 0 - s.start.y
  Double.toInt (Double.ceil (Double.ofInt skipped / s.slope).abs) + s.start.x

def last (s : Slant) : Int :=
  let room := max (min s.stop.y (s.across - 1)) 0 - s.start.y
  let steps := Double.toInt (Double.floor (Double.ofInt room / s.slope))
  min s.stop.x (min (s.along - 2) (s.start.x + steps - 1))

def dab (s : Slant) (x y : Int) (color : Color) (strength : Float) (c : Canvas width height) :
    Canvas width height :=
  c.dab (if s.steep then ⟨y, x⟩ else ⟨x, y⟩) color strength

/-- The ink of one step, shared between the two pixels around `y`. -/
def share (s : Slant) (x : Int) (y : Float) (ink : Ink) (c : Canvas width height) :
    Canvas width height :=
  let below := Double.floor y
  let row := Double.toInt y
  s.dab x (row + 1) ink.color (ink.strength * (y - below))
    (s.dab x row ink.color (ink.strength * (1.0 + below - y)) c)

def finish (s : Slant) (y : Float) (ink : Ink) (c : Canvas width height) : Canvas width height :=
  let limit := s.last
  let stop := Double.ofInt s.stop.y
  if limit < s.stop.x ∧ y < stop then
    let below := Double.floor y
    let row := Double.toInt y
    let x := limit + 1
    let c := if 1e-5 < 1.0 + below - y then
      s.dab x row ink.color (ink.strength * (1.0 + below - y)) c else c
    if 1e-5 < y - below ∧ y + 1.0 < stop then
      s.dab x (row + 1) ink.color (ink.strength * (y - below)) c else c
  else c

def walk (s : Slant) (slope : Float) (ink : Ink) (x : Int) (y : Float) (c : Canvas width height) :
    Nat → Canvas width height
  | 0 => s.finish y ink c
  | count + 1 => s.walk slope ink (x + 1) (y + slope) (s.share x y ink c) count

def draw (s : Slant) (ink : Ink) (c : Canvas width height) : Canvas width height :=
  let first := s.first
  let y := Double.ofInt s.start.y + Double.ofInt (first - s.start.x) * s.slope
  s.walk s.slope ink first y c (s.last + 1 - first).toNat

end Slant

/-- The rectangle of a stroke along an axis. Both ends belong to an upright stroke that covers; any
other stroke ends one pixel beyond `b`, also when it runs backwards. -/
def straight (c : Canvas width height) (a b : Dot) (ink : Ink) : Canvas width height :=
  if 1.0 ≤ ink.strength ∧ a.y ≠ b.y then
    c.fill ⟨a.x, min a.y b.y⟩ ⟨a.x + 1, max a.y b.y + 1⟩ ink
  else c.fill a ⟨b.x + 1, b.y + 1⟩ ink

def stroke (c : Canvas width height) (a b : Dot) (ink : Ink) : Canvas width height :=
  if ink.strength == 0.0 then c
  else if a.x = b.x ∨ a.y = b.y then c.straight a b ink
  else (Slant.ofDots width height a b).draw ink c

def strokes (c : Canvas width height) (ink : Ink) : List Dot → Canvas width height
  | a :: b :: rest => strokes (c.stroke a b ink) ink (b :: rest)
  | _ => c

end Landscape.Canvas
