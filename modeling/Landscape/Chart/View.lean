import Landscape.Canvas
import Landscape.Double.Basic
import Landscape.Settings
import Landscape.Fault

namespace Landscape

/-- An angle, by the doubles nearest to its sine and its cosine. -/
structure Angle where
  sine : Float
  cosine : Float

namespace Angle

def zero : Angle := ⟨0.0, 1.0⟩

/-- Half a turn, in radians the double nearest to π, which falls short of π: its sine is not quite zero. -/
def half : Angle := ⟨1.2246467991473532e-16, -1.0⟩

end Angle

structure Matrix where
  rows : Vector (Vector Float 4) 4

namespace Matrix

def entry (m : Matrix) (r c : Fin 4) : Float :=
  (m.rows.get r).get c

def ofFn (f : Fin 4 → Fin 4 → Float) : Matrix :=
  ⟨Vector.ofFn fun r => Vector.ofFn (f r)⟩

/-- First `a`, then `b`, with the last entry brought to one. -/
def andThen (a b : Matrix) : Matrix :=
  let product := ofFn fun r c =>
    ([0, 1, 2, 3] : List (Fin 4)).foldl (fun sum k => sum + b.entry r k * a.entry k c) 0.0
  let last := product.entry 3 3
  if 1e-20 < last then ofFn fun r c => product.entry r c / last else product

def shift (x y z : Float) : Matrix :=
  ⟨#v[#v[1.0, 0.0, 0.0, x], #v[0.0, 1.0, 0.0, y], #v[0.0, 0.0, 1.0, z], #v[0.0, 0.0, 0.0, 1.0]]⟩

/-- Turning about the first axis by `c`, the second by `b` and the third by `a`. -/
def rotate (c b a : Angle) : Matrix :=
  let ⟨sa, ca⟩ := a
  let ⟨sb, cb⟩ := b
  let ⟨sc, cc⟩ := c
  ⟨#v[#v[ca * cb, ca * sb * sc - sa * cc, ca * sb * cc + sa * sc, 0.0],
    #v[sa * cb, sa * sb * sc + ca * cc, sa * sb * cc - ca * sc, 0.0],
    #v[-sb, cb * sc, cb * cc, 0.0],
    #v[0.0, 0.0, 0.0, 1.0]]⟩

def scale (factor : Float) : Matrix :=
  ⟨#v[#v[1.0, 0.0, 0.0, 0.0], #v[0.0, 1.0, 0.0, 0.0], #v[0.0, 0.0, 1.0, 0.0],
    #v[0.0, 0.0, 0.0, 1.0 / factor]]⟩

def coordinate (m : Matrix) (r : Fin 4) (p : Vector Float 3) : Int :=
  Double.toInt (m.entry r 0 * p.get 0 + m.entry r 1 * p.get 1 + m.entry r 2 * p.get 2 + m.entry r 3)

end Matrix

def nextAxis (i : Fin 3) : Fin 3 :=
  i + 1

/-- The part of the canvas that the chart may use; `right` and `bottom` are places still used. -/
structure Area where
  left : Int
  top : Int
  right : Int
  bottom : Int

namespace Area

def margin : Int := 20

/-- The area of a canvas inside the margin. Its ends and its width have to fit their words. -/
def inside (width height : UInt32) : Except Fault Area := do
  let right ← Word.difference (Word.signed width) margin
  let bottom ← Word.difference (Word.signed height) margin
  let _ ← Word.difference right margin
  return ⟨margin, margin, right, bottom⟩

def captionPadding (height : UInt32) : Int :=
  min (height.toNat / 2) 5

def captionPlace (a : Area) (height : UInt32) : Dot :=
  ⟨a.left + (a.right - a.left).tdiv 2, a.top + captionPadding height⟩

def below (a : Area) (height : UInt32) : Except Fault Area := do
  let top ← Word.sum (a.top + captionPadding height * 2) (Word.signed height)
  return { a with top }

def cube (a : Area) : Except Fault Int := do
  let across ← Word.difference a.right a.left
  let down ← Word.difference a.bottom a.top
  return (← Word.product (min across down) 4).tdiv 5

def centre (a : Area) : Except Fault Dot := do
  let across ← Word.sum a.right a.left
  let down ← Word.sum a.bottom a.top
  return ⟨across.tdiv 2, down.tdiv 2⟩

def clip (a : Area) (p : Dot) : Dot :=
  ⟨max (min p.x a.right) a.left, max (min p.y a.bottom) a.top⟩

end Area

abbrev Box := Vector Span 3

abbrev BoxPoint := Vector Float 3

namespace Box

def starts (b : Box) : BoxPoint :=
  b.map (·.start)

def stops (b : Box) : BoxPoint :=
  b.map (·.stop)

end Box

def Span.place (s : Span) (size : Int) (value : Float) : Int :=
  if s.stop == s.start then size.tdiv 2
  else
    let t := (value - s.start) / (s.stop - s.start)
    if size = 0 then 0
    else if t.isInf then if 0.0 < t then size else 0
    else if 0 < size then Double.toInt (Double.floor (Double.ofInt size * t + 1e-3))
    else Double.toInt (Double.ceil (Double.ofInt size * t - 1e-3))

structure View where
  area : Area
  box : Box
  /-- The edge of the cube. -/
  cube : Int
  /-- The middle of the area. -/
  centre : Dot
  matrix : Matrix

namespace View

def yaw : Angle := ⟨0.5646424733950354, 0.8253356149096783⟩

def pitch : Angle := ⟨0.3894183423086505, 0.9210609940028851⟩

def size : Float := 0.85

/-- A cube turned over so that heights grow upwards, centred, turned by yaw and pitch, sized, and
moved to a place. -/
def turn (cube : Int) (centre : Dot) : Matrix :=
  let half := cube.tdiv 2
  let upright := Matrix.rotate .half .zero .zero
  let back := -Double.ofInt half
  let centred := if half = 0 then upright else (Matrix.shift back back back).andThen upright
  let turned := (centred.andThen (.rotate .zero yaw .zero)).andThen (.rotate pitch .zero .zero)
  let sized := turned.andThen (.scale size)
  if centre = ⟨0, 0⟩ then sized
  else sized.andThen (.shift (Double.ofInt centre.x) (Double.ofInt centre.y) 0.0)

def ofArea (area : Area) (box : Box) : Except Fault View := do
  let cube ← area.cube
  let centre ← area.centre
  return ⟨area, box, cube, centre, turn cube centre⟩

def inCube (v : View) (p : BoxPoint) : Vector Float 3 :=
  .ofFn fun k => Double.ofInt ((v.box.get k).place v.cube (p.get k))

def project (v : View) (p : BoxPoint) : Dot :=
  let q := v.inCube p
  ⟨v.matrix.coordinate 0 q, v.matrix.coordinate 1 q⟩

def depth (v : View) (p : BoxPoint) : Int :=
  v.matrix.coordinate 2 (v.inCube p)

def dot (v : View) (p : BoxPoint) : Dot :=
  v.area.clip (v.project p)

end View
end Landscape
