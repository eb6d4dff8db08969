import Landscape.Color

namespace Landscape

/-- `width * height` pixels of three bytes, row by row. -/
structure Canvas (width height : Nat) where
  bytes : ByteArray
  size_eq : bytes.size = width * height * 3

/-- A place on or off the canvas; `y` grows downwards. -/
structure Dot where
  x : Int
  y : Int
  deriving DecidableEq, Repr

structure Ink where
  color : Color
  strength : Float

def blendByte (under paint : UInt8) (parts : Nat) : UInt8 :=
  if under < paint then under + UInt8.ofNat ((paint - under).toNat * parts / 256)
  else under - UInt8.ofNat ((under - paint).toNat * parts / 256)

/-- A colour moved towards another by `parts` of 256, each byte truncated towards what was there. -/
def Color.blend (under paint : Color) (parts : Nat) : Color :=
  ⟨blendByte under.red paint.red parts, blendByte under.green paint.green parts,
    blendByte under.blue paint.blue parts⟩

def meanByte (under paint : UInt8) (parts : Nat) : UInt8 :=
  UInt8.ofNat ((under.toNat * (256 - parts) + paint.toNat * parts) / 256)

def Color.mean (under paint : Color) (parts : Nat) : Color :=
  ⟨meanByte under.red paint.red parts, meanByte under.green paint.green parts,
    meanByte under.blue paint.blue parts⟩

namespace Canvas

def pushColor (c : Color) (bytes : ByteArray) : Nat → ByteArray
  | 0 => bytes
  | count + 1 => pushColor c (((bytes.push c.red).push c.green).push c.blue) count

theorem size_pushColor (c : Color) (bytes : ByteArray) (count : Nat) :
    (pushColor c bytes count).size = bytes.size + count * 3 := by
  induction count generalizing bytes with
  | zero => simp [pushColor]
  | succ count ih =>
    rw [pushColor, ih]
    simp only [ByteArray.size_push]
    omega

def filled (width height : Nat) (c : Color) : Canvas width height :=
  ⟨pushColor c (ByteArray.emptyWithCapacity (width * height * 3)) (width * height), by
    rw [size_pushColor]
    exact Nat.zero_add _⟩

variable {width height : Nat}

def offset (width x y : Nat) : Nat :=
  (y * width + x) * 3

def colorAt (c : Canvas width height) (x y : Nat) : Color :=
  let i := offset width x y
  ⟨c.bytes.get! i, c.bytes.get! (i + 1), c.bytes.get! (i + 2)⟩

def put (c : Canvas width height) (x y : Nat) (color : Color) : Canvas width height :=
  let i := offset width x y
  ⟨((c.bytes.set! i color.red).set! (i + 1) color.green).set! (i + 2) color.blue, by
    simp only [ByteArray.size_set!, c.size_eq]⟩

def modify (c : Canvas width height) (x y : Nat) (f : Color → Color) : Canvas width height :=
  let color := f (c.colorAt x y)
  c.put x y color

def dab (c : Canvas width height) (p : Dot) (color : Color) (strength : Float) : Canvas width height :=
  if p.x < 0 ∨ p.y < 0 ∨ (width : Int) ≤ p.x ∨ (height : Int) ≤ p.y then c
  else if 1.0 - 1.0 / 256.0 ≤ strength then c.put p.x.toNat p.y.toNat color
  else if 0.0 < strength then
    c.modify p.x.toNat p.y.toNat (·.blend color (strength * 256.0).toUInt16.toNat)
  else c

/-- The same change on `count` pixels of row `y` from `x` on; the change is told how far it has
come. -/
def changeRow (f : Nat → Color → Color) (x y count : Nat) (c : Canvas width height) :
    Canvas width height :=
  count.fold (fun i _ c => c.modify (x + i) y (f i)) c

/-- Ink on the pixels of a rectangle, from one corner to the other, the ends at the larger
coordinates excluded. Weak ink is a rounded mean on the leading eights of a row and a blend on the
rest. -/
def fill (c : Canvas width height) (a b : Dot) (ink : Ink) : Canvas width height :=
  let left := (min a.x b.x).toNat
  let top := (min a.y b.y).toNat
  let right := (min (max a.x b.x) width).toNat
  let bottom := (min (max a.y b.y) height).toNat
  let across := right - left
  if across = 0 then c
  else if 1.0 ≤ ink.strength then
    (bottom - top).fold (fun j _ c => changeRow (fun _ _ => ink.color) left (top + j) across c) c
  else
    let parts := (256.0 * ink.strength).toUInt16.toNat
    let eights := (across - 1) / 8 * 8
    (bottom - top).fold (fun j _ c =>
      changeRow (fun i under => if i < eights then under.mean ink.color parts
        else under.blend ink.color parts) left (top + j) across c) c

end Canvas
end Landscape
