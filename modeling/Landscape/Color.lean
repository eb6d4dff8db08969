namespace Landscape

structure Color where
  red : UInt8
  green : UInt8
  blue : UInt8
  deriving DecidableEq, Repr

namespace Color

/-- The colour `0xrrggbb`. -/
def ofHex (n : Nat) : Color :=
  ⟨UInt8.ofNat (n >>> 16), UInt8.ofNat (n >>> 8), UInt8.ofNat n⟩

def white : Color := ofHex 0xffffff

def black : Color := ofHex 0x000000

end Color

namespace Transparency

def alpha (key pixel : Color) : UInt8 :=
  if pixel = key then 0 else 255

def pixelAt (rgb : ByteArray) (k : Nat) : Color :=
  ⟨rgb.get! (3 * k), rgb.get! (3 * k + 1), rgb.get! (3 * k + 2)⟩

def pushPixel (key : Color) (rgba : ByteArray) (pixel : Color) : ByteArray :=
  (((rgba.push pixel.red).push pixel.green).push pixel.blue).push (alpha key pixel)

def pushPixels (key : Color) (rgb : ByteArray) (rgba : ByteArray) (k : Nat) : Nat → ByteArray
  | 0 => rgba
  | count + 1 => pushPixels key rgb (pushPixel key rgba (pixelAt rgb k)) (k + 1) count

/-- Every whole pixel with its alpha; bytes after the last whole pixel are dropped. -/
def keyOut (rgb : ByteArray) (key : Color) : ByteArray :=
  pushPixels key rgb (ByteArray.emptyWithCapacity (rgb.size / 3 * 4)) 0 (rgb.size / 3)

end Transparency

structure Tint where
  red : Float32
  green : Float32
  blue : Float32

namespace Tint

def ofColor (c : Color) : Tint :=
  ⟨c.red.toFloat32 / 255.0, c.green.toFloat32 / 255.0, c.blue.toFloat32 / 255.0⟩

def channelByte (x : Float32) : UInt8 :=
  (x * 255.0 + 0.5).toUInt8

def toColor (t : Tint) : Color :=
  ⟨channelByte t.red, channelByte t.green, channelByte t.blue⟩

def zip (f : Float32 → Float32 → Float32 → Float32 → Float32) (a b c d : Tint) : Tint :=
  ⟨f a.red b.red c.red d.red, f a.green b.green c.green d.green, f a.blue b.blue c.blue d.blue⟩

/-- The tint as far beyond `a` as `b` lies before it. -/
def beyond (a b : Tint) : Tint :=
  ⟨2.0 * a.red - b.red, 2.0 * a.green - b.green, 2.0 * a.blue - b.blue⟩

def black : Tint := ⟨0.0, 0.0, 0.0⟩

end Tint

/-- A gradient through its stops: the first at position zero, the last at one, evenly spaced. -/
structure Gradient where
  stops : Array Color

namespace Gradient

/-- The four weights of a uniform cubic B-spline at `u`, applied from left to right. -/
def spline (u v₀ v₁ v₂ v₃ : Float32) : Float32 :=
  let u2 := u * u
  let u3 := u2 * u
  ((1.0 - 3.0 * u + 3.0 * u2 - u3) * v₀ + (4.0 - 6.0 * u2 + 3.0 * u3) * v₁
    + (1.0 + 3.0 * u + 3.0 * u2 - 3.0 * u3) * v₂ + u3 * v₃) / 6.0

def position (g : Gradient) (i : Nat) : Float32 :=
  i.toUInt32.toFloat32 / (g.stops.size - 1).toUInt32.toFloat32

def stop (g : Gradient) (i : Nat) : Tint :=
  (g.stops[i]?.map Tint.ofColor).getD Tint.black

/-- The first stop from `i` on, at most `n` further, that does not lie before `t`. -/
def firstFrom (g : Gradient) (t : Float32) (i : Nat) : Nat → Nat
  | 0 => i
  | n + 1 => if g.position i < t then g.firstFrom t (i + 1) n else i

/-- The tint between stop `i` and the next; past either end of the gradient the stops go on in a
straight line. -/
def between (g : Gradient) (t : Float32) (i : Nat) : Tint :=
  let u := (t - g.position i) / (g.position (i + 1) - g.position i)
  let v₁ := g.stop i
  let v₂ := g.stop (i + 1)
  let v₀ := if 0 < i then g.stop (i - 1) else Tint.beyond v₁ v₂
  let v₃ := if i + 2 < g.stops.size then g.stop (i + 2) else Tint.beyond v₂ v₁
  Tint.zip (spline u) v₀ v₁ v₂ v₃

/-- The tint at `t`: the end stops outside the gradient, and black for what is no number. -/
def tint (g : Gradient) (t : Float32) : Tint :=
  if t ≤ 0.0 then g.stop 0
  else if 1.0 ≤ t then g.stop (g.stops.size - 1)
  else if t.isNaN then Tint.black
  else g.between t (max 1 (g.firstFrom t 0 (g.stops.size - 1)) - 1)

def color (g : Gradient) (t : Float32) : Color :=
  (g.tint t).toColor

def ofHexes (stops : List Nat) : Gradient :=
  ⟨(stops.map Color.ofHex).toArray⟩

def viridis : Gradient :=
  ofHexes [0x440154, 0x482777, 0x3f4a8a, 0x31678e, 0x26838f, 0x1f9d8a, 0x6cce5a, 0xb6de2b, 0xfee825]

def plasma : Gradient :=
  ofHexes [0x0d0887, 0x42039d, 0x6a00a8, 0x900da3, 0xb12a90, 0xcb4678, 0xe16462, 0xf1834b, 0xfca636,
    0xfccd25, 0xf0f921]

end Gradient
end Landscape
