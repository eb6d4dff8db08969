import Landscape.Double.Basic
import Landscape.Mesh

namespace Landscape

/-- The modulus of `1 + z²` at a point. -/
def modulus (z : Point) : Float :=
  let squareReal := z.real * z.real - z.imaginary * z.imaginary
  let squareImaginary := z.real * z.imaginary + z.imaginary * z.real
  Double.hypotenuse (1.0 + squareReal) (0.0 + squareImaginary)

structure Relief where
  size : Nat
  heights : Table Float size
  low : Float
  high : Float

namespace Relief

def foldTable {n : Nat} (f : Float → Float → Float) (start : Float) (t : Table Float n) : Float :=
  t.rows.foldl (fun acc row => row.foldl f acc) start

/-- The relief with the given heights. Its low starts from infinity and its high from minus infinity;
what is no number is passed over. -/
def ofHeights {n : Nat} (heights : Table Float n) : Relief :=
  ⟨n, heights, foldTable Double.lesser Double.infinity heights,
    foldTable Double.greater (-Double.infinity) heights⟩

def ofMesh (m : Mesh) : Relief :=
  ofHeights (m.reals.zipWith (fun a b => modulus ⟨a, b⟩) m.imaginaries)

def heightAt (r : Relief) (i j : Nat) : Except Fault Float :=
  r.heights.entry i j

/-- Where a height lies between low and high, from zero to one; halfway when the relief is flat. -/
def level (r : Relief) (height : Float) : Float :=
  let span := r.high - r.low
  if 0.0 < span then Double.clamp ((height - r.low) / span) 0.0 1.0 else 0.5

end Relief
end Landscape
