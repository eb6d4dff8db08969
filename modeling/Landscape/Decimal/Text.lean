import Landscape.Decimal.Digits
import Landscape.Double.Basic

namespace Landscape.Decimal
open Float.Model Float.Model.UnpackedFloat

def pointed (digits : String) : String :=
  if digits.length ≤ 1 then digits
  else (digits.take 1).toString ++ "." ++ (digits.drop 1).toString

/-- One digit before the point, the rest after it, then the power of ten: `1.5e3`. -/
def scientific (d : Decimal) : String :=
  let digits := toString d.digits
  pointed digits ++ "e" ++ toString (d.exponent + digits.length - 1)

/-- All digits written out, without a power of ten: `1500`, `0.0015`. -/
def positional (d : Decimal) : String :=
  if 0 ≤ d.exponent then toString (d.digits * tenTo d.exponent.toNat)
  else
    let places := (-d.exponent).toNat
    let whole := toString (d.digits / tenTo places)
    let fraction := toString (d.digits % tenTo places)
    whole ++ "." ++ "".pushn '0' (places - fraction.length) ++ fraction

def signText : Sign → String
  | .negative => "-"
  | .positive => ""

def write (zero : String) (magnitude : Nat → Int → String) (x : Float) : String :=
  match Double.parts x with
  | .notANumber => "NaN"
  | .infinity s => signText s ++ "inf"
  | .zero s => signText s ++ zero
  | .finite s m e _ => signText s ++ magnitude m e

def exact (x : Float) : String :=
  write "0e0" (fun m e => (shortest m e).scientific) x

def plain (x : Float) : String :=
  write "0" (fun m e => (shortest m e).positional) x

/-- The exact value rounded to `count` significant digits, in powers of ten; `count` is at least
two. -/
def rounded (count : Nat) (x : Float) : String :=
  write ("0." ++ "".pushn '0' (count - 1) ++ "e0")
    (fun m e => (significant count (m <<< e.toNat) (1 <<< (-e).toNat)).scientific) x

def fixed (places : Nat) (x : Float) : String :=
  write ("0." ++ "".pushn '0' places)
    (fun m e => (roundAt (m <<< e.toNat) (1 <<< (-e).toNat) (-places)).positional) x

end Landscape.Decimal
