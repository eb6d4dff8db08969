namespace Landscape

/-- The number `digits * 10 ^ exponent`. -/
structure Decimal where
  digits : Nat
  exponent : Int
  deriving DecidableEq, Repr

namespace Decimal

def tenTo (n : Nat) : Nat :=
  Nat.pow 10 n

def tenLog (n : Nat) : Nat :=
  if h : n < 10 then 0 else tenLog (n / 10) + 1
termination_by n
decreasing_by omega

def decade (num den : Nat) : Int :=
  if den ≤ num then tenLog (num / den) else -(tenLog ((den - 1) / num) + 1 : Nat)

/-- The quotient rounded to a whole number; a half goes to the even neighbour. -/
def divNearest (num den : Nat) : Nat :=
  let q := num / den
  match compare (2 * (num % den)) den with
  | .lt => q
  | .eq => q + q % 2
  | .gt => q + 1

def roundAt (num den : Nat) (unit : Int) : Decimal :=
  ⟨divNearest (num * tenTo (-unit).toNat) (den * tenTo unit.toNat), unit⟩

def significant (count num den : Nat) : Decimal :=
  let r := roundAt num den (decade num den - count + 1)
  if r.digits = tenTo count then ⟨tenTo (count - 1), r.exponent + 1⟩ else r

def trim (d : Decimal) : Decimal :=
  if h : d.digits ≠ 0 ∧ d.digits % 10 = 0 then trim ⟨d.digits / 10, d.exponent + 1⟩ else d
termination_by d.digits
decreasing_by omega

/-- The numbers that read back as one double, scaled to whole numbers: from `lower` to `upper` around
`value`, the ends included where `closed`, all over `scale`. -/
structure Reading where
  lower : Nat
  value : Nat
  upper : Nat
  closed : Bool
  scale : Nat

namespace Reading

/-- The interval of a double `m * 2 ^ e`. Below a power of two the next double is half as far, unless
`e` is the least exponent. -/
def ofBinary (m : Nat) (e : Int) : Reading :=
  let up := (e - 2).toNat
  let below := if m = 0x10000000000000 ∧ -1074 < e then 1 else 2
  ⟨(4 * m - below) <<< up, (4 * m) <<< up, (4 * m + 2) <<< up, m % 2 == 0, 1 <<< (2 - e).toNat⟩

def holds (r : Reading) (num den : Nat) : Bool :=
  let x := num * r.scale
  if r.closed then r.lower * den ≤ x && x ≤ r.upper * den
  else r.lower * den < x && x < r.upper * den

/-- The multiple of `10 ^ unit` nearest to the value among its two neighbours that read back; of two
equally near ones the upper. -/
def onGrid? (r : Reading) (unit : Int) : Option Decimal :=
  let num := tenTo unit.toNat
  let den := tenTo (-unit).toNat
  let below := r.value * den / (r.scale * num)
  let rest := r.value * den - below * (r.scale * num)
  let low := r.holds (below * num) den
  let high := r.holds ((below + 1) * num) den
  let nearHigh := r.scale * num ≤ 2 * rest
  if high && (nearHigh || !low) then some ⟨below + 1, unit⟩
  else if low then some ⟨below, unit⟩
  else none

def firstGrid (r : Reading) (unit : Int) : Nat → Decimal
  | 0 => ⟨r.value * tenTo (-unit).toNat / (r.scale * tenTo unit.toNat), unit⟩
  | n + 1 => (r.onGrid? unit).getD (r.firstGrid (unit - 1) n)

end Reading

/-- The fewest digits that read back as the double `m * 2 ^ e`, and of those the nearest. Seventeen
digits always do. -/
def shortest (m : Nat) (e : Int) : Decimal :=
  let r := Reading.ofBinary m e
  (r.firstGrid (decade r.value r.scale) 17).trim

end Decimal
end Landscape
