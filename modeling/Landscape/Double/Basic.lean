namespace Landscape.Double
open Float.Model Float.Model.UnpackedFloat

def mantissaBits (bits : UInt64) : Nat :=
  (bits &&& 0xfffffffffffff).toNat

def exponentBits (bits : UInt64) : Nat :=
  ((bits >>> 52) &&& 0x7ff).toNat

def signBit (bits : UInt64) : Sign :=
  if bits >>> 63 = 0 then .positive else .negative

/-- The kind of a double, and the sign, mantissa and exponent of a finite one. -/
def parts (x : Float) : UnpackedFloat :=
  let mantissa := mantissaBits x.toBits
  let exponent := exponentBits x.toBits
  let sign := signBit x.toBits
  if exponent = 2047 then if mantissa = 0 then .infinity sign else .notANumber
  else if exponent = 0 then
    if h : mantissa = 0 then .zero sign else .finite sign mantissa (-1074) (Nat.pos_of_ne_zero h)
  else .finite sign (mantissa + 0x10000000000000) (exponent - 1075) (Nat.add_pos_right _ (by decide))

def ofCount (n : Nat) : Float :=
  .ofModel (.ofNat n)

/-- The whole number nearest to `m * 2 ^ e`; a half goes up. -/
def nearestNat (m : Nat) (e : Int) : Nat :=
  if 0 ≤ e then m <<< e.toNat
  else (2 * m + 1 <<< (-e).toNat) >>> ((-e).toNat + 1)

def largestWord : Nat := 0xffffffff

/-- The whole number of 32 bits nearest to a number; a half goes away from zero, what lies outside
the range goes to its nearer end, and what is no number goes to zero. -/
def nearestWordOf : UnpackedFloat → Nat
  | .infinity .positive => largestWord
  | .finite .positive m e _ => min (nearestNat m e) largestWord
  | _ => 0

@[inherit_doc nearestWordOf]
def nearestWord (x : Float) : UInt32 :=
  UInt32.ofNat (nearestWordOf (parts x))

/-- Rounding to single precision; what is not finite keeps its kind. -/
def singleOf : UnpackedFloat → UnpackedFloat
  | .finite s m e _ => .round Format.binary32 s m e
  | special => special

def toSingle (x : Float) : Float32 :=
  .ofModel (.pack (singleOf (parts x)))

def truncate (x : Float) : Float :=
  if x.abs < 4503599627370496.0 then
    let whole := x.abs.toUInt64.toFloat
    if x < 0.0 then -whole else whole
  else x

def floor (x : Float) : Float :=
  let whole := truncate x
  if x < whole then whole - 1.0 else whole

def ceil (x : Float) : Float :=
  let whole := truncate x
  if whole < x then whole + 1.0 else whole

/-- The whole part as an integer of 32 bits: what lies outside the range goes to its nearer end, and
what is no number goes to zero. -/
def toInt (x : Float) : Int :=
  if x < 0.0 then -((min x.abs.toUInt32.toNat 2147483648 : Nat) : Int)
  else (min x.toUInt32.toNat 2147483647 : Nat)

def ofInt (n : Int) : Float :=
  match n with
  | .ofNat k => k.toUInt64.toFloat
  | .negSucc k => -(k + 1).toUInt64.toFloat

/-- The lesser number; of a number and no number it is the number. -/
def lesser (x y : Float) : Float :=
  if x.isNaN then y else if y.isNaN then x else if y < x then y else x

def greater (x y : Float) : Float :=
  if x.isNaN then y else if y.isNaN then x else if x < y then y else x

def infinity : Float := 1.0 / 0.0

/-- The value moved into the interval from `lo` to `hi`; what is no number stays so. -/
def clamp (x lo hi : Float) : Float :=
  if x < lo then lo else if hi < x then hi else x

/-- From this many binary places on, the shorter leg moves the length by less than a quarter of its
last place, so the longer leg is already the rounded length. -/
def negligiblePlaces : Int := 32

theorem sum_of_squares_pos {p : Nat} (hp : 0 < p) (q : Nat) : 0 < p * p + q * q :=
  Nat.add_pos_left (Nat.mul_pos hp hp) _

theorem shifted_pos {m : Nat} (hm : 0 < m) (k : Nat) : 0 < m <<< k := by
  rw [Nat.shiftLeft_eq]
  exact Nat.mul_pos hm (Nat.two_pow_pos k)

def finiteHypotenuse (m : Nat) (e : Int) (hm : 0 < m) (n : Nat) (f : Int) (hn : 0 < n) : UnpackedFloat :=
  if f + negligiblePlaces < e then .finite .positive m e hm
  else if e + negligiblePlaces < f then .finite .positive n f hn
  else
    let g := min e f
    .sqrt Format.binary64 (.finite .positive
      (m <<< (e - g).toNat * m <<< (e - g).toNat + n <<< (f - g).toNat * n <<< (f - g).toNat)
      (2 * g) (sum_of_squares_pos (shifted_pos hm _) _))

/-- An infinite leg wins over everything, then a leg that is no number; signs never matter. -/
def hypotenuseOf : UnpackedFloat → UnpackedFloat → UnpackedFloat
  | .infinity _, _ => .infinity .positive
  | _, .infinity _ => .infinity .positive
  | .notANumber, _ => .notANumber
  | _, .notANumber => .notANumber
  | .zero _, y => y.abs
  | x, .zero _ => x.abs
  | .finite _ m e hm, .finite _ n f hn => finiteHypotenuse m e hm n f hn

def hypotenuse (x y : Float) : Float :=
  .ofModel (.pack (hypotenuseOf (parts x) (parts y)))

end Landscape.Double
