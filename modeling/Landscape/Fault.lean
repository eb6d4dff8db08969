namespace Landscape

/-- Operations on whole numbers whose result has to fit a word. -/
inductive Operation where
  | sum
  | difference
  | product
  deriving DecidableEq, Repr

def Operation.verb : Operation → String
  | .sum => "add"
  | .difference => "subtract"
  | .product => "multiply"

inductive Fault where
  /-- An index past the end of a list of `size` samples. -/
  | beyondAxis (index size : Nat)
  /-- An index pair outside a square table of `size` rows and columns. -/
  | beyondTable (row column size : Nat)
  /-- A result that does not fit its word. -/
  | overflow (operation : Operation)
  /-- A buffer of more bytes than can be addressed. -/
  | bufferTooLarge
  /-- Steps of length zero. -/
  | zeroStep
  /-- An axis with both ends no number. -/
  | axisWithoutEnds
  deriving DecidableEq, Repr

def Fault.message : Fault → String
  | .beyondAxis index size =>
    s!"ndarray: index {index} is out of bounds for array of shape [{size}]"
  | .beyondTable row column size =>
    s!"ndarray: index [{row}, {column}] is out of bounds for array of shape [{size}, {size}]"
  | .overflow operation => s!"attempt to {operation.verb} with overflow"
  | .bufferTooLarge => "capacity overflow"
  | .zeroStep => "assertion failed: step != 0"
  | .axisWithoutEnds => "assertion failed: !(range.0.is_nan() || range.1.is_nan())"

namespace Word

/-- An unsigned word read as a signed one: from `2 ^ 31` on it counts as negative. -/
def signed (n : UInt32) : Int :=
  n.toInt32.toInt

def fit (operation : Operation) (n : Int) : Except Fault Int :=
  if -0x80000000 ≤ n ∧ n < 0x80000000 then .ok n else .error (.overflow operation)

def sum (a b : Int) : Except Fault Int :=
  fit .sum (a + b)

def difference (a b : Int) : Except Fault Int :=
  fit .difference (a - b)

def product (a b : Int) : Except Fault Int :=
  fit .product (a * b)

end Word
end Landscape
