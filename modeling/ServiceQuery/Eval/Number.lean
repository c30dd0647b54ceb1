import ServiceQuery.Decimal.Arithmetic
import ServiceQuery.Value

/-!
# Numeric operands

Two numbers are brought to a common type before an operator is applied: integers widen to longer
integers, floating-point numbers and decimals, floating-point numbers widen to doubles, and
decimals do not mix with floating-point numbers.
-/

namespace ServiceQuery

/-- The 32-bit integer with the given value. -/
def int32? (n : Int) : Option Int32 :=
  if Int32.minValue.toInt ≤ n ∧ n ≤ Int32.maxValue.toInt then some (Int32.ofInt n) else none

/-- The 64-bit integer with the given value. -/
def int64? (n : Int) : Option Int64 :=
  if Int64.minValue.toInt ≤ n ∧ n ≤ Int64.maxValue.toInt then some (Int64.ofInt n) else none

/-- The magnitude of a 64-bit integer fits a decimal's mantissa. -/
theorem Decimal.natAbs_toInt_lt_limit (n : Int64) : n.toInt.natAbs < Decimal.limit := by
  have low := Int64.le_toInt n
  have high := Int64.toInt_lt n
  unfold Decimal.limit
  omega

/-- The decimal with the value of a 64-bit integer. -/
def Decimal.ofInt64 (n : Int64) : Decimal :=
  { negative := n.toInt < 0
    mantissa := n.toInt.natAbs
    scale := 0
    mantissa_lt := natAbs_toInt_lt_limit n
    scale_le := zero.scale_le }

/-- Two numbers of one type. -/
inductive Operands where
  | int32 (a b : Int32)
  | int64 (a b : Int64)
  | single (a b : Float32)
  | double (a b : Float)
  | decimal (a b : Decimal)

/-- Two numeric values brought to their common type. -/
def Operands.of? : Value → Value → Option Operands
  | .int32 a, .int32 b => some (.int32 a b)
  | .int32 a, .int64 b => some (.int64 a.toInt64 b)
  | .int64 a, .int32 b => some (.int64 a b.toInt64)
  | .int64 a, .int64 b => some (.int64 a b)
  | .int32 a, .single b => some (.single a.toFloat32 b)
  | .int64 a, .single b => some (.single a.toFloat32 b)
  | .single a, .int32 b => some (.single a b.toFloat32)
  | .single a, .int64 b => some (.single a b.toFloat32)
  | .single a, .single b => some (.single a b)
  | .int32 a, .double b => some (.double a.toFloat b)
  | .int64 a, .double b => some (.double a.toFloat b)
  | .single a, .double b => some (.double a.toFloat b)
  | .double a, .int32 b => some (.double a b.toFloat)
  | .double a, .int64 b => some (.double a b.toFloat)
  | .double a, .single b => some (.double a b.toFloat)
  | .double a, .double b => some (.double a b)
  | .int32 a, .decimal b => some (.decimal (.ofInt64 a.toInt64) b)
  | .int64 a, .decimal b => some (.decimal (.ofInt64 a) b)
  | .decimal a, .int32 b => some (.decimal a (.ofInt64 b.toInt64))
  | .decimal a, .int64 b => some (.decimal a (.ofInt64 b))
  | .decimal a, .decimal b => some (.decimal a b)
  | _, _ => none

/-- The order of two doubles; a value that is not a number has none. -/
def floatOrder? (a b : Float) : Option Ordering :=
  if a < b then some .lt else if b < a then some .gt else if a == b then some .eq else none

/-- The order of two singles; a value that is not a number has none. -/
def float32Order? (a b : Float32) : Option Ordering :=
  if a < b then some .lt else if b < a then some .gt else if a == b then some .eq else none

/-- The order of two numbers of one type. -/
def Operands.order? : Operands → Option Ordering
  | int32 a b => some (compare a.toInt b.toInt)
  | int64 a b => some (compare a.toInt b.toInt)
  | single a b => float32Order? a b
  | double a b => floatOrder? a b
  | decimal a b => some (a.compare b)

namespace Value

/-- The order of two strings, two booleans or two numbers. -/
def compare? : Value → Value → Option Ordering
  | string a, string b => some (compare a b)
  | bool a, bool b => some (compare a b)
  | l, r => (Operands.of? l r).bind Operands.order?

/-- Equality of values: null equals null only, values with an order are equal when neither comes
first, and other values when they are the same. -/
def equal (l r : Value) : Bool :=
  match l.isNull, r.isNull with
  | true, true => true
  | true, false | false, true => false
  | false, false =>
    match compare? l r with
    | some order => order == .eq
    | none => l.same r

end Value

end ServiceQuery
