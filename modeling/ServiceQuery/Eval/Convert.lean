import ServiceQuery.Decimal.Convert
import ServiceQuery.Eval.Error
import ServiceQuery.Eval.Number

namespace ServiceQuery.Value

/-- The double nearest to a number. -/
def toDouble? : Value → Option Float
  | int32 n => some (Float.ofInt n.toInt)
  | int64 n => some (Float.ofInt n.toInt)
  | single x => some x.toFloat
  | double x => some x
  | decimal d => some d.toFloat
  | _ => none

/-- The decimal for a number. -/
def toDecimal? : Value → Option Decimal
  | int32 n => some (.ofInt64 n.toInt64)
  | int64 n => some (.ofInt64 n)
  | single x => (BinaryNumber.ofFloat32? x).bind Decimal.ofBinary?
  | double x => (BinaryNumber.ofFloat? x).bind Decimal.ofBinary?
  | decimal d => some d
  | _ => none

/-- A number truncated to an integer by way of a double. -/
def truncated? (value : Value) : Option Int := value.toDouble?.bind Number.toInt?

/-- A number as a 32-bit integer. -/
def toInt32? (value : Value) : Option Int32 :=
  match value.integer?.bind int32? with
  | some n => some n
  | none => value.truncated?.bind int32?

/-- A number as a 64-bit integer. -/
def toInt64? (value : Value) : Option Int64 :=
  match value.integer?.bind int64? with
  | some n => some n
  | none => value.truncated?.bind int64?

/-- A value as a value of a numeric type. -/
def convertTo? (value : Value) : Ty → Option Value
  | .int32 => value.toInt32?.map int32
  | .int64 => value.toInt64?.map int64
  | .single => value.toDouble?.map fun x => single x.toFloat32
  | .double => value.toDouble?.map double
  | .decimal => value.toDecimal?.map decimal
  | _ => none

/-- A value as a value of the type `ty`, nullable or not. A value of that type stays as it is, and
so does any value when the type is not known. -/
def convert (value : Value) (ty : Ty) : Except EvalError Value :=
  let target := ty.nonNullable
  if target = .object ∨ value.ty = target then .ok value
  else
    match value.convertTo? target with
    | some converted => .ok converted
    | none => .error (.invalidConversion value ty)

end ServiceQuery.Value
