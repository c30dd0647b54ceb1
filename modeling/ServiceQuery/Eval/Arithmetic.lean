import ServiceQuery.Eval.Error
import ServiceQuery.Eval.Number

/-!
# Arithmetic

Integer and decimal arithmetic is exact: a result that does not fit and a division by zero are
errors. Floating-point arithmetic has no errors.
-/

namespace ServiceQuery

/-- The fault of an arithmetic operation. -/
inductive ArithmeticFault where
  | divideByZero
  | overflow

/-- The arithmetic fault as an error of an expression. -/
def ArithmeticFault.toError (expr : Expr) : ArithmeticFault → EvalError
  | divideByZero => .divideByZero expr
  | overflow => .overflow expr

/-- The exact result of an integer operator: divisions go toward zero. -/
def integerResult (op : BinaryOp) (a b : Int) : Int :=
  match op with
  | .add => a + b
  | .subtract => a - b
  | .multiply => a * b
  | .divide => a.tdiv b
  | _ => a.tmod b

/-- Whether the operator divides. -/
def BinaryOp.isDivision : BinaryOp → Bool
  | divide | modulo => true
  | _ => false

/-- An integer operation whose result has to fit. The remainder of the least integer by minus one
counts as an overflow. -/
def checkedInteger {α : Type} (fit? : Int → Option α) (least : Int) (op : BinaryOp) (a b : Int) :
    Except ArithmeticFault α :=
  if op.isDivision && b == 0 then .error .divideByZero
  else if op.isDivision && a == least && b == -1 then .error .overflow
  else
    match fit? (integerResult op a b) with
    | some n => .ok n
    | none => .error .overflow

/-- The result of an operator on singles. -/
def singleResult (op : BinaryOp) (a b : Float32) : Float32 :=
  match op with
  | .add => a + b
  | .subtract => a - b
  | .multiply => a * b
  | .divide => a / b
  | _ => (Number.remainder a.toFloat b.toFloat).toFloat32

/-- The result of an operator on doubles. -/
def doubleResult (op : BinaryOp) (a b : Float) : Float :=
  match op with
  | .add => a + b
  | .subtract => a - b
  | .multiply => a * b
  | .divide => a / b
  | _ => Number.remainder a b

/-- The result of an operator on decimals. -/
def decimalResult (op : BinaryOp) (a b : Decimal) : Except ArithmeticFault Decimal :=
  if op.isDivision && b.isZero then .error .divideByZero
  else
    let result :=
      match op with
      | .add => a.add? b
      | .subtract => a.sub? b
      | .multiply => a.mul? b
      | .divide => a.div? b
      | _ => a.rem? b
    match result with
    | some d => .ok d
    | none => .error .overflow

/-- The result of an operator on two numbers of one type. -/
def Operands.apply (op : BinaryOp) : Operands → Except ArithmeticFault Value
  | int32 a b => .int32 <$> checkedInteger int32? Int32.minValue.toInt op a.toInt b.toInt
  | int64 a b => .int64 <$> checkedInteger int64? Int64.minValue.toInt op a.toInt b.toInt
  | single a b => .ok (.single (singleResult op a b))
  | double a b => .ok (.double (doubleResult op a b))
  | decimal a b => .decimal <$> decimalResult op a b

namespace Value

/-- Whether the value is a string. -/
def isString : Value → Bool
  | string _ => true
  | _ => false

/-- The value of an arithmetic operator in `expr`. Adding to a string joins texts, and an operation
with null is null. -/
def arithmetic (op : BinaryOp) (l r : Value) (expr : Expr) : Except EvalError Value :=
  if op = .add ∧ (l.isString ∨ r.isString) then .ok (string (l.plainText ++ r.plainText))
  else if l.isNull ∨ r.isNull then .ok null
  else
    match Operands.of? l r with
    | none => .error (.typeMismatch expr l.ty r.ty)
    | some operands => (operands.apply op).mapError (ArithmeticFault.toError expr)

/-- A 32-bit result in `expr`. -/
def fit32 (expr : Expr) (n : Int) : Except EvalError Value :=
  match int32? n with
  | some n => .ok (int32 n)
  | none => .error (.overflow expr)

/-- A 64-bit result in `expr`. -/
def fit64 (expr : Expr) (n : Int) : Except EvalError Value :=
  match int64? n with
  | some n => .ok (int64 n)
  | none => .error (.overflow expr)

/-- The negation of a number in `expr`. -/
def negate? (expr : Expr) : Value → Option (Except EvalError Value)
  | int32 n => some (fit32 expr (-n.toInt))
  | int64 n => some (fit64 expr (-n.toInt))
  | single x => some (.ok (single (-x)))
  | double x => some (.ok (double (-x)))
  | decimal d => some (.ok (decimal d.neg))
  | _ => none

/-- The absolute value of a number in `expr`. -/
def absolute? (expr : Expr) : Value → Option (Except EvalError Value)
  | int32 n => some (fit32 expr n.toInt.natAbs)
  | int64 n => some (fit64 expr n.toInt.natAbs)
  | single x => some (.ok (single x.abs))
  | double x => some (.ok (double x.abs))
  | decimal d => some (.ok (decimal d.abs))
  | _ => none

end Value

end ServiceQuery
