import ServiceQuery.Eval.Call
import ServiceQuery.Eval.Convert

/-!
# Evaluation

The value of a closed expression. Subexpressions are evaluated from left to right, and the first
error is the result.
-/

namespace ServiceQuery

namespace Value

/-- The element type of an array of `items` declared with the type `declared`: when that is not
known, the type that all items but null share. -/
def elementTypeOf (declared : Ty) (items : List Value) : Ty :=
  if declared ≠ .object then declared
  else
    match (items.filter fun item => !item.isNull).map ty with
    | [] => .object
    | first :: rest => if rest.all (· == first) then first else .object

/-- The value of a unary operator in `expr`, a node of type `ty`. -/
def unary (op : UnaryOp) (value : Value) (ty : Ty) (expr : Expr) : Except EvalError Value :=
  let mismatch : Except EvalError Value := .error (.typeMismatch expr value.ty ty)
  match op, value with
  | _, null => .ok null
  | .not, bool b => .ok (bool !b)
  | .not, _ => mismatch
  | .negate, value => (value.negate? expr).getD mismatch
  | .convert, value => value.convert ty

/-- Whether an order satisfies a relational operator. -/
def holds (op : BinaryOp) (order : Ordering) : Bool :=
  match op with
  | .lessThan => order == .lt
  | .lessThanOrEqual => order != .gt
  | .greaterThan => order == .gt
  | _ => order != .lt

/-- The value of an operator that is not logical, in `expr`. A relation with null does not hold. -/
def binary (op : BinaryOp) (l r : Value) (expr : Expr) : Except EvalError Value :=
  match op with
  | .equal => .ok (bool (l.equal r))
  | .notEqual => .ok (bool !(l.equal r))
  | .lessThan | .lessThanOrEqual | .greaterThan | .greaterThanOrEqual =>
    if l.isNull ∨ r.isNull then .ok (bool false)
    else
      match compare? l r with
      | some order => .ok (bool (holds op order))
      | none => .error (.typeMismatch expr l.ty r.ty)
  | _ => arithmetic op l r expr

/-- What a logical operator yields for its left operand alone. -/
def decided? (op : BinaryOp) : Value → Option Bool
  | bool b =>
    match op, b with
    | .andAlso, false => some false
    | .orElse, true => some true
    | _, _ => none
  | _ => none

/-- Whether the value is a boolean. -/
def isBool : Value → Bool
  | bool _ => true
  | _ => false

end Value

namespace Expr

mutual

/-- The value of an expression. -/
def evaluate : Expr → Except EvalError Value
  | constant value => .ok value
  | parameter param => .error (.notEvaluable (parameter param))
  | lambda params body => .error (.notEvaluable (lambda params body))
  | root origin => .error (.notEvaluable (root origin))
  | input ref => .error (.notEvaluable (input ref))
  | member source name _ => do
    let value ← source.evaluate
    value.readMember name source
  | invoke receiver method args ty => do
    let value ← receiver.evaluate
    let values ← evaluateList args
    value.invoke method values (invoke receiver method args ty)
  | call method args ty => do
    let values ← evaluateList args
    Value.call method values (call method args ty)
  | newRecord _ members => Value.record <$> evaluateMembers members
  | newObject _ members => Value.record <$> evaluateMembers members
  | newArray element items => do
    let values ← evaluateList items
    pure (.array (Value.elementTypeOf element values) values)
  | unary op operand ty => do
    let value ← operand.evaluate
    Value.unary op value ty (unary op operand ty)
  | binary op left right => do
    let l ← left.evaluate
    if op.isLogical then
      match Value.decided? op l with
      | some b => pure (.bool b)
      | none =>
        if l.isBool then
          let r ← right.evaluate
          if r.isBool then pure r else .error (.typeMismatch (binary op left right) l.ty r.ty)
        else .error (.typeMismatch (binary op left right) l.ty .bool)
    else
      let r ← right.evaluate
      Value.binary op l r (binary op left right)
  | conditional test whenTrue whenFalse => do
    match ← test.evaluate with
    | .bool true => whenTrue.evaluate
    | .bool false => whenFalse.evaluate
    | value => .error (.typeMismatch (conditional test whenTrue whenFalse) value.ty .bool)

/-- The values of a list of expressions. -/
def evaluateList : List Expr → Except EvalError (List Value)
  | [] => .ok []
  | expr :: rest => do
    let value ← expr.evaluate
    let values ← evaluateList rest
    pure (value :: values)

/-- The values of named members. -/
def evaluateMembers : List (String × Expr) → Except EvalError (List (String × Value))
  | [] => .ok []
  | (name, expr) :: rest => do
    let value ← expr.evaluate
    let values ← evaluateMembers rest
    pure ((name, value) :: values)

end

end Expr

end ServiceQuery
