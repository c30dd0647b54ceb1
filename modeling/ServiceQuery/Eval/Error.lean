import ServiceQuery.Expr.Text

namespace ServiceQuery

/-- Why a closed expression has no value. -/
inductive EvalError where
  /-- An integer or decimal was divided by zero. -/
  | divideByZero (expr : Expr)
  /-- An integer or decimal result does not fit its type. -/
  | overflow (expr : Expr)
  /-- The operator does not accept operands of these types. -/
  | typeMismatch (expr : Expr) (left right : Ty)
  /-- The value of the expression has no such member. -/
  | missingMember (member : String) (expr : Expr)
  /-- Null was used as an object. -/
  | nullReference (expr : Expr)
  /-- The method is not known to the evaluator. -/
  | unsupportedCall (method : String)
  /-- The value has no counterpart in the type. -/
  | invalidConversion (value : Value) (ty : Ty)
  /-- An index lies outside the text. -/
  | outOfRange (expr : Expr)
  /-- The expression depends on a parameter or a resource. -/
  | notEvaluable (expr : Expr)

/-- The text of an evaluation error. -/
def EvalError.message : EvalError → String
  | divideByZero expr => "division by zero in '" ++ expr.text ++ "'"
  | overflow expr => "arithmetic overflow in '" ++ expr.text ++ "'"
  | typeMismatch expr left right =>
    "operator in '" ++ expr.text ++ "' cannot be applied to " ++ left.text ++ " and " ++ right.text
  | missingMember member expr =>
    "member '" ++ member ++ "' cannot be read from '" ++ expr.text ++ "'"
  | nullReference expr => "null reference in '" ++ expr.text ++ "'"
  | unsupportedCall method => "call to '" ++ method ++ "' cannot be evaluated locally"
  | invalidConversion value ty => "cannot convert '" ++ value.text ++ "' to " ++ ty.text
  | outOfRange expr => "argument out of range in '" ++ expr.text ++ "'"
  | notEvaluable expr => "'" ++ expr.text ++ "' cannot be evaluated locally"

end ServiceQuery
