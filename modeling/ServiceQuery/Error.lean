import ServiceQuery.Eval.Error
import ServiceQuery.Version

namespace ServiceQuery

/-- Why a query has no request. Expressions are given by their texts. -/
inductive CompileError where
  /-- A reserved segment stands in a select or expand path. -/
  | illegalSystemToken (token : String)
  /-- A grouping key is no member of the grouped elements. -/
  | invalidGroupingExpression (expr : String)
  /-- A projection reads more than the element of its resource. -/
  | leafOnlyProjection (projection : String)
  | methodNotSupported (method : String)
  /-- An operator cannot follow an earlier one. -/
  | unsupportedAfter (method after : String)
  /-- A clause reads another resource than its own. -/
  | crossResourceReference (clause expr : String)
  | notAResource (expr : String)
  | unknownResource (name : String)
  | unknownMember (ty member : String)
  /-- A navigation starts at a collection. -/
  | navigationRequiresSingleSource (member : String)
  /-- An argument is not a constant of the expected kind. -/
  | nonConstantArgument (method argument expected : String)
  /-- An action cannot be followed by an operator. -/
  | notComposable (name method : String)
  /-- A custom option has the name of a system option. -/
  | reservedQueryOption (name : String)
  | expressionNotSupported (expr : String)
  /-- A parameter ranges over no resource. -/
  | parameterNotBound (name : String)
  /-- Parameters of this kind cannot be sent with the method. -/
  | invalidOperationParameters (kind method : String)
  | protocolVersionTooLow (required max : ProtocolVersion)
  /-- A closed subexpression has no value. -/
  | evaluation (error : EvalError)

namespace CompileError

/-- The error for an expression that is not supported. -/
def unsupported (expr : Expr) : CompileError := expressionNotSupported expr.text

/-- The code of an error. -/
def code : CompileError → String
  | illegalSystemToken _ => "IllegalSystemToken"
  | invalidGroupingExpression _ => "InvalidGroupingExpression"
  | leafOnlyProjection _ => "LeafOnlyProjection"
  | methodNotSupported _ => "MethodNotSupported"
  | unsupportedAfter _ _ => "MethodNotSupported"
  | crossResourceReference _ _ => "CrossResourceReference"
  | notAResource _ => "NotAResource"
  | unknownResource _ => "UnknownResource"
  | unknownMember _ _ => "UnknownMember"
  | navigationRequiresSingleSource _ => "NavigationRequiresSingleSource"
  | nonConstantArgument _ _ _ => "NonConstantArgument"
  | notComposable _ _ => "NotComposable"
  | reservedQueryOption _ => "ReservedQueryOption"
  | expressionNotSupported _ => "ExpressionNotSupported"
  | parameterNotBound _ => "ParameterNotBound"
  | invalidOperationParameters _ _ => "InvalidOperationParameters"
  | protocolVersionTooLow _ _ => "ProtocolVersionTooLow"
  | evaluation _ => "Evaluation"

/-- The text of an error. -/
def message : CompileError → String
  | illegalSystemToken token =>
    "system token '" ++ token ++ "' is not allowed in a select or expand path"
  | invalidGroupingExpression expr => "'" ++ expr ++ "' is not a valid grouping expression"
  | leafOnlyProjection projection =>
    "projection '" ++ projection ++ "' may only reference members of the queried resource"
  | methodNotSupported method => "method '" ++ method ++ "' is not supported"
  | unsupportedAfter method after =>
    "method '" ++ method ++ "' is not supported after '" ++ after ++ "'"
  | crossResourceReference clause expr =>
    clause ++ " expression '" ++ expr ++ "' references a resource other than its input"
  | notAResource expr => "'" ++ expr ++ "' is not a queryable resource"
  | unknownResource name => "unknown resource '" ++ name ++ "'"
  | unknownMember ty member => "type '" ++ ty ++ "' has no member '" ++ member ++ "'"
  | navigationRequiresSingleSource member =>
    "navigation '" ++ member ++ "' requires a single source resource"
  | nonConstantArgument method argument expected =>
    "argument '" ++ argument ++ "' of '" ++ method ++ "' must be a " ++ expected ++ " constant"
  | notComposable name method =>
    "operation '" ++ name ++ "' cannot be composed with '" ++ method ++ "'"
  | reservedQueryOption name => "query option '" ++ name ++ "' is reserved"
  | expressionNotSupported expr => "expression '" ++ expr ++ "' is not supported"
  | parameterNotBound name => "parameter '" ++ name ++ "' is not bound to a resource"
  | invalidOperationParameters kind method =>
    kind ++ " operation parameters are not allowed with " ++ method
  | protocolVersionTooLow required max =>
    "query requires protocol version " ++ required.text ++ " but the maximum is " ++ max.text
  | evaluation error => error.message

/-- The text of an error after its code in brackets. -/
def withCode (error : CompileError) : String := "[" ++ error.code ++ "] " ++ error.message

end CompileError

end ServiceQuery
