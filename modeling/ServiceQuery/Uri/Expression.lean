import ServiceQuery.Uri.Literal

namespace ServiceQuery.Uri

/-- The variables in scope, innermost first, and the protocol version that the expressions written
so far need. -/
structure Writer where
  scope : List String := []
  version : ProtocolVersion := .v40
  deriving DecidableEq

/-- Writing with a writer, which stays as it is when writing fails. -/
abbrev WriteM := ExceptT CompileError (StateM Writer)

/-- How tightly an expression binds. -/
abbrev Precedence := Nat

namespace Precedence

/-- Disjunctions. -/
def disjunction : Precedence := 1

/-- Conjunctions. -/
def conjunction : Precedence := 2

/-- Equality and inequality. -/
def equality : Precedence := 3

/-- Comparisons and membership. -/
def relational : Precedence := 4

/-- Sums and differences. -/
def additive : Precedence := 5

/-- Products and quotients. -/
def multiplicative : Precedence := 6

/-- Negations. -/
def unary : Precedence := 7

/-- Everything that never needs parentheses. -/
def primary : Precedence := 8

end Precedence

/-- The word for an operator. -/
def operatorWord : BinaryOp → String
  | .orElse => "or"
  | .andAlso => "and"
  | .equal => "eq"
  | .notEqual => "ne"
  | .lessThan => "lt"
  | .lessThanOrEqual => "le"
  | .greaterThan => "gt"
  | .greaterThanOrEqual => "ge"
  | .add => "add"
  | .subtract => "sub"
  | .multiply => "mul"
  | .divide => "div"
  | .modulo => "mod"

/-- How tightly an operator binds. -/
def operatorPrecedence : BinaryOp → Precedence
  | .orElse => .disjunction
  | .andAlso => .conjunction
  | .equal | .notEqual => .equality
  | .lessThan | .lessThanOrEqual | .greaterThan | .greaterThanOrEqual => .relational
  | .add | .subtract => .additive
  | .multiply | .divide | .modulo => .multiplicative

/-- The text of an operand under an operator. A right operand of the same precedence is in
parentheses too, except under conjunctions and disjunctions. -/
def operandText (parent : Precedence) (right : Bool) (operand : String × Precedence) : String :=
  if operand.2 < parent ∨ (right ∧ operand.2 = parent ∧ Precedence.conjunction < parent) then
    "(" ++ operand.1 ++ ")"
  else operand.1

/-- The function that a method with a receiver stands for, given the number of its arguments. -/
def receiverFunction? (method : String) (args : Nat) : Option String :=
  match method, args with
  | "Contains", 1 => some "contains"
  | "StartsWith", 1 => some "startswith"
  | "EndsWith", 1 => some "endswith"
  | "ToLower", 0 => some "tolower"
  | "ToUpper", 0 => some "toupper"
  | "Trim", 0 => some "trim"
  | "IndexOf", 1 => some "indexof"
  | "Substring", 1 | "Substring", 2 => some "substring"
  | _, _ => none

/-- The function that a method without a receiver stands for, given the number of its arguments. -/
def function? (method : String) (args : Nat) : Option String :=
  match method, args with
  | "Concat", 2 => some "concat"
  | "Round", 1 => some "round"
  | "Floor", 1 => some "floor"
  | "Ceiling", 1 => some "ceiling"
  | _, _ => none

/-- The operator that quantifies over a collection. -/
def quantifier? : String → Option String
  | "Any" => some "any"
  | "All" => some "all"
  | _ => none

/-- The items of a constant array that a membership test searches. -/
def membershipItems? (method : String) (array : Expr) : Option (List Value) :=
  if method == "Contains" then
    match array with
    | .constant (.array _ items) => some items
    | _ => none
  else none

/-- Whether an expression has a string type. -/
def isString (expr : Expr) : Bool := expr.ty.nonNullable == .string

/-- Whether an expression can stand before a slash. -/
def isPath : Expr → Bool
  | .member _ _ _ | .parameter _ | .input _ => true
  | _ => false

/-- Fails unless an expression, conversions apart, can stand before a slash. -/
def requirePath (expr : Expr) : WriteM Unit :=
  if isPath expr.withoutConversions then pure () else throw (.unsupported expr.withoutConversions)

/-- Notes that a version is needed. -/
def require (version : ProtocolVersion) : WriteM Unit :=
  modify fun writer => { writer with version := writer.version.latest version }

/-- Writes with one more variable in scope, and takes it out of scope afterwards, also when writing
fails. -/
def withVariable {α : Type} (name : String) (body : WriteM α) : WriteM α := ExceptT.mk do
  modify fun writer => { writer with scope := name :: writer.scope }
  let result ← body.run
  modify fun writer => { writer with scope := writer.scope.tail }
  pure result

/-- The text of a membership test. -/
def membership (items : List Value) (item : WriteM (String × Precedence)) :
    WriteM (String × Precedence) := do
  let values ← items.mapM fun value => liftM (literal value)
  let item ← item
  require .v401
  pure (operandText .relational false item ++ " in (" ++ Text.join "," values ++ ")", .relational)

/-- The text of a function call; a method that stands for no function is not supported. -/
def functionCall (method : String) (function : Option String) (args : WriteM (List String)) :
    WriteM (String × Precedence) :=
  match function with
  | none => throw (.methodNotSupported method)
  | some function => do
    let args ← args
    pure (function ++ "(" ++ Text.join "," args ++ ")", .primary)

mutual

/-- The text of an expression and how tightly it binds. -/
def writePrec : Expr → WriteM (String × Precedence)
  | .constant value => do
    let text ← literal value
    pure (text, .primary)
  | .input _ => pure ("$it", .primary)
  | .parameter param => do
    let writer ← get
    if writer.scope.contains param.name then pure (param.name, .primary)
    else throw (.parameterNotBound param.name)
  | .member source name _ =>
    if name == "Length" && isString source then do
      let (text, _) ← writePrec source
      pure ("length(" ++ text ++ ")", .primary)
    else if name == "Count" && source.ty.elementType?.isSome then do
      requirePath source
      let (text, _) ← writePrec source
      pure (text ++ "/$count", .primary)
    else
      match source with
      | .input _ => pure (name, .primary)
      | _ => do
        requirePath source
        let (text, _) ← writePrec source
        pure (text ++ "/" ++ name, .primary)
  | .unary .convert operand _ => writePrec operand
  | .unary .not operand _ => do
    let operand ← writePrec operand
    pure ("not " ++ operandText .unary false operand, .unary)
  | .unary .negate operand _ => do
    let operand ← writePrec operand
    pure ("-" ++ operandText .unary false operand, .unary)
  | .binary op left right => do
    let concatenates := op == .add && (isString left || isString right)
    let left ← writePrec left
    let right ← writePrec right
    if concatenates then pure ("concat(" ++ left.1 ++ "," ++ right.1 ++ ")", .primary)
    else
      let precedence := operatorPrecedence op
      pure (operandText precedence false left ++ " " ++ operatorWord op ++ " " ++
        operandText precedence true right, precedence)
  | .invoke receiver method args _ =>
    let function := functionCall method (receiverFunction? method args.length) do
      let (receiver, _) ← writePrec receiver
      let args ← writeList args
      pure (receiver :: args)
    match membershipItems? method receiver, args with
    | some items, [item] => membership items (writePrec item)
    | _, _ => function
  | .call method args ty =>
    let function := functionCall method (function? method args.length) (writeList args)
    match quantifier? method, args with
    | some quantifier, source :: rest => do
      requirePath source
      let (path, _) ← writePrec source
      match rest with
      | [] =>
        if quantifier == "any" then pure (path ++ "/any()", .primary)
        else throw (.unsupported (.call method args ty))
      | [.lambda [param] body] => do
        let (body, _) ← withVariable param.name (writePrec body)
        pure (path ++ "/" ++ quantifier ++ "(" ++ param.name ++ ":" ++ body ++ ")", .primary)
      | _ => throw (.unsupported (.call method args ty))
    | _, [array, item] =>
      match membershipItems? method array with
      | some items => membership items (writePrec item)
      | none => function
    | _, _ => function
  | expr => throw (.unsupported expr)

/-- The texts of the arguments of a function. -/
def writeList : List Expr → WriteM (List String)
  | [] => pure []
  | expr :: rest => do
    let (text, _) ← writePrec expr
    let rest ← writeList rest
    pure (text :: rest)

end

/-- The text of an expression. -/
def write (expr : Expr) : WriteM String := Prod.fst <$> writePrec expr

/-- The text of the conjunction of predicates. -/
def conjunction (predicates : List Expr) : WriteM String := do
  let texts ← predicates.mapM fun predicate =>
    operandText .conjunction false <$> writePrec predicate
  pure (Text.join " and " texts)

end ServiceQuery.Uri
