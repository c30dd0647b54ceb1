import ServiceQuery.Expr.Traverse

/-!
# Normal form of predicates

Comparison idioms that the protocol cannot express become plain operators, and every replacement
is recorded.
-/

namespace ServiceQuery

/-- Pairs of a generated expression and the expression that it replaced, in order. -/
abbrev Replacements := List (Expr × Expr)

/-- The expression that was replaced by `generated`. -/
def Replacements.get? (replacements : Replacements) (generated : Expr) : Option Expr :=
  (replacements.find? fun entry => entry.1.same generated).map Prod.snd

namespace Expr

/-- The operands of a call that compares two strings. -/
def comparedOperands? : Expr → Option (Expr × Expr)
  | call "Compare" [a, b] _ => some (a, b)
  | invoke a "CompareTo" [b] _ => some (a, b)
  | _ => none

/-- Whether the expression is an integer constant zero. -/
def isIntegerZero (expr : Expr) : Bool :=
  match expr with
  | constant value => value.integer? == some 0
  | _ => false

/-- `Compare(a, b) op 0` becomes `a op b`. -/
def withoutCompare? (op : BinaryOp) (left right : Expr) : Option Expr :=
  if right.isIntegerZero then
    left.comparedOperands?.map fun (a, b) => binary op a b
  else none

/-- The other operand and the truth value of a comparison with a boolean literal. -/
def comparedLiteral? (left right : Expr) : Option (Expr × Bool) :=
  match left, right with
  | operand, constant (.bool b) => some (operand, b)
  | constant (.bool b), operand => some (operand, b)
  | _, _ => none

/-- `x == true` becomes `x` and `x == false` becomes `!x`, and the other way round for `!=`. -/
def withoutLiteral? (op : BinaryOp) (left right : Expr) : Option Expr :=
  if op = .equal ∨ op = .notEqual then
    match comparedLiteral? left right with
    | some (constant _, _) => none
    | some (operand, literal) =>
      some (if (op == .equal) == literal then operand else operand.logicalNot)
    | none => none
  else none

/-- One step at a node: a double negation is removed, and comparisons with the result of
a string comparison or with a boolean literal become plain. -/
def simpler? : Expr → Option Expr
  | unary .not (unary .not operand _) _ => some operand
  | binary op left right =>
    if op.isComparison then
      match withoutCompare? op left right with
      | some expr => some expr
      | none => withoutLiteral? op left right
    else none
  | _ => none

/-- Simplifies a node whose children are normal. A step can make one more step possible. -/
def simplify (node rebuilt : Expr) : StateM Replacements Expr :=
  match rebuilt.simpler? with
  | none => pure rebuilt
  | some generated => do
    modify (· ++ [(generated, node)])
    match generated.simpler? with
    | none => pure generated
    | some again => do
      modify (· ++ [(again, generated)])
      pure again

/-- The normal form of an expression and the replacements that led to it. -/
def normalize (expr : Expr) : Expr × Replacements :=
  (expr.transformM (fun _ => none) simplify).run []

end Expr

end ServiceQuery
