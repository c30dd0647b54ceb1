import ServiceQuery.Eval.Basic
import ServiceQuery.Expr.Traverse

/-!
# Folding of closed subexpressions

Subexpressions that depend on no parameter and no resource are replaced by their values before a
query is bound.
-/

namespace ServiceQuery.Expr

/-- Whether a node can be part of a closed subexpression: it is no parameter, lambda, resource root
or resource element. -/
def isEvaluable : Expr → Bool
  | parameter _ | lambda _ _ | root _ | input _ => false
  | _ => true

/-- Whether every node of the tree is evaluable. -/
def isClosed (evaluable : Expr → Bool) (expr : Expr) : Bool :=
  !expr.any fun node => !evaluable node

/-- The constant that a closed expression becomes. -/
def toConstant (expr : Expr) : Except EvalError Expr :=
  match expr with
  | constant value => .ok (constant value)
  | expr => constant <$> expr.evaluate

/-- Replaces the topmost subexpressions whose nodes are all evaluable by constants. -/
def foldWith (evaluable : Expr → Bool) (expr : Expr) : Except EvalError Expr :=
  expr.replaceM fun node => if node.isClosed evaluable then some node.toConstant else none

/-- Replaces the topmost closed subexpressions by constants. -/
def fold (expr : Expr) : Except EvalError Expr := expr.foldWith isEvaluable

end ServiceQuery.Expr
