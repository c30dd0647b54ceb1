import ServiceQuery.Error
import ServiceQuery.Expr.Traverse
import ServiceQuery.Resource.Basic

/-!
# Parameters as elements of resources

A lambda parameter that ranges over a resource is replaced by a reference to its element. Where a
transparent scope stands for a record of elements, its members are replaced instead.
-/

namespace ServiceQuery

namespace Chain

variable (chain : Chain) (name : String)

/-- The resource whose transparent scope describes an expression: the parameter itself, or a chain
of outer members over it. -/
def scopeOf? : Expr → Option Resource
  | .parameter param =>
    if param.name == name && chain.leaf.scope.any (·.describes param.ty) then some chain.leaf
    else none
  | .member source member ty => do
    let owner ← scopeOf? source
    let scope ← owner.scope
    let (outer, id) ← scope.outer
    if outer == member then
      let resource ← chain.find? id
      if resource.scope.any (·.describes ty) then some resource else none
    else none
  | _ => none

/-- The resource whose element an expression is, where the parameter `name` ranges over the leaf of
the chain. -/
def resolve? : Expr → Option Resource
  | .parameter param =>
    if param.name == name && param.ty == chain.leaf.elementType then some chain.leaf else none
  | .member source member _ => do
    let owner ← chain.scopeOf? name source
    let scope ← owner.scope
    if scope.inner == member then some owner
    else
      let (outer, id) ← scope.outer
      if outer == member then
        let resource ← chain.find? id
        if resource.scope.isNone then some resource else none
      else none
  | _ => none

/-- The expression with the elements it reads as references to their resources. Lambdas that rebind
the parameter stay as they are. -/
def bindInput (expr : Expr) : Expr :=
  expr.replace fun node =>
    match chain.resolve? name node with
    | some resource => some (.input resource.inputRef)
    | none =>
      match node with
      | .lambda params _ => if Param.declares params name then some node else none
      | _ => none

/-- The resources that the bound expression refers to, in order of their first mention. -/
def referenced (expr : Expr) : List ResourceId :=
  List.eraseDups <| expr.gather fun node =>
    match chain.resolve? name node with
    | some resource => some [resource.id]
    | none =>
      match node with
      | .input ref => some [ref.target]
      | .lambda params _ => if Param.declares params name then some [] else none
      | _ => none

/-- Whether an expression reads elements of the leaf and of no other resource. -/
def readsOnlyLeaf (expr : Expr) : Bool := chain.referenced name expr == [chain.leaf.id]

end Chain

/-- The only parameter of a lambda, required where a lambda ranges over the elements of one
resource. -/
def Lambda.single (f : Lambda) : Except CompileError Param :=
  match f.param? with
  | some param => .ok param
  | none => .error (.unsupported f.toExpr)

/-- References to the element of `old` as references to the element of `new`. -/
def Expr.retarget (old new : ResourceId) (expr : Expr) : Expr :=
  expr.replace fun
    | .input ref => if ref.target == old then some (.input { ref with target := new }) else none
    | _ => none

end ServiceQuery
