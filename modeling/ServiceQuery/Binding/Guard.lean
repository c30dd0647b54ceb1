import ServiceQuery.Resource.Input

namespace ServiceQuery

namespace Resource

/-- The names of the operators that a resource already carries. -/
def applied (resource : Resource) : List String :=
  resource.sequence.map SequenceOption.methodName ++
    (if resource.projection.isSome then ["Select"] else []) ++
    (if resource.apply.isSome then ["GroupBy"] else []) ++
    (if resource.expand.isEmpty then [] else ["Expand"]) ++
    (if resource.count = .none then [] else ["IncludeCount"]) ++
    (if resource.custom.entries.isEmpty then [] else ["AddQueryOption"])

/-- Fails if the resource is a single element. -/
def requireCollection (resource : Resource) (method : String) : Except CompileError Unit :=
  if resource.isSingle then
    .error (.methodNotSupported (method ++ " over single resource " ++ resource.name))
  else .ok ()

/-- Fails if the resource carries one of the blocked operators. -/
def requireNotAfter (resource : Resource) (method : String) (blocked : List String) :
    Except CompileError Unit :=
  match blocked.find? fun name => resource.applied.contains name with
  | some after => .error (.unsupportedAfter method after)
  | none => .ok ()

end Resource

namespace Expr

/-- The lambda that an argument has to be. -/
def requireLambda (expr : Expr) : Except CompileError Lambda :=
  match expr.lambda? with
  | some f => .ok f
  | none => .error (.unsupported expr)

/-- The error for an argument that is not the constant it has to be. -/
def nonConstant (method expected : String) (expr : Expr) : CompileError :=
  .nonConstantArgument method expr.text expected

/-- The natural number that an argument has to be. -/
def requireCount (method : String) (expr : Expr) : Except CompileError Nat :=
  match expr.constant?.bind Value.integer? with
  | some (.ofNat count) => .ok count
  | _ => .error (expr.nonConstant method "non-negative integer")

end Expr

/-- The body of a lambda over the elements of the leaf with its parameter replaced. It may read no
other resource. -/
def Chain.boundBody (chain : Chain) (clause : String) (f : Lambda) : Except CompileError Expr := do
  let param ← f.single
  if (chain.referenced param.name f.body).all fun id => id == chain.leaf.id then
    pure (chain.bindInput param.name f.body)
  else throw (.crossResourceReference clause f.body.text)

end ServiceQuery
