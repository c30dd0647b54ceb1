import ServiceQuery.Binding.Guard
import ServiceQuery.Model.Basic

namespace ServiceQuery

/-- Binding with the next resource number as its state. -/
abbrev BindM := StateT ResourceId (Except CompileError)

namespace Binding

/-- The next resource number. -/
def freshId : BindM ResourceId := modifyGet fun next => (next, next + 1)

/-- The members along a chain of names, if all are navigations. -/
def navigationsAlong (metadata : Metadata) (owner : Ty) :
    List String → Except CompileError (Option (List PropertyDef))
  | [] => .ok (some [])
  | name :: rest => do
    let property ← metadata.member name owner
    if property.navigation then
      let following ← navigationsAlong metadata property.ty rest
      pure (following.map (property :: ·))
    else pure none

/-- The navigations that a selector follows from the element of a resource. -/
def navigations? (metadata : Metadata) (resource : Resource) (selector : Lambda) :
    Except CompileError (Option (List PropertyDef)) :=
  match selector.param? with
  | none => .ok none
  | some param =>
    match selector.body.chainFrom? param.name with
    | none | some [] => .ok none
    | some names =>
      if param.ty == resource.elementType then
        navigationsAlong metadata resource.elementType names
      else .ok none

/-- Whether a member is a collection. -/
def isCollection (property : PropertyDef) : Bool := property.ty.elementType?.isSome

/-- Whether the last of the members, and no other, is a collection. -/
def endsInCollection (properties : List PropertyDef) : Bool :=
  match properties.reverse with
  | last :: rest => isCollection last && rest.all fun property => !isCollection property
  | [] => false

/-- The chain extended by one navigation. -/
def follow (chain : Chain) (property : PropertyDef) : BindM Chain := do
  let id ← freshId
  let element := (property.ty.elementType?.getD property.ty).nonNullable
  pure (chain.push (.ofNavigation id property.name element (isCollection property)))

/-- The chain extended by navigations. They start at a single element that carries no option. -/
def navigate (method : String) (chain : Chain) (properties : List PropertyDef) : BindM Chain := do
  if !chain.leaf.isSingle then
    throw (.navigationRequiresSingleSource ((properties.head?.map PropertyDef.name).getD ""))
  match chain.leaf.applied with
  | after :: _ => throw (.unsupportedAfter method after)
  | [] => properties.foldlM follow chain

/-- The last member that is the given parameter. -/
def lastNamed? (members : List (String × Expr)) (param : String) : Option String :=
  (members.reverse.find? fun member => member.2.isParameter param).map Prod.fst

/-- The scope of a result selector that builds a record of the source element and the target
element, of which the latter has to be there. -/
def transparentScope? (result : Lambda) (source : ResourceId) : Option TransparentScope :=
  match result.params, result.body with
  | [outer, inner], .newRecord (.record fields) members =>
    if members.all fun (_, expr) => expr.isParameter inner.name || expr.isParameter outer.name then
      let outers := members.filter fun (_, expr) => !expr.isParameter inner.name
      (lastNamed? members inner.name).map fun name =>
        ⟨fields, name, (lastNamed? outers outer.name).map fun name => (name, source)⟩
    else none
  | _, _ => none

end Binding

end ServiceQuery
