import ServiceQuery.Model.Basic
import ServiceQuery.Resource.Input

/-!
# Keys in predicates

A predicate that compares exactly the keys of an entity with constants selects one entity, which
has an address of its own.
-/

namespace ServiceQuery

namespace Expr

/-- The predicates that a conjunction joins, from left to right. -/
def conjuncts : Expr → List Expr
  | binary .andAlso left right => left.conjuncts ++ right.conjuncts
  | expr => [expr]

/-- The member of the element of `target` and the constant, other than null, that an equation
compares. -/
def keyComparison? (target : ResourceId) : Expr → Option (String × Value)
  | binary .equal left right =>
    let compared : Option (Expr × Value) :=
      match left.constant?, right.constant? with
      | none, some value => some (left, value)
      | some value, none => some (right, value)
      | _, _ => none
    match compared with
    | none | some (_, .null) => none
    | some (operand, value) =>
      match operand.memberChain? with
      | some (input ref, [name]) => if ref.target == target then some (name, value) else none
      | _ => none
  | _ => none

end Expr

/-- The comparisons of a list of predicates, if each one is a comparison of a different key. -/
def keyComparisons? (keys : List String) (target : ResourceId)
    (found : List (String × Value)) : List Expr → Option (List (String × Value))
  | [] => some found
  | predicate :: rest =>
    match predicate.keyComparison? target with
    | none => none
    | some (name, value) =>
      if keys.contains name && !(found.map Prod.fst).contains name then
        keyComparisons? keys target (found ++ [(name, value)]) rest
      else none

/-- Puts the values of all keys into the order of the keys. -/
def inKeyOrder? (keys : List String) (found : List (String × Value)) :
    Option (List (String × Value)) :=
  if found.length = keys.length then
    keys.mapM fun key => (found.lookup key).map fun value => (key, value)
  else none

namespace Resource

/-- Whether a predicate on the resource may become a key: nothing else has been asked of it. -/
def acceptsKey (resource : Resource) : Bool :=
  resource.isSet && resource.sequence.isEmpty && resource.projection.isNone &&
    resource.apply.isNone

/-- The key that a bound predicate gives, in the order in which the entity type declares its
keys. -/
def keyIn (metadata : Metadata) (resource : Resource) (predicate : Expr) :
    Except CompileError (Option (List (String × Value))) :=
  match resource.elementType with
  | .entity entity =>
    if resource.acceptsKey then do
      let keys ← metadata.keyProperties entity
      pure ((keyComparisons? keys resource.id [] predicate.conjuncts).bind (inKeyOrder? keys))
    else .ok none
  | _ => .ok none

/-- The resource under another number: what it holds about its own element follows. -/
def renumber (resource : Resource) (id : ResourceId) : Resource :=
  let follow := Expr.retarget resource.id id
  { resource with
    id := id
    sequence := resource.sequence.map fun
      | .filter predicates => .filter (predicates.map follow)
      | .orderBy selectors =>
        .orderBy (selectors.map fun selector => { selector with expr := follow selector.expr })
      | option => option
    keyFilter := resource.keyFilter.map follow
    apply := resource.apply.map fun apply =>
      { apply with
        predicates := apply.predicates.map follow
        grouping := apply.grouping.map follow } }

end Resource

end ServiceQuery
