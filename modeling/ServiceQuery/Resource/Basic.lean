import ServiceQuery.Resource.Apply
import ServiceQuery.Resource.Custom
import ServiceQuery.Resource.Option

/-!
# Resources

A bound query is a chain of resources: a root of the service, followed by navigations, each of
which carries the options that apply to it.
-/

namespace ServiceQuery

/-- How many elements a resource has. -/
inductive ResourceKind where
  /-- A collection, or the one element of it that a key selects. -/
  | set (key : Option (List (String × Value)))
  /-- A root that is a single element. -/
  | singleton
  /-- A navigation to a single element. -/
  | toOne

/-- Stands for a record of the elements of a navigation and of its source: operators that follow
reach both through the members of the record. -/
structure TransparentScope where
  /-- The fields of the record type. -/
  fields : List (String × Ty)
  /-- The member that is the element of the resource itself. -/
  inner : String
  /-- The member that is the element of an earlier resource. -/
  outer : Option (String × ResourceId)
  deriving DecidableEq

/-- Whether a type is the record type of the scope. -/
def TransparentScope.describes (scope : TransparentScope) (ty : Ty) : Bool :=
  ty == .record scope.fields

/-- The selector of a projection and the paths it reads. -/
structure Projection where
  selector : Lambda
  paths : List String

/-- One resource of a chain with its options. -/
structure Resource where
  id : ResourceId
  kind : ResourceKind
  name : String
  /-- What the resource is, if it is a root. -/
  origin : Option RootKind
  elementType : Ty
  sequence : List SequenceOption := []
  expand : List String := []
  count : CountOption := .none
  custom : CustomOptions := {}
  projection : Option Projection := none
  apply : Option Apply := none
  scope : Option TransparentScope := none
  /-- Whether the number of elements is addressed in place of the elements. -/
  countSegment : Bool := false
  /-- The predicate that the key stands for, if the key was found in one. -/
  keyFilter : Option Expr := none

namespace Resource

/-- A root of the service. -/
def ofRoot (id : ResourceId) (root : ResourceRoot) : Resource where
  id := id
  kind := if root.isCollection then .set none else .singleton
  name := root.name
  origin := some root.kind
  elementType := root.elementType

/-- A navigation. -/
def ofNavigation (id : ResourceId) (name : String) (elementType : Ty) (collection : Bool) :
    Resource where
  id := id
  kind := if collection then .set none else .toOne
  name := name
  origin := none
  elementType := elementType

/-- A reference to the element of the resource. -/
def inputRef (resource : Resource) : InputRef := ⟨resource.id, resource.elementType⟩

/-- The values of the key that selects one element. -/
def key? (resource : Resource) : Option (List (String × Value)) :=
  match resource.kind with
  | .set key => key
  | _ => none

/-- Whether the resource is a collection, or an element of one selected by a key. -/
def isSet (resource : Resource) : Bool :=
  match resource.kind with
  | .set _ => true
  | _ => false

/-- Whether the resource has one element. -/
def isSingle (resource : Resource) : Bool :=
  match resource.kind with
  | .set key => key.isSome
  | _ => true

/-- Whether the resource is an action. -/
def isAction (resource : Resource) : Bool :=
  match resource.origin with
  | some (.action _) => true
  | _ => false

/-- The predicates of the first filter. -/
def filter? (resource : Resource) : Option (List Expr) :=
  resource.sequence.findSome? fun
    | .filter predicates => some predicates
    | _ => none

/-- The selectors of the first ordering. -/
def orderBy? (resource : Resource) : Option (List OrderSelector) :=
  resource.sequence.findSome? fun
    | .orderBy selectors => some selectors
    | _ => none

/-- The first skipped count. -/
def skip? (resource : Resource) : Option Nat :=
  resource.sequence.findSome? fun
    | .skip count => some count
    | _ => none

/-- The first taken count. -/
def take? (resource : Resource) : Option Nat :=
  resource.sequence.findSome? fun
    | .take count => some count
    | _ => none

/-- Adds a sequence option, composed with an earlier one of its kind. -/
def addOption (resource : Resource) (option : SequenceOption) : Resource :=
  { resource with sequence := option.insert resource.sequence }

/-- Whether an option is a filter. -/
def isFilter : SequenceOption → Bool
  | .filter _ => true
  | _ => false

/-- Removes the first filter. -/
def withoutFilter (resource : Resource) : Resource :=
  { resource with sequence := resource.sequence.eraseP isFilter }

/-- Selects one element of a collection by its key. -/
def withKey (resource : Resource) (key : List (String × Value)) : Resource :=
  match resource.kind with
  | .set _ => { resource with kind := .set (some key) }
  | _ => resource

/-- Selects one element by its key and keeps the predicate that the key was found in. -/
def withKeyFilter (resource : Resource) (key : List (String × Value)) (predicate : Expr) :
    Resource :=
  { resource.withKey key with keyFilter := some predicate }

/-- Turns a key that was found in a predicate back into a filter. -/
def demoteKey (resource : Resource) : Resource :=
  match resource.keyFilter with
  | none => resource
  | some predicate =>
    let kind :=
      match resource.kind with
      | .set _ => .set none
      | kind => kind
    { resource with keyFilter := none, kind := kind }.addOption (.filter [predicate])

/-- Adds a path to expand unless it is there. -/
def addExpand (resource : Resource) (path : String) : Resource :=
  if resource.expand.contains path then resource
  else { resource with expand := resource.expand ++ [path] }

/-- Sets a custom option. -/
def withCustom (resource : Resource) (name value : String) : Resource :=
  { resource with custom := resource.custom.insert name value }

end Resource

/-- A resource and the resources it is reached through, nearest first. -/
structure Chain where
  leaf : Resource
  ancestors : List Resource := []

namespace Chain

/-- The resources of a chain, root first. -/
def resources (chain : Chain) : List Resource := (chain.leaf :: chain.ancestors).reverse

/-- The first resource with the given number, root first. -/
def find? (chain : Chain) (id : ResourceId) : Option Resource :=
  chain.resources.find? fun resource => resource.id == id

/-- The chain with its leaf changed. -/
def mapLeaf (chain : Chain) (f : Resource → Resource) : Chain :=
  { chain with leaf := f chain.leaf }

/-- The chain extended by a navigation. -/
def push (chain : Chain) (resource : Resource) : Chain :=
  ⟨resource, chain.leaf :: chain.ancestors⟩

end Chain

end ServiceQuery
