import ServiceQuery.Error

/-!
# Service models

A service model declares entity types and complex types with their members, and the entity sets
and singletons of a service.
-/

namespace ServiceQuery

/-- A declared member of a structured type. -/
structure PropertyDef where
  name : String
  ty : Ty
  navigation : Bool
  deriving DecidableEq

/-- What the compiler asks about a service. -/
structure Metadata where
  /-- The element type of an entity set. -/
  entitySetType : String → Except CompileError Ty
  /-- The type of a singleton. -/
  singletonType : String → Except CompileError Ty
  /-- The names of the keys of an entity type, in declaration order. -/
  keyProperties : String → Except CompileError (List String)
  /-- A member of an entity type or complex type. -/
  property : String → String → Except CompileError PropertyDef

/-- The member `name` of a type: collections have the members of their elements, and a nullable
wrapper is ignored. -/
def Metadata.member (metadata : Metadata) (name : String) : Ty → Except CompileError PropertyDef
  | .entity owner | .complex owner => metadata.property owner name
  | .collection of => metadata.member name of
  | .nullable (.entity owner) | .nullable (.complex owner) => metadata.property owner name
  | .nullable (.collection of) => metadata.member name of
  | .nullable other => .error (.unknownMember other.text name)
  | other => .error (.unknownMember other.text name)

/-- The declaration of an entity type or complex type. -/
structure StructuredType where
  keys : List String := []
  properties : List PropertyDef := []

/-- The declarations of a service. -/
structure Model where
  entitySets : List (String × String) := []
  singletons : List (String × String) := []
  types : List (String × StructuredType) := []

namespace Model

/-- Updates the declaration of a type, starting from an empty one. -/
def updateType (name : String) (update : StructuredType → StructuredType) :
    List (String × StructuredType) → List (String × StructuredType)
  | [] => [(name, update {})]
  | (other, declared) :: rest =>
    if other = name then (other, update declared) :: rest
    else (other, declared) :: updateType name update rest

/-- Declares an entity type with its keys. -/
def entityType (model : Model) (name : String) (keys : List String) : Model :=
  { model with types := updateType name (fun ty => { ty with keys := keys }) model.types }

/-- Declares a complex type. -/
def complexType (model : Model) (name : String) : Model :=
  { model with types := updateType name id model.types }

/-- Declares a member of a type. -/
def addProperty (model : Model) (owner : String) (property : PropertyDef) : Model :=
  let add (ty : StructuredType) := { ty with properties := ty.properties ++ [property] }
  { model with types := updateType owner add model.types }

/-- Declares a structural property. -/
def structural (model : Model) (owner name : String) (ty : Ty) : Model :=
  model.addProperty owner ⟨name, ty, false⟩

/-- Declares a navigation to one entity or to a collection of entities. -/
def navigation (model : Model) (owner name target : String) (collection : Bool) : Model :=
  model.addProperty owner
    ⟨name, if collection then .collection (.entity target) else .entity target, true⟩

/-- Declares an entity set; a later declaration wins. -/
def entitySet (model : Model) (name entity : String) : Model :=
  { model with entitySets := (name, entity) :: model.entitySets }

/-- Declares a singleton; a later declaration wins. -/
def singleton (model : Model) (name entity : String) : Model :=
  { model with singletons := (name, entity) :: model.singletons }

/-- The declaration of a type. -/
def structured (model : Model) (name : String) : Except CompileError StructuredType :=
  match model.types.lookup name with
  | some declared => .ok declared
  | none => .error (.unknownResource name)

/-- The entity type that a name stands for in a list of sets or singletons. -/
def entityOf (declared : List (String × String)) (name : String) : Except CompileError Ty :=
  match declared.lookup name with
  | some entity => .ok (.entity entity)
  | none => .error (.unknownResource name)

/-- The first declared member of a type with the given name. -/
def property (model : Model) (owner name : String) : Except CompileError PropertyDef := do
  let declared ← model.structured owner
  match declared.properties.find? fun property => property.name == name with
  | some property => pure property
  | none => .error (.unknownMember owner name)

/-- The answers that a model gives. -/
def metadata (model : Model) : Metadata where
  entitySetType := entityOf model.entitySets
  singletonType := entityOf model.singletons
  keyProperties name := StructuredType.keys <$> model.structured name
  property := model.property

end Model

end ServiceQuery
