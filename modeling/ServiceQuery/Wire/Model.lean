import ServiceQuery.Config.Basic
import ServiceQuery.Model.Basic
import ServiceQuery.Wire.Value

/-!
# Models and configurations as JSON

A model is an object with the types, entity sets and singletons of a service. A type without keys
is a complex type.
-/

namespace ServiceQuery

/-- The JSON form of a member. -/
def PropertyDef.toJson (property : PropertyDef) : Json :=
  .object
    [("name", .string property.name), ("ty", property.ty.toJson),
      ("navigation", .bool property.navigation)]

namespace Model

/-- A navigation: its name, its target and whether it leads to a collection. -/
def navigationOfJson? : Json → Option (String × String × Bool)
  | .array [.string name, .string target, .bool collection] => some (name, target, collection)
  | _ => none

/-- Declares structural properties and navigations of a type. -/
def withMembers (model : Model) (owner : String) (properties : List (String × Ty))
    (navigations : List (String × String × Bool)) : Model :=
  let model := properties.foldl (fun model (name, ty) => model.structural owner name ty) model
  navigations.foldl
    (fun model (name, target, collection) => model.navigation owner name target collection) model

/-- Declares the type that a JSON value describes. -/
def addType? (model : Model) (json : Json) : Option Model := do
  let fields ← json.fields?
  let name ← (← Json.field? "name" fields).string?
  let declared ←
    match (← Json.optional? "keys" fields).getD .null with
    | .null => pure (model.complexType name)
    | keys => model.entityType name <$> keys.list? Json.string?
  let properties ← (← Json.field? "props" fields).list? (Json.named? Ty.ofJson?)
  let navigations ← (← Json.field? "navs" fields).list? navigationOfJson?
  pure (declared.withMembers name properties navigations)

/-- Declares entity sets and singletons. -/
def withResources (model : Model) (sets singletons : List (String × String)) : Model :=
  let model := sets.foldl (fun model (name, entity) => model.entitySet name entity) model
  singletons.foldl (fun model (name, entity) => model.singleton name entity) model

/-- The model that a JSON value describes. -/
def ofJson? (json : Json) : Option Model := do
  let fields ← json.fields?
  let model ← (← (← Json.field? "types" fields).items?).foldlM addType? {}
  let sets ← (← Json.field? "sets" fields).list? (Json.named? Json.string?)
  let singletons ← (← Json.field? "singletons" fields).list? (Json.named? Json.string?)
  pure (model.withResources sets singletons)

end Model

/-- The version that a JSON value encodes. -/
def ProtocolVersion.ofJson? : Json → Option ProtocolVersion
  | .string "4.0" => some v40
  | .string "4.01" => some v401
  | _ => none

/-- A field that keeps its default when it is missing. -/
def Json.withDefault? {α : Type} (name : String) (default : α) (decode : Json → Option α)
    (fields : List (String × Json)) : Option α := do
  match ← Json.optional? name fields with
  | some json => decode json
  | none => pure default

/-- The configuration that a JSON value encodes; null is the default one. -/
def Config.ofJson? : Json → Option Config
  | .null => some {}
  | .object fields => do
    let config : Config := {}
    let baseUri ← Json.withDefault? "base_uri" config.baseUri Json.string? fields
    let keyAsSegment ← Json.withDefault? "key_as_segment" config.keyAsSegment Json.bool? fields
    let maxVersion ← Json.withDefault? "max_protocol_version" config.maxVersion
      ProtocolVersion.ofJson? fields
    let partialEvaluation ← Json.withDefault? "partial_evaluation" config.partialEvaluation
      Json.bool? fields
    pure ⟨baseUri, keyAsSegment, maxVersion, partialEvaluation⟩
  | _ => none

/-- The JSON form of a configuration. -/
def Config.toJson (config : Config) : Json :=
  .object
    [("base_uri", .string config.baseUri),
      ("key_as_segment", .bool config.keyAsSegment),
      ("max_protocol_version", .string config.maxVersion.text),
      ("partial_evaluation", .bool config.partialEvaluation)]

end ServiceQuery
