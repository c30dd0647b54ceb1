import ServiceQuery.Model.Basic
import ServiceQuery.Model.TypeText
import ServiceQuery.Toml.Parser

namespace ServiceQuery

/-- Why a model file cannot be used. -/
inductive ModelError where
  /-- The text is no TOML, or a value is of the wrong type. -/
  | malformed
  /-- The type of a property or the target of a navigation is not declared. -/
  | unknownType (owner property ty : String)
  /-- An entity set or a singleton is of an entity type that is not declared. -/
  | unknownEntityType (name ty : String)
  deriving DecidableEq

/-- The text of a model error, apart from a malformed file. -/
def ModelError.message : ModelError → String
  | malformed => "not a model"
  | unknownType owner property ty =>
    "property '" ++ owner ++ "." ++ property ++ "' has unknown type '" ++ ty ++ "'"
  | unknownEntityType name ty =>
    "'" ++ name ++ "' refers to undeclared entity type '" ++ ty ++ "'"

/-- A navigation in a model file. -/
structure NavigationEntry where
  target : String
  collection : Bool

/-- A type in a model file. -/
structure TypeEntry where
  keys : List String
  properties : List (String × String)
  navigation : List (String × NavigationEntry)

/-- The tables of a model file, each sorted by name. -/
structure ModelFile where
  entitySets : List (String × String)
  singletons : List (String × String)
  entityTypes : List (String × TypeEntry)
  complexTypes : List (String × TypeEntry)

/-- The navigation that a TOML table gives. -/
def NavigationEntry.ofToml? (toml : Toml) : Option NavigationEntry := do
  let entries ← toml.record? ["target", "collection"] 1
  let target ← (← entries.lookup "target").string?
  let collection ← Toml.entry? "collection" false Toml.boolean? entries
  pure ⟨target, collection⟩

/-- The type that a TOML table gives. -/
def TypeEntry.ofToml? (toml : Toml) : Option TypeEntry := do
  let entries ← toml.record? ["keys", "properties", "navigation"] 0
  let keys ← Toml.entry? "keys" [] (Toml.list? Toml.string?) entries
  let properties ← Toml.entry? "properties" [] (Toml.map? Toml.string?) entries
  let navigation ← Toml.entry? "navigation" [] (Toml.map? NavigationEntry.ofToml?) entries
  pure ⟨keys, properties, navigation⟩

/-- The tables of a model file that a TOML document gives. -/
def ModelFile.ofToml? (toml : Toml) : Option ModelFile := do
  let entries ← toml.table?
  let entitySets ← Toml.entry? "entity_sets" [] (Toml.map? Toml.string?) entries
  let singletons ← Toml.entry? "singletons" [] (Toml.map? Toml.string?) entries
  let entityTypes ← Toml.entry? "entity_types" [] (Toml.map? TypeEntry.ofToml?) entries
  let complexTypes ← Toml.entry? "complex_types" [] (Toml.map? TypeEntry.ofToml?) entries
  pure ⟨entitySets, singletons, entityTypes, complexTypes⟩

namespace ModelFile

/-- The declared complex types. -/
def complexNames (file : ModelFile) : List String := file.complexTypes.map Prod.fst

/-- Whether an entity type is declared. -/
def declaresEntity (file : ModelFile) (name : String) : Bool :=
  (file.entityTypes.map Prod.fst).contains name

/-- The model with the types of a file, still without members. -/
def emptyTypes (file : ModelFile) : Model :=
  let model := file.complexNames.foldl Model.complexType {}
  file.entityTypes.foldl (fun model (name, entry) => model.entityType name entry.keys) model

/-- Declares a structural property. -/
def addProperty (file : ModelFile) (owner : String) (model : Model) :
    String × String → Except ModelError Model
  | (name, text) =>
    match TypeText.parse file.complexNames text.toList with
    | some ty => .ok (model.structural owner name ty)
    | none => .error (.unknownType owner name text)

/-- Declares a navigation. -/
def addNavigation (file : ModelFile) (owner : String) (model : Model) :
    String × NavigationEntry → Except ModelError Model
  | (name, entry) =>
    if file.declaresEntity entry.target then
      .ok (model.navigation owner name entry.target entry.collection)
    else .error (.unknownType owner name entry.target)

/-- Declares the members of a type. -/
def addMembers (file : ModelFile) (model : Model) :
    String × TypeEntry → Except ModelError Model
  | (owner, entry) => do
    let model ← entry.properties.foldlM (file.addProperty owner) model
    entry.navigation.foldlM (file.addNavigation owner) model

/-- Declares an entity set or a singleton after a check of its entity type. -/
def addResource (file : ModelFile) (declare : Model → String → String → Model) (model : Model) :
    String × String → Except ModelError Model
  | (name, entity) =>
    if file.declaresEntity entity then .ok (declare model name entity)
    else .error (.unknownEntityType name entity)

/-- The model that a file declares. -/
def toModel (file : ModelFile) : Except ModelError Model := do
  let model ← (file.entityTypes ++ file.complexTypes).foldlM file.addMembers file.emptyTypes
  let model ← file.entitySets.foldlM (file.addResource Model.entitySet) model
  file.singletons.foldlM (file.addResource Model.singleton) model

end ModelFile

/-- Reads a model file. -/
def Model.ofToml (text : String) : Except ModelError Model :=
  match (Toml.parse text).bind ModelFile.ofToml? with
  | some file => file.toModel
  | none => .error .malformed

end ServiceQuery
