import ServiceQuery.Path.Basic
import ServiceQuery.Wire.Value

namespace ServiceQuery

/-- The JSON form of named texts, as pairs. -/
def Json.namedTexts (named : List (String × String)) : Json :=
  .array (named.map fun (name, value) => .pair (.string name) (.string value))

namespace Segment

/-- The JSON form of a segment. -/
def toJson : Segment → Json
  | system identifier => .object [("system", .string identifier)]
  | property identifier values structural =>
    .object
      [("id", .string identifier), ("values", .namedTexts values),
        ("structural", .bool structural)]

/-- The segment that a JSON value encodes; a segment without values need not say so. -/
def ofJson? (json : Json) : Option Segment := do
  let fields ← json.fields?
  match ← Json.optional? "system" fields with
  | some identifier => system <$> identifier.string?
  | none =>
    let identifier ← (← Json.field? "id" fields).string?
    let values ←
      match ← Json.optional? "values" fields with
      | some values => values.list? (Json.named? Json.string?)
      | none => pure []
    let structural ← (← Json.field? "structural" fields).bool?
    pure (property identifier values structural)

end Segment

/-- The JSON form of a path. -/
def Path.toJson (path : Path) : Json :=
  if path.isEmpty then .null else .array (path.map Segment.toJson)

end ServiceQuery
