import ServiceQuery.Json.Basic
import ServiceQuery.Value

/-!
# Types and values as JSON

A type is an object with the tag `kind` and, where it has one, the payload `of`; a value is an
object with the tag `t` and the payload `v`. An array of tag and payload is read too.
-/

namespace ServiceQuery

namespace Json

/-- A tagged object with a payload. -/
def tagged (tagName tag contentName : String) (content : Json) : Json :=
  object [(tagName, string tag), (contentName, content)]

/-- A tagged object without a payload. -/
def bare (tagName tag : String) : Json := object [(tagName, string tag)]

/-- A pair as an array of two items. -/
def pair (first second : Json) : Json := array [first, second]

/-- The items of an array of two items. -/
def pair? : Json → Option (Json × Json)
  | array [first, second] => some (first, second)
  | _ => none

/-- A tag and its payload, from an object or an array; a payload missing in an object reads as
null. -/
def tagged? (tagName contentName : String) : Json → Option (String × Json)
  | object fields => do
    let tag ← (← field? tagName fields).string?
    let content ← optional? contentName fields
    pure (tag, content.getD null)
  | array [string tag, content] => some (tag, content)
  | _ => none

/-- The tag of a record among its fields, from an object or an array that begins with the tag; the
names of the fields of an array depend on it. -/
def node? (tagName : String) (names : String → List String) :
    Json → Option (String × List (String × Json))
  | object fields => do
    let tag ← (← field? tagName fields).string?
    pure (tag, fields)
  | array (string tag :: items) => do
    let fields ← (array items).record? (names tag)
    pure (tag, fields)
  | _ => none

/-- Succeeds on null only. -/
def null? : Json → Option Unit
  | null => some ()
  | _ => none

/-- A named item from an array of a name and a value. -/
def named? {α : Type} (decode : Json → Option α) (json : Json) : Option (String × α) := do
  let (name, value) ← json.pair?
  pure (← name.string?, ← decode value)

/-- An array decoded item by item. -/
def list? {α : Type} (decode : Json → Option α) (json : Json) : Option (List α) := do
  (← json.items?).mapM decode

end Json

namespace Ty

mutual

/-- The JSON form of a type. -/
def toJson : Ty → Json
  | bool => .bare "kind" "bool"
  | int32 => .bare "kind" "int32"
  | int64 => .bare "kind" "int64"
  | single => .bare "kind" "single"
  | double => .bare "kind" "double"
  | decimal => .bare "kind" "decimal"
  | string => .bare "kind" "string"
  | object => .bare "kind" "object"
  | nullable of => .tagged "kind" "nullable" "of" of.toJson
  | entity name => .tagged "kind" "entity" "of" (.string name)
  | complex name => .tagged "kind" "complex" "of" (.string name)
  | collection of => .tagged "kind" "collection" "of" of.toJson
  | record fields =>
    .tagged "kind" "record" "of" (.object [("fields", .array (fieldsToJson fields))])
  | grouping key element =>
    .tagged "kind" "grouping" "of" (.object [("key", key.toJson), ("element", element.toJson)])

/-- The JSON forms of the fields of a record type. -/
def fieldsToJson : List (String × Ty) → List Json
  | [] => []
  | (name, ty) :: rest => .pair (.string name) ty.toJson :: fieldsToJson rest

end

/-- The fields of a record type from their JSON form, given a decoder for the types. -/
def recordFields? (decode : Json → Option Ty) (json : Json) : Option (List (String × Ty)) := do
  (← Json.field? "fields" (← json.record? ["fields"])).list? (Json.named? decode)

/-- Decodes a type; `fuel` bounds the nesting. -/
def decode : Nat → Json → Option Ty
  | 0, _ => none
  | fuel + 1, json => do
    match ← json.tagged? "kind" "of" with
    | ("bool", content) => content.null?.map fun _ => bool
    | ("int32", content) => content.null?.map fun _ => int32
    | ("int64", content) => content.null?.map fun _ => int64
    | ("single", content) => content.null?.map fun _ => single
    | ("double", content) => content.null?.map fun _ => double
    | ("decimal", content) => content.null?.map fun _ => decimal
    | ("string", content) => content.null?.map fun _ => string
    | ("object", content) => content.null?.map fun _ => object
    | ("nullable", content) => nullable <$> decode fuel content
    | ("entity", content) => entity <$> content.string?
    | ("complex", content) => complex <$> content.string?
    | ("collection", content) => collection <$> decode fuel content
    | ("record", content) => record <$> recordFields? (decode fuel) content
    | ("grouping", content) =>
      let fields ← content.fields?
      let key ← decode fuel (← Json.field? "key" fields)
      let element ← decode fuel (← Json.field? "element" fields)
      pure (grouping key element)
    | _ => none

/-- The type that a JSON value encodes. -/
def ofJson? (json : Json) : Option Ty := decode json.depth json

end Ty

namespace Value

mutual

/-- The JSON form of a value. -/
def toJson : Value → Json
  | null => .bare "t" "Null"
  | bool b => .tagged "t" "Bool" "v" (.bool b)
  | int32 n => .tagged "t" "Int32" "v" (.integer n.toInt)
  | int64 n => .tagged "t" "Int64" "v" (.integer n.toInt)
  | single x => .tagged "t" "Single" "v" (.single x)
  | double x => .tagged "t" "Double" "v" (.double x)
  | decimal d => .tagged "t" "Decimal" "v" (.string d.text)
  | string s => .tagged "t" "String" "v" (.string s)
  | array element items =>
    .tagged "t" "Array" "v"
      (.object [("element", element.toJson), ("items", .array (itemsToJson items))])
  | record fields => .tagged "t" "Record" "v" (.array (fieldsToJson fields))

/-- The JSON forms of the items of an array. -/
def itemsToJson : List Value → List Json
  | [] => []
  | item :: rest => item.toJson :: itemsToJson rest

/-- The JSON forms of the fields of a record. -/
def fieldsToJson : List (String × Value) → List Json
  | [] => []
  | (name, value) :: rest => .pair (.string name) value.toJson :: fieldsToJson rest

end

/-- A double from a JSON number. -/
def doubleOfJson? : Json → Option Float
  | .integer n => some (Float.ofInt n)
  | .double x => some x
  | _ => none

/-- A decimal from a string or number. -/
def decimalOfJson? : Json → Option Decimal
  | .string s => Decimal.ofText? s
  | .integer n => Decimal.ofInt? n
  | .double x => Decimal.ofText? (Number.float64Text x)
  | _ => none

/-- A 32-bit integer from a JSON integer. -/
def int32OfJson? (json : Json) : Option Int32 :=
  (json.integerIn? Int32.minValue.toInt Int32.maxValue.toInt).map Int32.ofInt

/-- A 64-bit integer from a JSON integer. -/
def int64OfJson? (json : Json) : Option Int64 :=
  (json.integerIn? Int64.minValue.toInt Int64.maxValue.toInt).map Int64.ofInt

/-- Decodes a value; `fuel` bounds the nesting. -/
def decode : Nat → Json → Option Value
  | 0, _ => none
  | fuel + 1, json => do
    match ← json.tagged? "t" "v" with
    | ("Null", content) => content.null?.map fun _ => null
    | ("Bool", content) => bool <$> content.bool?
    | ("Int32", content) => int32 <$> int32OfJson? content
    | ("Int64", content) => int64 <$> int64OfJson? content
    | ("Single", content) => (fun x => single x.toFloat32) <$> doubleOfJson? content
    | ("Double", content) => double <$> doubleOfJson? content
    | ("Decimal", content) => decimal <$> decimalOfJson? content
    | ("String", content) => string <$> content.string?
    | ("Array", content) =>
      let fields ← content.fields?
      let element ← Ty.ofJson? (← Json.field? "element" fields)
      let items ← (← Json.field? "items" fields).list? (decode fuel)
      pure (array element items)
    | ("Record", content) => record <$> content.list? (Json.named? (decode fuel))
    | _ => none

/-- The value that a JSON value encodes. -/
def ofJson? (json : Json) : Option Value := decode json.depth json

end Value

end ServiceQuery
