import ServiceQuery.Resource.Basic
import ServiceQuery.Expr.Text
import ServiceQuery.Wire.Expr
import ServiceQuery.Wire.Path

namespace ServiceQuery

/-- The JSON form of an optional part. -/
def Json.ofOption {α : Type} (encode : α → Json) : Option α → Json
  | some a => encode a
  | none => .null

/-- An optional part, which is null when it is not there. -/
def Json.option? {α : Type} (decode : Json → Option α) : Json → Option (Option α)
  | .null => some none
  | json => some <$> decode json

/-- The JSON form of a list of texts. -/
def Json.texts (items : List String) : Json := .array (items.map .string)

/-- The text of a lambda as JSON. -/
def Lambda.textJson (f : Lambda) : Json := .string f.toExpr.text

namespace OrderSelector

/-- The JSON form of a key of an ordering. -/
def toJson (selector : OrderSelector) : Json :=
  .pair selector.expr.toJson (.bool selector.descending)

/-- The key of an ordering that a JSON value encodes. -/
def ofJson? : Json → Option OrderSelector
  | .array [expr, .bool descending] => (Expr.ofJson? expr).map (⟨·, descending⟩)
  | _ => none

end OrderSelector

namespace SequenceOption

/-- A count from a JSON integer. -/
def countOfJson? (json : Json) : Option Nat := (json.integerIn? 0 maxCount).map Int.toNat

/-- The JSON form of an option: the name of its operator and what it holds. -/
def toJson (option : SequenceOption) : Json :=
  .pair (.string option.methodName)
    (match option with
    | filter predicates => .array (predicates.map Expr.toJson)
    | orderBy selectors => .array (selectors.map OrderSelector.toJson)
    | skip count | take count => .integer count)

/-- The option with the given keyword, read from the fields of an object. -/
def ofFields? (keyword : String) (fields : List (String × Json)) : Option SequenceOption := do
  match keyword with
  | "filter" => filter <$> (← Json.field? "predicates" fields).list? Expr.ofJson?
  | "orderby" => orderBy <$> (← Json.field? "selectors" fields).list? OrderSelector.ofJson?
  | "skip" => skip <$> countOfJson? (← Json.field? "count" fields)
  | "take" => take <$> countOfJson? (← Json.field? "count" fields)
  | _ => none

end SequenceOption

/-- The JSON name of a count option. -/
def CountOption.tag : CountOption → String
  | none => "none"
  | true => "true"
  | false => "false"

/-- The count option that a JSON value encodes. -/
def CountOption.ofJson? : Json → Option CountOption
  | .string "none" => some none
  | .string "true" => some true
  | .string "false" => some false
  | _ => Option.none

/-- The aggregation method that a JSON value names. -/
def AggregationMethod.ofJson? (json : Json) : Option AggregationMethod := do
  let name ← json.string?
  let method ← ofMethod? name
  if method.name == name then some method else none

namespace Aggregation

/-- The fields of the JSON form of an aggregation. -/
def toFields (aggregation : Aggregation) : List (String × Json) :=
  [("expr", .ofOption Expr.toJson aggregation.expr),
    ("method", .string aggregation.method.name), ("alias", .string aggregation.name)]

/-- The JSON form of an aggregation with the word for its method. -/
def toJson (aggregation : Aggregation) : Json :=
  .object (aggregation.toFields ++ [("keyword", .string aggregation.method.keyword)])

/-- The aggregation that an array of expression, method and name encodes. -/
def ofJson? : Json → Option Aggregation
  | .array [expr, method, .string name] => do
    let expr ← Json.option? Expr.ofJson? expr
    let method ← AggregationMethod.ofJson? method
    pure ⟨expr, method, name⟩
  | _ => none

end Aggregation

namespace Apply

/-- The JSON form of a grouping. -/
def toJson (apply : Apply) : Json :=
  .object
    [("predicates", .array (apply.predicates.map Expr.toJson)),
      ("grouping", .array (apply.grouping.map Expr.toJson)),
      ("keys", .array (Expr.membersToJson apply.keys)),
      ("members", .array (Expr.membersToJson apply.members)),
      ("aggregations", .array (apply.aggregations.map Aggregation.toJson)),
      ("result", .ofOption Lambda.textJson apply.result), ("empty", .bool apply.isEmpty)]

/-- A grouping without keys, members and result from the fields of an object. -/
def ofFields? (fields : List (String × Json)) : Option Apply := do
  let predicates ← (← Json.field? "predicates" fields).list? Expr.ofJson?
  let grouping ← (← Json.field? "grouping" fields).list? Expr.ofJson?
  let aggregations ← (← Json.field? "aggregations" fields).list? Aggregation.ofJson?
  pure { predicates := predicates, grouping := grouping, aggregations := aggregations }

end Apply

namespace TransparentScope

/-- The JSON form of a scope. -/
def toJson (scope : TransparentScope) : Json :=
  .object
    [("record", .string (Ty.record scope.fields).text), ("inner", .string scope.inner),
      ("outer", .ofOption (fun (name, id) => .pair (.string name) (.integer id)) scope.outer)]

/-- The outer member of a scope that a JSON value encodes. -/
def outerOfJson? : Json → Option (String × ResourceId)
  | .array [.string name, id] => (ResourceId.ofJson? id).map (name, ·)
  | _ => none

/-- The scope that the fields of an object encode. -/
def ofFields? (fields : List (String × Json)) : Option TransparentScope := do
  let record ← Ty.recordFields? Ty.ofJson? (← Json.field? "record" fields)
  let inner ← (← Json.field? "inner" fields).string?
  let outer ← Json.option? outerOfJson? ((← Json.optional? "outer" fields).getD .null)
  pure ⟨record, inner, outer⟩

end TransparentScope

/-- The JSON name of a kind of resource. -/
def ResourceKind.tag : ResourceKind → String
  | set _ => "set"
  | singleton => "singleton"
  | toOne => "navigation_singleton"

/-- The JSON form of a projection: the text of its selector and its paths. -/
def Projection.toJson (projection : Projection) : Json :=
  .pair projection.selector.textJson (.texts projection.paths)

/-- The fields of the JSON form of a resource. -/
def Resource.toFields (resource : Resource) : List (String × Json) :=
  [("id", .integer resource.id), ("kind", .string resource.kind.tag),
    ("key", .ofOption (fun key => .array (Value.fieldsToJson key)) resource.key?),
    ("name", .string resource.name), ("root", .ofOption RootKind.toJson resource.origin),
    ("element", .string resource.elementType.text),
    ("options", .array (resource.sequence.map SequenceOption.toJson)),
    ("expand", .texts resource.expand), ("count", .string resource.count.tag),
    ("custom", .namedTexts resource.custom.entries),
    ("projection", .ofOption Projection.toJson resource.projection),
    ("apply", .ofOption Apply.toJson resource.apply),
    ("scope", .ofOption TransparentScope.toJson resource.scope),
    ("count_segment", .bool resource.countSegment),
    ("key_filter", .ofOption Expr.toJson resource.keyFilter),
    ("single", .bool resource.isSingle), ("action", .bool resource.isAction)]

end ServiceQuery
