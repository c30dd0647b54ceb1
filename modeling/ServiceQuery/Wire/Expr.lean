import ServiceQuery.Expr.Basic
import ServiceQuery.Wire.Value

/-!
# Expressions as JSON

An expression is an object with the tag `node` and the fields of the node. An array of the tag and
the values of all fields is read too.
-/

namespace ServiceQuery

/-- The JSON form of a parameter. -/
def Param.toJson (param : Param) : Json :=
  .object [("name", .string param.name), ("ty", param.ty.toJson)]

/-- The parameter that the fields of an object encode. -/
def Param.ofFields? (fields : List (String × Json)) : Option Param := do
  let name ← (← Json.field? "name" fields).string?
  let ty ← Ty.ofJson? (← Json.field? "ty" fields)
  pure ⟨name, ty⟩

/-- The parameter that a JSON value encodes. -/
def Param.ofJson? (json : Json) : Option Param := do
  Param.ofFields? (← json.record? ["name", "ty"])

/-- The JSON name of a unary operator. -/
def UnaryOp.tag : UnaryOp → String
  | not => "not"
  | negate => "negate"
  | convert => "convert"

/-- The unary operator with the given JSON name. -/
def UnaryOp.ofTag? : String → Option UnaryOp
  | "not" => some not
  | "negate" => some negate
  | "convert" => some convert
  | _ => none

/-- The JSON name of a binary operator. -/
def BinaryOp.tag : BinaryOp → String
  | add => "add"
  | subtract => "subtract"
  | multiply => "multiply"
  | divide => "divide"
  | modulo => "modulo"
  | equal => "equal"
  | notEqual => "not_equal"
  | lessThan => "less_than"
  | lessThanOrEqual => "less_than_or_equal"
  | greaterThan => "greater_than"
  | greaterThanOrEqual => "greater_than_or_equal"
  | andAlso => "and_also"
  | orElse => "or_else"

/-- The binary operator with the given JSON name. -/
def BinaryOp.ofTag? : String → Option BinaryOp
  | "add" => some add
  | "subtract" => some subtract
  | "multiply" => some multiply
  | "divide" => some divide
  | "modulo" => some modulo
  | "equal" => some equal
  | "not_equal" => some notEqual
  | "less_than" => some lessThan
  | "less_than_or_equal" => some lessThanOrEqual
  | "greater_than" => some greaterThan
  | "greater_than_or_equal" => some greaterThanOrEqual
  | "and_also" => some andAlso
  | "or_else" => some orElse
  | _ => none

/-- The JSON form of a kind of root. -/
def RootKind.toJson : RootKind → Json
  | entitySet => .bare "kind" "entity_set"
  | singleton => .bare "kind" "singleton"
  | function parameters returnsCollection =>
    .object
      [("kind", .string "function"), ("parameters", .array (Value.fieldsToJson parameters)),
        ("returns_collection", .bool returnsCollection)]
  | action parameters =>
    .object [("kind", .string "action"), ("parameters", .array (Value.fieldsToJson parameters))]

/-- Named values from their JSON form. -/
def Value.fieldsOfJson? (json : Json) : Option (List (String × Value)) :=
  json.list? (Json.named? Value.ofJson?)

/-- The names of the fields of a kind of root. -/
def RootKind.fieldNames : String → List String
  | "function" => ["parameters", "returns_collection"]
  | "action" => ["parameters"]
  | _ => []

/-- The kind of root that a JSON value encodes. -/
def RootKind.ofJson? (json : Json) : Option RootKind := do
  let (tag, fields) ← json.node? "kind" fieldNames
  match tag with
  | "entity_set" => pure entitySet
  | "singleton" => pure singleton
  | "function" =>
    let parameters ← Value.fieldsOfJson? (← Json.field? "parameters" fields)
    let returnsCollection ← (← Json.field? "returns_collection" fields).bool?
    pure (function parameters returnsCollection)
  | "action" => action <$> Value.fieldsOfJson? (← Json.field? "parameters" fields)
  | _ => none

/-- The fields of the JSON form of a resource root. -/
def ResourceRoot.toFields (root : ResourceRoot) : List (String × Json) :=
  [("name", .string root.name), ("element_type", root.elementType.toJson),
    ("kind", root.kind.toJson)]

/-- The resource root that the fields of an object encode. -/
def ResourceRoot.ofFields? (fields : List (String × Json)) : Option ResourceRoot := do
  let name ← (← Json.field? "name" fields).string?
  let elementType ← Ty.ofJson? (← Json.field? "element_type" fields)
  let kind ← RootKind.ofJson? (← Json.field? "kind" fields)
  pure ⟨name, elementType, kind⟩

/-- The resource root that a JSON value encodes. -/
def ResourceRoot.ofJson? (json : Json) : Option ResourceRoot := do
  ResourceRoot.ofFields? (← json.record? ["name", "element_type", "kind"])

/-- The resource identifier that a JSON value encodes: an integer of 32 bits. -/
def ResourceId.ofJson? (json : Json) : Option ResourceId :=
  (json.integerIn? 0 (UInt32.size - 1)).map Int.toNat

/-- The input reference that the fields of an object encode. -/
def InputRef.ofFields? (fields : List (String × Json)) : Option InputRef := do
  let target ← ResourceId.ofJson? (← Json.field? "target" fields)
  let ty ← Ty.ofJson? (← Json.field? "ty" fields)
  pure ⟨target, ty⟩

/-- The input reference that a JSON value encodes. -/
def InputRef.ofJson? (json : Json) : Option InputRef := do
  InputRef.ofFields? (← json.record? ["target", "ty"])

namespace Expr

/-- An object with the tag `node`. -/
def node (tag : String) (fields : List (String × Json)) : Json :=
  .object (("node", .string tag) :: fields)

mutual

/-- The JSON form of an expression. -/
def toJson : Expr → Json
  | constant value => node "constant" [("value", value.toJson)]
  | parameter param => node "parameter" [("name", .string param.name), ("ty", param.ty.toJson)]
  | member source name ty =>
    node "member" [("expr", source.toJson), ("name", .string name), ("ty", ty.toJson)]
  | invoke receiver method args ty =>
    node "call"
      [("object", receiver.toJson), ("method", .string method), ("args", .array (listToJson args)),
        ("ty", ty.toJson)]
  | call method args ty =>
    node "call"
      [("object", .null), ("method", .string method), ("args", .array (listToJson args)),
        ("ty", ty.toJson)]
  | lambda params body =>
    node "lambda" [("params", .array (params.map Param.toJson)), ("body", body.toJson)]
  | newRecord ty members =>
    node "new" [("ty", ty.toJson), ("members", .array (membersToJson members))]
  | newObject ty members =>
    node "member_init" [("ty", ty.toJson), ("bindings", .array (bindingsToJson members))]
  | newArray element items =>
    node "new_array" [("element", element.toJson), ("items", .array (listToJson items))]
  | unary op operand ty =>
    node "unary" [("op", .string op.tag), ("operand", operand.toJson), ("ty", ty.toJson)]
  | binary op left right =>
    node "binary" [("op", .string op.tag), ("left", left.toJson), ("right", right.toJson)]
  | conditional test whenTrue whenFalse =>
    node "conditional"
      [("test", test.toJson), ("if_true", whenTrue.toJson), ("if_false", whenFalse.toJson)]
  | root origin => node "root" origin.toFields
  | input ref => node "input" [("target", .integer ref.target), ("ty", ref.ty.toJson)]

/-- The JSON forms of a list of expressions. -/
def listToJson : List Expr → List Json
  | [] => []
  | expr :: rest => expr.toJson :: listToJson rest

/-- The JSON forms of named members, as pairs. -/
def membersToJson : List (String × Expr) → List Json
  | [] => []
  | (name, expr) :: rest => .pair (.string name) expr.toJson :: membersToJson rest

/-- The JSON forms of member assignments, as objects. -/
def bindingsToJson : List (String × Expr) → List Json
  | [] => []
  | (name, expr) :: rest =>
    .object [("member", .string name), ("expr", expr.toJson)] :: bindingsToJson rest

end

/-- A member assignment from its JSON form, given a decoder for expressions. -/
def binding? (decode : Json → Option Expr) (json : Json) : Option (String × Expr) := do
  let fields ← json.record? ["member", "expr"]
  let name ← (← Json.field? "member" fields).string?
  let expr ← decode (← Json.field? "expr" fields)
  pure (name, expr)

/-- The names of the fields of a node. -/
def fieldNames : String → List String
  | "constant" => ["value"]
  | "parameter" => ["name", "ty"]
  | "member" => ["expr", "name", "ty"]
  | "call" => ["object", "method", "args", "ty"]
  | "lambda" => ["params", "body"]
  | "new" => ["ty", "members"]
  | "member_init" => ["ty", "bindings"]
  | "new_array" => ["element", "items"]
  | "unary" => ["op", "operand", "ty"]
  | "binary" => ["op", "left", "right"]
  | "conditional" => ["test", "if_true", "if_false"]
  | "root" => ["name", "element_type", "kind"]
  | "input" => ["target", "ty"]
  | _ => []

/-- Decodes an expression; `fuel` bounds the nesting. -/
def decode : Nat → Json → Option Expr
  | 0, _ => none
  | fuel + 1, json => do
    let (tag, fields) ← json.node? "node" fieldNames
    match tag with
    | "constant" => constant <$> Value.ofJson? (← Json.field? "value" fields)
    | "parameter" => parameter <$> Param.ofFields? fields
    | "member" =>
      let source ← decode fuel (← Json.field? "expr" fields)
      let name ← (← Json.field? "name" fields).string?
      let ty ← Ty.ofJson? (← Json.field? "ty" fields)
      pure (member source name ty)
    | "call" =>
      let receiver ← Json.optional? "object" fields
      let method ← (← Json.field? "method" fields).string?
      let args ← (← Json.field? "args" fields).list? (decode fuel)
      let ty ← Ty.ofJson? (← Json.field? "ty" fields)
      match receiver.getD .null with
      | .null => pure (call method args ty)
      | receiver => pure (invoke (← decode fuel receiver) method args ty)
    | "lambda" =>
      let params ← (← Json.field? "params" fields).list? Param.ofJson?
      let body ← decode fuel (← Json.field? "body" fields)
      pure (lambda params body)
    | "new" =>
      let ty ← Ty.ofJson? (← Json.field? "ty" fields)
      let members ← (← Json.field? "members" fields).list? (Json.named? (decode fuel))
      pure (newRecord ty members)
    | "member_init" =>
      let ty ← Ty.ofJson? (← Json.field? "ty" fields)
      let members ← (← Json.field? "bindings" fields).list? (binding? (decode fuel))
      pure (newObject ty members)
    | "new_array" =>
      let element ← Ty.ofJson? (← Json.field? "element" fields)
      let items ← (← Json.field? "items" fields).list? (decode fuel)
      pure (newArray element items)
    | "unary" =>
      let op ← UnaryOp.ofTag? (← (← Json.field? "op" fields).string?)
      let operand ← decode fuel (← Json.field? "operand" fields)
      let ty ← Ty.ofJson? (← Json.field? "ty" fields)
      pure (unary op operand ty)
    | "binary" =>
      let op ← BinaryOp.ofTag? (← (← Json.field? "op" fields).string?)
      let left ← decode fuel (← Json.field? "left" fields)
      let right ← decode fuel (← Json.field? "right" fields)
      pure (binary op left right)
    | "conditional" =>
      let test ← decode fuel (← Json.field? "test" fields)
      let whenTrue ← decode fuel (← Json.field? "if_true" fields)
      let whenFalse ← decode fuel (← Json.field? "if_false" fields)
      pure (conditional test whenTrue whenFalse)
    | "root" => root <$> ResourceRoot.ofFields? fields
    | "input" => input <$> InputRef.ofFields? fields
    | _ => none

/-- The expression that a JSON value encodes. -/
def ofJson? (json : Json) : Option Expr := decode json.depth json

end Expr

/-- The JSON form of a lambda. -/
def Lambda.toJson (f : Lambda) : Json :=
  .object [("params", .array (f.params.map Param.toJson)), ("body", f.body.toJson)]

/-- The lambda that a JSON value encodes. -/
def Lambda.ofJson? (json : Json) : Option Lambda := do
  let fields ← json.record? ["params", "body"]
  let params ← (← Json.field? "params" fields).list? Param.ofJson?
  let body ← Expr.ofJson? (← Json.field? "body" fields)
  pure ⟨params, body⟩

end ServiceQuery
