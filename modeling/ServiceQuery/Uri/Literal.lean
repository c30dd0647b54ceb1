import ServiceQuery.Error
import ServiceQuery.Text.Percent
import ServiceQuery.Text.Search

namespace ServiceQuery.Uri

/-- The text of a double; those that are not finite have names. -/
def floatLiteral (x : Float) : String :=
  if x.isNaN then "NaN"
  else if x.isInf then if x > 0 then "INF" else "-INF"
  else Number.float64Text x

/-- The text of a string: its quotes are doubled, then it is percent-encoded. -/
def stringLiteral (text : String) : String :=
  let doubled := Text.replace ['\''] ['\'', '\''] text.toList
  "'" ++ Percent.encode (String.ofList doubled) ++ "'"

/-- The text of a value. Arrays and records have none. -/
def literal : Value → Except CompileError String
  | .null => .ok "null"
  | .bool true => .ok "true"
  | .bool false => .ok "false"
  | .int32 n => .ok (toString n)
  | .int64 n => .ok (toString n)
  | .single x => .ok (floatLiteral x.toFloat)
  | .double x => .ok (floatLiteral x)
  | .decimal d => .ok d.text
  | .string text => .ok (stringLiteral text)
  | .array element items => .error (.expressionNotSupported (Value.array element items).text)
  | .record fields => .error (.expressionNotSupported (Value.record fields).text)

/-- The texts of named values, each as `name=value`. -/
def namedLiterals (values : List (String × Value)) : Except CompileError String := do
  let texts ← values.mapM fun (name, value) => do
    let text ← literal value
    pure (name ++ "=" ++ text)
  pure (Text.join "," texts)

end ServiceQuery.Uri
