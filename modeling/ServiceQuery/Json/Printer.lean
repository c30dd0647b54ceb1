import ServiceQuery.Json.Basic
import ServiceQuery.Number.Text
import ServiceQuery.Text.Search

namespace ServiceQuery.Json

/-- A lower-case hexadecimal digit. -/
def hexDigit (n : Nat) : Char :=
  if n < 10 then Char.ofNat (48 + n) else Char.ofNat (87 + n)

/-- One character of a string: quotes, backslashes and control characters are escaped. -/
def escapeChar (c : Char) : List Char :=
  if c = '"' then ['\\', '"']
  else if c = '\\' then ['\\', '\\']
  else if c = '\n' then ['\\', 'n']
  else if c = '\r' then ['\\', 'r']
  else if c = '\t' then ['\\', 't']
  else if c = '\x08' then ['\\', 'b']
  else if c = '\x0c' then ['\\', 'f']
  else if c.toNat < 0x20 then
    ['\\', 'u', '0', '0', hexDigit (c.toNat / 16), hexDigit (c.toNat % 16)]
  else [c]

/-- A string in quotes. -/
def quote (s : String) : String :=
  "\"" ++ String.ofList (s.toList.flatMap escapeChar) ++ "\""

/-- The text of a double, a tie going to the even digit; one that is not finite is null. -/
def doubleText (x : Float) : String :=
  match BinaryNumber.ofFloat? x with
  | none => "null"
  | some b => Number.NumberFormat.double.text b.negative (Number.digits64 .even b)

/-- The text of a single, a tie going to the even digit; one that is not finite is null. -/
def singleText (x : Float32) : String :=
  match BinaryNumber.ofFloat32? x with
  | none => "null"
  | some b => Number.NumberFormat.single.text b.negative (Number.digits32 .even b)

mutual

/-- The document of a value without white space. -/
def compact : Json → String
  | null => "null"
  | bool b => if b then "true" else "false"
  | integer n => toString n
  | single x => singleText x
  | double x => doubleText x
  | string s => quote s
  | array items => "[" ++ Text.join "," (compactItems items) ++ "]"
  | object fields => "\x7b" ++ Text.join "," (compactFields fields) ++ "\x7d"

/-- The items of an array without white space. -/
def compactItems : List Json → List String
  | [] => []
  | item :: rest => item.compact :: compactItems rest

/-- The fields of an object without white space. -/
def compactFields : List (String × Json) → List String
  | [] => []
  | (name, value) :: rest => (quote name ++ ":" ++ value.compact) :: compactFields rest

end

/-- A line break followed by `level` indentations. -/
def newline (level : Nat) : String :=
  "\n" ++ String.ofList (List.replicate (2 * level) ' ')

mutual

/-- The document of a value that starts at the given level of indentation. -/
def prettyAt (level : Nat) : Json → String
  | array [] => "[]"
  | array (item :: rest) =>
    "[" ++ newline (level + 1) ++
      Text.join ("," ++ newline (level + 1)) (prettyItems (level + 1) (item :: rest)) ++
      newline level ++ "]"
  | object [] => "\x7b\x7d"
  | object (field :: rest) =>
    "\x7b" ++ newline (level + 1) ++
      Text.join ("," ++ newline (level + 1)) (prettyFields (level + 1) (field :: rest)) ++
      newline level ++ "\x7d"
  | value => value.compact

/-- The items of an array at a level of indentation. -/
def prettyItems (level : Nat) : List Json → List String
  | [] => []
  | item :: rest => item.prettyAt level :: prettyItems level rest

/-- The fields of an object at a level of indentation. -/
def prettyFields (level : Nat) : List (String × Json) → List String
  | [] => []
  | (name, value) :: rest =>
    (quote name ++ ": " ++ value.prettyAt level) :: prettyFields level rest

end

/-- The document of a value, one item a line. -/
def pretty (value : Json) : String := value.prettyAt 0

end ServiceQuery.Json
