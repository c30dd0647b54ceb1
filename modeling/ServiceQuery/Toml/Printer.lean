import ServiceQuery.Toml.Basic

namespace ServiceQuery.Toml

/-- The kinds of quotes around a string. -/
inductive Quotes where
  /-- Double quotes, with escapes between them. -/
  | basic
  /-- Single quotes, with the text as it is between them. -/
  | literal
  /-- Three double quotes, with escapes between them and the lines as they are. -/
  | basicLines
  /-- Three single quotes, with the text as it is between them. -/
  | literalLines
  deriving DecidableEq

/-- An upper-case hexadecimal digit. -/
def hexDigit (n : Nat) : Char := if n < 10 then Char.ofNat (48 + n) else Char.ofNat (55 + n)

/-- Whether a character can only be written as an escape. -/
def isControl (c : Char) : Bool := (c < ' ' && c != '\t' && c != '\n') || c == '\x7f'

/-- A character between double quotes. -/
def escapeChar (c : Char) : List Char :=
  match c with
  | '\x08' => ['\\', 'b']
  | '\t' => ['\\', 't']
  | '\n' => ['\\', 'n']
  | '\x0c' => ['\\', 'f']
  | '\r' => ['\\', 'r']
  | '"' => ['\\', '"']
  | '\\' => ['\\', '\\']
  | c =>
    if isControl c then
      ['\\', 'u', '0', '0', hexDigit (c.toNat / 16), hexDigit (c.toNat % 16)]
    else [c]

/-- A text between three double quotes, after `quotes` double quotes in a row. The third in a row
is an escape, so that the text does not end there. -/
def escapeLines (quotes : Nat) : List Char → List Char
  | [] => []
  | '\n' :: rest => '\n' :: escapeLines 0 rest
  | '"' :: rest =>
    if quotes < 2 then '"' :: escapeLines (quotes + 1) rest
    else '\\' :: '"' :: escapeLines 0 rest
  | c :: rest => escapeChar c ++ escapeLines 0 rest

/-- Whether a quote stands three times in a row. -/
def hasThree (mark : Char) : List Char → Bool
  | a :: b :: c :: rest => (a == mark && b == mark && c == mark) || hasThree mark (b :: c :: rest)
  | _ => false

namespace Quotes

/-- Double quotes fit if nothing between them needs an escape, a tab apart; single quotes fit
what holds none on one line. Otherwise there are three of a kind, or escapes. -/
def ofText (text : List Char) : Quotes :=
  let oneLine := !text.contains '\n'
  if text.any isControl then if oneLine then basic else basicLines
  else if oneLine && !text.contains '\\' && !text.contains '"' then basic
  else if oneLine && !text.contains '\'' then literal
  else if !text.contains '\\' && !hasThree '"' text then basicLines
  else if !hasThree '\'' text then literalLines
  else if oneLine then basic else basicLines

/-- The mark before and after the text. -/
def mark : Quotes → List Char
  | basic => ['"']
  | literal => ['\'']
  | basicLines => ['"', '"', '"']
  | literalLines => ['\'', '\'', '\'']

/-- What stands between the marks. A text with several lines starts on a line of its own. -/
def content (text : List Char) : Quotes → List Char
  | basic => text.flatMap escapeChar
  | literal => text
  | basicLines => (if text.contains '\n' then ['\n'] else []) ++ escapeLines 0 text
  | literalLines => (if text.contains '\n' then ['\n'] else []) ++ text

end Quotes

/-- A string in the plainest kind of quotes that it fits into. -/
def quote (text : String) : String :=
  let quotes := Quotes.ofText text.toList
  String.ofList (quotes.mark ++ quotes.content text.toList ++ quotes.mark)

end ServiceQuery.Toml
