import ServiceQuery.Text.Search
import ServiceQuery.Toml.Basic

namespace ServiceQuery.Toml

/-- A step of a reader: a result and the text left. -/
abbrev Reader (α : Type) := List Char → Option (α × List Char)

/-- The text without leading blanks. -/
def skipBlanks (text : List Char) : List Char := text.dropWhile fun c => c == ' ' || c == '\t'

/-- Whether a character may stand in a comment or between quotes: no control character but the
tab. -/
def isPrintable (c : Char) : Bool := c == '\t' || (' ' ≤ c && c != '\x7f')

/-- The rest of a text after a comment, if there is one. -/
def skipComment : List Char → List Char
  | '#' :: rest => rest.dropWhile isPrintable
  | text => text

/-- The rest of a text after the end of a line. -/
def newline? : List Char → Option (List Char)
  | '\n' :: rest => some rest
  | '\r' :: '\n' :: rest => some rest
  | _ => none

/-- The rest of a text after blanks, a comment and the end of the line or of the text. -/
def lineEnd? (text : List Char) : Option (List Char) :=
  match skipComment (skipBlanks text) with
  | [] => some []
  | rest => newline? rest

/-- Skips blanks, comments and ends of lines; `fuel` bounds the number of lines. -/
def skipLines : Nat → List Char → List Char
  | 0, text => skipBlanks text
  | fuel + 1, text =>
    match newline? (skipComment (skipBlanks text)) with
    | some rest => skipLines fuel rest
    | none => skipComment (skipBlanks text)

/-! ### Strings -/

/-- The value of a hexadecimal digit. -/
def hexValue? (c : Char) : Option Nat :=
  if '0' ≤ c ∧ c ≤ '9' then some (c.toNat - 48)
  else if 'a' ≤ c ∧ c ≤ 'f' then some (c.toNat - 87)
  else if 'A' ≤ c ∧ c ≤ 'F' then some (c.toNat - 55)
  else none

/-- The character with the code that the hexadecimal digits give. -/
def charOfHex? (digits : List Char) : Option Char := do
  let values ← digits.mapM hexValue?
  let code := values.foldl (fun code digit => code * 16 + digit) 0
  if code.isValidChar then some (Char.ofNat code) else none

/-- The character that an escape stands for, after its backslash. -/
def readEscape : Reader Char
  | 'b' :: rest => some ('\x08', rest)
  | 't' :: rest => some ('\t', rest)
  | 'n' :: rest => some ('\n', rest)
  | 'f' :: rest => some ('\x0c', rest)
  | 'r' :: rest => some ('\r', rest)
  | '"' :: rest => some ('"', rest)
  | '\\' :: rest => some ('\\', rest)
  | 'u' :: a :: b :: c :: d :: rest => (charOfHex? [a, b, c, d]).map (·, rest)
  | 'U' :: a :: b :: c :: d :: e :: f :: g :: h :: rest =>
    (charOfHex? [a, b, c, d, e, f, g, h]).map (·, rest)
  | _ => none

/-- Reads a basic string after its opening quote; `read` holds its characters in reverse and `fuel`
bounds their number. -/
def readBasic : Nat → List Char → Reader String
  | 0, _, _ => none
  | fuel + 1, read, text =>
    match text with
    | '"' :: rest => some (String.ofList read.reverse, rest)
    | '\\' :: rest => do
      let (c, rest) ← readEscape rest
      readBasic fuel (c :: read) rest
    | c :: rest => if isPrintable c then readBasic fuel (c :: read) rest else none
    | [] => none

/-- Reads a literal string after its opening quote. -/
def readLiteral (text : List Char) : Option (String × List Char) :=
  match text.span fun c => c != '\'' && isPrintable c with
  | (content, '\'' :: rest) => some (String.ofList content, rest)
  | _ => none

/-- The rest of a text after a backslash at the end of a line: the blanks and line ends that follow
are left out. -/
def lineContinuation? (text : List Char) : Option (List Char) :=
  (newline? (skipBlanks text)).map fun rest =>
    rest.dropWhile fun c => c == ' ' || c == '\t' || c == '\n' || c == '\r'

/-- Reads a string of several lines up to three quotes. Up to two more quotes at its end belong to
it, and in a basic one a backslash escapes. -/
def readLong (quote : Char) (escapes : Bool) : Nat → List Char → Reader String
  | 0, _, _ => none
  | fuel + 1, read, text =>
    match text with
    | [] => none
    | c :: rest =>
      if c == quote then
        let quotes := text.takeWhile (· == quote)
        if quotes.length < 3 then readLong quote escapes fuel (c :: read) rest
        else if quotes.length ≤ 5 then
          let content := quotes.drop 3 ++ read
          some (String.ofList content.reverse, text.drop quotes.length)
        else none
      else if c == '\\' && escapes then
        match lineContinuation? rest with
        | some rest => readLong quote escapes fuel read rest
        | none => do
          let (c, rest) ← readEscape rest
          readLong quote escapes fuel (c :: read) rest
      else
        match newline? text with
        | some rest => readLong quote escapes fuel ('\n' :: read) rest
        | none => if isPrintable c then readLong quote escapes fuel (c :: read) rest else none

/-- A line end right after the opening quotes does not belong to the string. -/
def skipFirstNewline (text : List Char) : List Char := (newline? text).getD text

/-- Reads a string of any kind. -/
def readString (text : List Char) : Option (String × List Char) :=
  match text with
  | '"' :: '"' :: '"' :: rest => readLong '"' true (rest.length + 1) [] (skipFirstNewline rest)
  | '"' :: rest => readBasic (rest.length + 1) [] rest
  | '\'' :: '\'' :: '\'' :: rest => readLong '\'' false (rest.length + 1) [] (skipFirstNewline rest)
  | '\'' :: rest => readLiteral rest
  | _ => none

/-! ### Keys -/

/-- Whether a character may stand in a key without quotes. -/
def isBare (c : Char) : Bool := c.isAlphanum || c == '-' || c == '_'

/-- Reads one part of a key. -/
def readPart : Reader String
  | '"' :: rest => readBasic (rest.length + 1) [] rest
  | '\'' :: rest => readLiteral rest
  | text =>
    match text.span isBare with
    | ([], _) => none
    | (name, rest) => some (String.ofList name, rest)

/-- The most parts that a key may have, and the deepest nesting of a value. -/
def maxDepth : Nat := 79

/-- Reads the parts of a key up to a number of them. -/
def readParts : Nat → Reader (List String)
  | 0, _ => none
  | count + 1, text => do
    let (part, rest) ← readPart (skipBlanks text)
    match skipBlanks rest with
    | '.' :: rest => do
      let (parts, rest) ← readParts count rest
      pure (part :: parts, rest)
    | rest => pure ([part], rest)

/-- Reads a key with its dots and the blanks around it. -/
def readKey (text : List Char) : Option (List String × List Char) := readParts maxDepth text

/-! ### Numbers, dates and times -/

/-- Digits that satisfy `isDigit` with single underscores between them. -/
def digits? (isDigit : Char → Bool) (text : List Char) : Option (List Char) :=
  let pieces := Text.split (· == '_') text
  if pieces.all fun piece => !piece.isEmpty && piece.all isDigit then
    some (text.filter (· != '_'))
  else none

/-- The number that digits of a base denote. -/
def natOf? (base : Nat) (isDigit : Char → Bool) (text : List Char) : Option Nat := do
  let digits ← digits? isDigit text
  let values ← digits.mapM hexValue?
  pure (values.foldl (fun n digit => n * base + digit) 0)

/-- A decimal number without a sign: it has no leading zero. -/
def decimal? (text : List Char) : Option Nat := do
  let n ← natOf? 10 Char.isDigit text
  if text.length > 1 && text.head? == some '0' then none else some n

/-- A sign and the text after it. -/
def splitSign : List Char → Option Bool × List Char
  | '-' :: rest => (some true, rest)
  | '+' :: rest => (some false, rest)
  | text => (none, text)

/-- An integer of 64 bits; one with another base has no sign. -/
def integer? (text : List Char) : Option Int := do
  let (sign, magnitude) := splitSign text
  let n ←
    match sign, magnitude with
    | none, '0' :: 'x' :: digits => natOf? 16 (fun c => (hexValue? c).isSome) digits
    | none, '0' :: 'o' :: digits => natOf? 8 (fun c => '0' ≤ c && c ≤ '7') digits
    | none, '0' :: 'b' :: digits => natOf? 2 (fun c => c == '0' || c == '1') digits
    | _, digits => decimal? digits
  let n : Int := if sign == some true then -n else n
  if Int64.minValue.toInt ≤ n ∧ n ≤ Int64.maxValue.toInt then some n else none

/-- Whether a text is an exponent after its mark. -/
def isExponent (text : List Char) : Bool := (digits? Char.isDigit (splitSign text).2).isSome

/-- Whether a text is a float: an integral part, and a fraction or an exponent or both. -/
def isFloat (text : List Char) : Bool :=
  let (_, magnitude) := splitSign text
  if magnitude == "inf".toList || magnitude == "nan".toList then true
  else
    let (mantissa, exponent) := magnitude.span fun c => c != 'e' && c != 'E'
    let (integral, fraction) := mantissa.span (· != '.')
    (decimal? integral).isSome && !(exponent.isEmpty && fraction.isEmpty) &&
      (fraction.isEmpty || (digits? Char.isDigit (fraction.drop 1)).isSome) &&
      (exponent.isEmpty || isExponent (exponent.drop 1))

/-- The number of the given count of digits at the start of a text. -/
def readDigits (count : Nat) (text : List Char) : Option (Nat × List Char) :=
  let digits := text.take count
  if digits.length = count && digits.all Char.isDigit then
    some (digits.foldl (fun n c => n * 10 + (c.toNat - 48)) 0, text.drop count)
  else none

/-- The number of days of a month. -/
def daysIn (year month : Nat) : Nat :=
  if month = 2 then
    if year % 4 = 0 ∧ (year % 100 ≠ 0 ∨ year % 400 = 0) then 29 else 28
  else if month = 4 ∨ month = 6 ∨ month = 9 ∨ month = 11 then 30
  else 31

/-- The rest of a text after a given character. -/
def expect? (c : Char) : List Char → Option (List Char)
  | d :: rest => if d = c then some rest else none
  | [] => none

/-- The rest of a text after a date. -/
def afterDate? (text : List Char) : Option (List Char) := do
  let (year, rest) ← readDigits 4 text
  let (month, rest) ← readDigits 2 (← expect? '-' rest)
  let (day, rest) ← readDigits 2 (← expect? '-' rest)
  if 1 ≤ month ∧ month ≤ 12 ∧ 1 ≤ day ∧ day ≤ daysIn year month then some rest else none

/-- The rest of a text after hours and minutes. -/
def afterMinutes? (text : List Char) : Option (List Char) := do
  let (hour, rest) ← readDigits 2 text
  let (minute, rest) ← readDigits 2 (← expect? ':' rest)
  if hour ≤ 23 ∧ minute ≤ 59 then some rest else none

/-- The rest of a text after a time. -/
def afterTime? (text : List Char) : Option (List Char) := do
  let rest ← afterMinutes? text
  let (second, rest) ← readDigits 2 (← expect? ':' rest)
  if 60 < second then none
  else
    match rest with
    | '.' :: d :: rest => if d.isDigit then some (rest.dropWhile Char.isDigit) else none
    | '.' :: [] => none
    | rest => some rest

/-- The rest of a text after an offset from universal time, if there is one. -/
def afterOffset? : List Char → Option (List Char)
  | 'Z' :: rest | 'z' :: rest => some rest
  | '+' :: rest | '-' :: rest => afterMinutes? rest
  | text => some text

/-- The rest of a text after a date, a time or both. -/
def afterMoment? (text : List Char) : Option (List Char) :=
  match afterDate? text with
  | none => afterTime? text
  | some rest =>
    match rest with
    | 'T' :: time | 't' :: time => (afterTime? time).bind afterOffset?
    | ' ' :: time => some (((afterTime? time).bind afterOffset?).getD rest)
    | _ => some rest

/-- Whether a character may stand in a number. -/
def isNumeral (c : Char) : Bool :=
  c.isAlphanum || c == '+' || c == '-' || c == '.' || c == '_'

/-- Reads a date, a time, a float or an integer. -/
def readNumber (text : List Char) : Option (Toml × List Char) :=
  match afterMoment? text with
  | some rest => some (.moment (String.ofList (text.take (text.length - rest.length))), rest)
  | none =>
    let (numeral, rest) := text.span isNumeral
    match integer? numeral with
    | some n => some (.integer n, rest)
    | none => if isFloat numeral then some (.float (String.ofList numeral), rest) else none

/-- Reads a value that is neither an array nor a table. -/
def readScalar (text : List Char) : Option (Toml × List Char) :=
  match text with
  | '"' :: _ | '\'' :: _ => (readString text).map fun (content, rest) => (.string content, rest)
  | _ =>
    match Text.afterPart? "true".toList text, Text.afterPart? "false".toList text with
    | some rest, _ => some (.boolean true, rest)
    | none, some rest => some (.boolean false, rest)
    | none, none => readNumber text

end ServiceQuery.Toml
