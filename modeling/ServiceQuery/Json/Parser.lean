import ServiceQuery.Json.Basic

namespace ServiceQuery.Json

/-- Where reading stopped, counted from one. -/
structure Position where
  line : Nat
  column : Nat
  deriving DecidableEq

/-- The position after `consumed`. -/
def Position.after (consumed : List Char) : Position :=
  { line := (consumed.filter (· == '\n')).length + 1
    column := (consumed.reverse.takeWhile (· != '\n')).length }

/-- A step of a reader: a result and the text left, or the length of the text left at a failure. -/
abbrev Reader (α : Type) := List Char → Except Nat (α × List Char)

/-- The text without leading white space. -/
def skipBlanks (text : List Char) : List Char :=
  text.dropWhile fun c => c == ' ' || c == '\n' || c == '\t' || c == '\r'

/-- The value of a hexadecimal digit. -/
def hexValue? (c : Char) : Option Nat :=
  if '0' ≤ c ∧ c ≤ '9' then some (c.toNat - 48)
  else if 'a' ≤ c ∧ c ≤ 'f' then some (c.toNat - 87)
  else if 'A' ≤ c ∧ c ≤ 'F' then some (c.toNat - 55)
  else none

/-- The value of four hexadecimal digits. -/
def hexUnit? (a b c d : Char) : Option Nat := do
  let a ← hexValue? a
  let b ← hexValue? b
  let c ← hexValue? c
  let d ← hexValue? d
  pure (((a * 16 + b) * 16 + c) * 16 + d)

/-- The character after a backslash, where it stands for one character. -/
def simpleEscape? : Char → Option Char
  | '"' => some '"'
  | '\\' => some '\\'
  | '/' => some '/'
  | 'b' => some '\x08'
  | 'f' => some '\x0c'
  | 'n' => some '\n'
  | 'r' => some '\r'
  | 't' => some '\t'
  | _ => none

/-- Reads a string after its opening quote; `read` holds its characters in reverse. -/
def readString (read : List Char) : Reader String
  | [] => .error 0
  | '"' :: rest => .ok (String.ofList read.reverse, rest)
  | '\\' :: 'u' :: a :: b :: c :: d :: rest =>
    match hexUnit? a b c d with
    | none => .error rest.length
    | some unit =>
      if unit < 0xD800 ∨ 0xE000 ≤ unit then readString (Char.ofNat unit :: read) rest
      else if 0xDC00 ≤ unit then .error rest.length
      else
        match rest with
        | '\\' :: 'u' :: e :: f :: g :: h :: rest =>
          match hexUnit? e f g h with
          | some low =>
            if 0xDC00 ≤ low ∧ low < 0xE000 then
              let code := 0x10000 + (unit - 0xD800) * 0x400 + (low - 0xDC00)
              readString (Char.ofNat code :: read) rest
            else .error rest.length
          | none => .error rest.length
        | rest => .error rest.length
  | '\\' :: c :: rest =>
    match simpleEscape? c with
    | some c => readString (c :: read) rest
    | none => .error rest.length
  | c :: rest => if c.toNat < 0x20 then .error rest.length else readString (c :: read) rest

/-- The leading digits of a text and what follows them. -/
def takeDigits (text : List Char) : List Char × List Char :=
  (text.takeWhile Char.isDigit, text.dropWhile Char.isDigit)

/-- The value of a list of decimal digits. -/
def digitsValue (digits : List Char) : Nat :=
  digits.foldl (fun n c => n * 10 + (c.toNat - 48)) 0

/-- Appends digits to a significand for as long as it has at most 64 bits, and gives the digits that
are left. -/
def appendDigits (significand : Nat) : List Char → Nat × List Char
  | [] => (significand, [])
  | c :: digits =>
    let longer := significand * 10 + (c.toNat - 48)
    if longer < UInt64.size then appendDigits longer digits else (significand, c :: digits)

/-- The double nearest to `10 ^ n`. -/
def tenPower (n : Nat) : Float := Float.ofScientific 1 false n

/-- The double `x` times `10 ^ power`, for an `x` that is zero or of the size of a 64-bit integer. It
is multiplied or divided by a double, twice where the power is below the smallest one of a double.
There is no result beyond the largest double. -/
def scale? (x : Float) (power : Int) : Option Float :=
  if 308 < power then if x == 0 then some x else none
  else if 0 ≤ power then
    let product := x * tenPower power.toNat
    if product.isInf then none else some product
  else if -308 ≤ power then some (x / tenPower (-power).toNat)
  else if -616 ≤ power then some (x / tenPower 308 / tenPower (-power - 308).toNat)
  else some 0

/-- The double with the given digits and power of ten. The digits are read into a significand of
64 bits, and the ones that do not fit count as places only. Significand and power of ten are rounded
to doubles before they are combined, so that the result is near the number and not always nearest. -/
def toDouble? (negative : Bool) (whole fraction : List Char) (power : Int) : Option Float :=
  let (significand, wholeLeft) := appendDigits 0 whole
  let (significand, fractionLeft) := appendDigits significand fraction
  let places : Int := wholeLeft.length - (fraction.length - fractionLeft.length : Int)
  (scale? (Float.ofNat significand) (power + places)).map fun x => if negative then -x else x

/-- The number with the given digits: an integer when it is written as one and has at most 64
bits, otherwise a double. -/
def number? (negative : Bool) (whole fraction : List Char) (plain : Bool) (power : Int) :
    Option Json :=
  let n := digitsValue whole
  if plain && !negative && n < UInt64.size then some (integer n)
  else if plain && negative && n ≠ 0 && Int64.minValue.toInt ≤ -n then some (integer (-n))
  else (toDouble? negative whole fraction power).map double

/-- Reads the exponent of a number; a missing one is zero. -/
def readExponent : Reader (Option Int)
  | [] => .ok (none, [])
  | c :: rest =>
    if c = 'e' ∨ c = 'E' then
      let (negative, digits) :=
        match rest with
        | '-' :: rest => (true, rest)
        | '+' :: rest => (false, rest)
        | rest => (false, rest)
      match takeDigits digits with
      | ([], rest) => .error rest.length
      | (digits, rest) =>
        let n : Int := digitsValue digits
        .ok (some (if negative then -n else n), rest)
    else .ok (none, c :: rest)

/-- Reads the fraction of a number after its whole part; a missing one is empty. -/
def readFraction : Reader (Option (List Char))
  | '.' :: rest =>
    match takeDigits rest with
    | ([], rest) => .error rest.length
    | (digits, rest) => .ok (some digits, rest)
  | text => .ok (none, text)

/-- Reads a number after its sign. -/
def readNumber (negative : Bool) : Reader Json := fun text => do
  let (whole, rest) := takeDigits text
  if whole.isEmpty || (whole.head? == some '0' && 1 < whole.length) then .error rest.length
  let (fraction, rest) ← readFraction rest
  let (power, rest) ← readExponent rest
  match number? negative whole (fraction.getD []) (fraction.isNone && power.isNone)
      (power.getD 0) with
  | some number => .ok (number, rest)
  | none => .error rest.length

/-- Reads a fixed word. -/
def readWord (word : String) (value : Json) : Reader Json := fun text =>
  if word.toList.isPrefixOf text then .ok (value, text.drop word.length) else .error text.length

mutual

/-- Reads a value. `fuel` bounds the steps and `depth` the nesting that is still allowed. -/
def readValue : Nat → Nat → Reader Json
  | 0, _, text => .error text.length
  | fuel + 1, depth, text =>
    match skipBlanks text with
    | [] => .error 0
    | '"' :: rest => do
      let (s, rest) ← readString [] rest
      pure (string s, rest)
    | '[' :: rest =>
      match depth with
      | 0 => .error rest.length
      | depth + 1 =>
        match skipBlanks rest with
        | ']' :: rest => .ok (array [], rest)
        | rest => do
          let (items, rest) ← readItems fuel depth rest
          pure (array items, rest)
    | '\x7b' :: rest =>
      match depth with
      | 0 => .error rest.length
      | depth + 1 =>
        match skipBlanks rest with
        | '\x7d' :: rest => .ok (object [], rest)
        | rest => do
          let (fields, rest) ← readFields fuel depth rest
          pure (object fields, rest)
    | '-' :: rest => readNumber true rest
    | 't' :: rest => readWord "true" (bool true) ('t' :: rest)
    | 'f' :: rest => readWord "false" (bool false) ('f' :: rest)
    | 'n' :: rest => readWord "null" null ('n' :: rest)
    | rest => readNumber false rest

/-- Reads the items of an array up to its closing bracket. -/
def readItems : Nat → Nat → Reader (List Json)
  | 0, _, text => .error text.length
  | fuel + 1, depth, text => do
    let (item, rest) ← readValue fuel depth text
    match skipBlanks rest with
    | ',' :: rest =>
      let (items, rest) ← readItems fuel depth rest
      pure (item :: items, rest)
    | ']' :: rest => pure ([item], rest)
    | rest => .error rest.length

/-- Reads the fields of an object up to its closing brace. -/
def readFields : Nat → Nat → Reader (List (String × Json))
  | 0, _, text => .error text.length
  | fuel + 1, depth, text =>
    match skipBlanks text with
    | '"' :: rest => do
      let (name, rest) ← readString [] rest
      match skipBlanks rest with
      | ':' :: rest =>
        let (value, rest) ← readValue fuel depth rest
        match skipBlanks rest with
        | ',' :: rest =>
          let (fields, rest) ← readFields fuel depth rest
          pure ((name, value) :: fields, rest)
        | '\x7d' :: rest => pure ([(name, value)], rest)
        | rest => .error rest.length
      | rest => .error rest.length
    | rest => .error rest.length

end

/-- The largest number of arrays and objects inside each other. -/
def maxDepth : Nat := 127

/-- Reads a document that holds one value and nothing else. -/
def parse (text : String) : Except Position Json :=
  let chars := text.toList
  let result : Except Nat Json := do
    let (value, rest) ← readValue (2 * chars.length + 2) maxDepth chars
    match skipBlanks rest with
    | [] => pure value
    | rest => .error rest.length
  match result with
  | .ok value => .ok value
  | .error left => .error (Position.after (chars.take (chars.length - left)))

end ServiceQuery.Json
