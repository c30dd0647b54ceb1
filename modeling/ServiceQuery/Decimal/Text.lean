import ServiceQuery.Decimal.Basic
import ServiceQuery.Text.Search

namespace ServiceQuery.Decimal

/-- The text of a magnitude with `scale` decimal places. -/
def magnitudeText (mantissa scale : Nat) : List Char :=
  let whole := Nat.toDigits 10 (mantissa / Nat.pow 10 scale)
  if scale = 0 then whole
  else
    let fraction := Nat.toDigits 10 (mantissa % Nat.pow 10 scale)
    whole ++ '.' :: List.replicate (scale - fraction.length) '0' ++ fraction

/-- The text of a decimal: a sign, the whole part and every decimal place. -/
def text (d : Decimal) : String :=
  let magnitude := magnitudeText d.mantissa d.scale
  String.ofList (if d.negative then '-' :: magnitude else magnitude)

/-- The value of a decimal digit. -/
def digitValue? (c : Char) : Option Nat :=
  if '0' ≤ c ∧ c ≤ '9' then some (c.toNat - 48) else none

/-- Rounds a mantissa by the first character that no longer fits, a five going up. Anything after
that character is not read. -/
def roundAt (mantissa scale : Nat) (c : Char) : Option (Nat × Nat) :=
  match digitValue? c with
  | some digit =>
    if digit < 5 then some (mantissa, scale)
    else if mantissa + 1 < limit then some (mantissa + 1, scale)
    else if scale = 0 then none
    else some ((mantissa + 5) / 10, scale - 1)
  | none => if c = '_' ∨ c = '.' then some (mantissa, scale) else none

/-- Reads digits, one point and underscores after the first digit. `mantissa` and `scale` are what
has been read, `point` and `started` whether a point and a digit have been. -/
def readMagnitude (point started : Bool) (mantissa scale : Nat) :
    List Char → Option (Nat × Nat)
  | [] => if started then some (mantissa, scale) else none
  | c :: rest =>
    if point && 28 ≤ scale then roundAt mantissa scale c
    else
      match digitValue? c with
      | some digit =>
        let longer := mantissa * 10 + digit
        if longer < limit then
          readMagnitude point true longer (if point then scale + 1 else 0) rest
        else if point then roundAt mantissa scale c
        else none
      | none =>
        if c = '.' ∧ point = false then readMagnitude true started mantissa scale rest
        else if c = '_' ∧ started then readMagnitude point started mantissa scale rest
        else none

/-- Reads an optional sign and a magnitude. -/
def ofPlain? (chars : List Char) : Option Decimal :=
  let (negative, magnitude) :=
    match chars with
    | '-' :: rest => (true, rest)
    | '+' :: rest => (false, rest)
    | rest => (false, rest)
  match readMagnitude false false 0 0 magnitude with
  | some (mantissa, scale) => make? negative mantissa scale
  | none => none

/-- The value of a non-empty list of digits. -/
def readDigits? (chars : List Char) : Option Nat :=
  if chars.isEmpty then none
  else chars.foldlM (fun n c => (digitValue? c).map (n * 10 + ·)) 0

/-- A natural number with an optional plus sign. -/
def readUnsigned? : List Char → Option Nat
  | '+' :: rest => readDigits? rest
  | chars => readDigits? chars

/-- The decimal with the point moved `places` to the left; places beyond the bound are rounded
off, a five going up. -/
def shiftLeft? (d : Decimal) (places : Nat) : Option Decimal :=
  let scale := d.scale + places
  if scale ≤ 28 then make? d.negative d.mantissa scale
  else
    let unit := Nat.pow 10 (scale - 28)
    make? d.negative ((d.mantissa + unit / 2) / unit) 28

/-- The decimal with the point moved `places` to the right, without trailing zeros after it. -/
def shiftRight? (d : Decimal) (places : Nat) : Option Decimal :=
  if places ≤ d.scale then make? d.negative d.mantissa (d.scale - places)
  else if 28 < places then none
  else make? d.negative (d.mantissa * Nat.pow 10 (places - d.scale)) 0

/-- Reads a plain decimal, the letter `e` and a power of ten of at most 28. -/
def ofScientific? (chars : List Char) : Option Decimal :=
  match Text.splitOnce (fun c => c == 'e' || c == 'E') chars with
  | none => none
  | some (base, '-' :: power) =>
    match ofPlain? base, readUnsigned? power with
    | some d, some places => if 28 < places then none else d.shiftLeft? places
    | _, _ => none
  | some (base, power) =>
    match ofPlain? base, readUnsigned? power with
    | some d, some places => d.shiftRight? places
    | _, _ => none

/-- Reads a decimal. -/
def ofText? (s : String) : Option Decimal :=
  match ofPlain? s.toList with
  | some d => some d
  | none => ofScientific? s.toList

end ServiceQuery.Decimal
