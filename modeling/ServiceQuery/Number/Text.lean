import ServiceQuery.Number.Shortest

namespace ServiceQuery.Number

/-- The decimal digits of a natural number. -/
def natDigits (n : Nat) : List Char := Nat.toDigits 10 n

/-- The text of `n * 10 ^ power` without an exponent. -/
def positional (n : Nat) (power : Int) : List Char :=
  let digits := natDigits n
  match power with
  | .ofNat zeros => if n = 0 then digits else digits ++ List.replicate zeros '0'
  | .negSucc places =>
    let places := places + 1
    if places < digits.length then
      digits.take (digits.length - places) ++ '.' :: digits.drop (digits.length - places)
    else '0' :: '.' :: List.replicate (places - digits.length) '0' ++ digits

/-- A sign in front of the text of a magnitude. -/
def signed (negative : Bool) (magnitude : List Char) : String :=
  String.ofList (if negative then '-' :: magnitude else magnitude)

/-- The text of a double that is not finite. -/
def nonFiniteText (isNaN negative : Bool) : String :=
  if isNaN then "NaN" else if negative then "-inf" else "inf"

/-- The text of a double: shortest digits in positional form. -/
def float64Text (x : Float) : String :=
  match BinaryNumber.ofFloat? x with
  | none => nonFiniteText x.isNaN (x < 0)
  | some d =>
    let (n, power) := digits64 .up d
    signed d.negative (positional n power)

/-- The text of a single: shortest digits in positional form. -/
def float32Text (x : Float32) : String :=
  match BinaryNumber.ofFloat32? x with
  | none => nonFiniteText x.isNaN (x < 0)
  | some d =>
    let (n, power) := digits32 .up d
    signed d.negative (positional n power)

/-- A notation with an exponent for numbers whose decimal point lies outside a range. The point
position counts the digits before the point. -/
structure NumberFormat where
  /-- Positions up to this one are positional. -/
  mostPlaces : Int
  /-- Positions above this one are positional. -/
  leastPlaces : Int

/-- The text of an exponent, which always has a sign. -/
def exponentText : Int → List Char
  | .ofNat n => '+' :: natDigits n
  | .negSucc n => '-' :: natDigits (n + 1)

/-- The text of `n * 10 ^ power` for a non-zero `n` without trailing zeros: an integer ends in
`.0`, and an exponent with its sign follows the digits, of which one stands before the point. -/
def NumberFormat.magnitude (format : NumberFormat) (n : Nat) (power : Int) : List Char :=
  let digits := natDigits n
  let point : Int := digits.length + power
  if 0 ≤ power ∧ point ≤ format.mostPlaces then positional n power ++ ['.', '0']
  else if format.leastPlaces < point ∧ point ≤ format.mostPlaces then positional n power
  else
    let mantissa :=
      match digits with
      | [] => []
      | [d] => [d]
      | d :: rest => d :: '.' :: rest
    mantissa ++ 'e' :: exponentText (point - 1)

/-- The text of a signed number with the given shortest digits. -/
def NumberFormat.text (format : NumberFormat) (negative : Bool) : Nat × Int → String
  | (0, _) => signed negative ['0', '.', '0']
  | (n, power) => signed negative (format.magnitude n power)

/-- Doubles in documents: positional from five zeros after the point to sixteen digits. -/
def NumberFormat.double : NumberFormat := ⟨16, -5⟩

/-- Singles in documents: positional from six zeros after the point to thirteen digits. -/
def NumberFormat.single : NumberFormat := ⟨13, -6⟩

end ServiceQuery.Number
