/-!
# Binary numbers

A finite floating-point number is an integer times a power of two. Rounding to integers and
remainders are computed exactly on that form.
-/

namespace ServiceQuery

/-- The number `±mantissa * 2 ^ exponent`; a zero keeps its sign. -/
structure BinaryNumber where
  negative : Bool
  mantissa : Nat
  exponent : Int
  deriving DecidableEq

namespace BinaryNumber

/-- A number from the fields of a floating-point format with `fractionBits` stored bits, whose
smallest exponent is `least`. -/
def ofFields (negative : Bool) (fractionBits : Nat) (least : Int) (field fraction : Nat) : BinaryNumber :=
  if field = 0 then ⟨negative, fraction, least⟩
  else ⟨negative, Nat.pow 2 fractionBits + fraction, least + (field - 1 : Int)⟩

/-- The binary number that a finite double denotes. -/
def ofFloat? (x : Float) : Option BinaryNumber :=
  let bits := x.toBits.toNat
  let field := bits / Nat.pow 2 52 % Nat.pow 2 11
  if field = Nat.pow 2 11 - 1 then none
  else some (ofFields (bits / Nat.pow 2 63 == 1) 52 (-1074) field (bits % Nat.pow 2 52))

/-- The binary number that a finite single denotes. -/
def ofFloat32? (x : Float32) : Option BinaryNumber :=
  let bits := x.toBits.toNat
  let field := bits / Nat.pow 2 23 % Nat.pow 2 8
  if field = Nat.pow 2 8 - 1 then none
  else some (ofFields (bits / Nat.pow 2 31 == 1) 23 (-149) field (bits % Nat.pow 2 23))

/-- Divides out factors of two while the mantissa is even, at most `fuel` times. -/
def reduce : Nat → BinaryNumber → BinaryNumber
  | 0, d => d
  | fuel + 1, d =>
    if d.mantissa ≠ 0 ∧ d.mantissa % 2 = 0 then
      reduce fuel ⟨d.negative, d.mantissa / 2, d.exponent + 1⟩
    else d

/-- The double that a binary number denotes, for numbers that are doubles. -/
def toFloat (d : BinaryNumber) : Float :=
  let reduced := d.reduce d.mantissa.log2
  let magnitude := (Float.ofNat reduced.mantissa).scaleB reduced.exponent
  if d.negative then -magnitude else magnitude

/-- The whole part of the magnitude. -/
def wholePart (d : BinaryNumber) : Nat :=
  match d.exponent with
  | .ofNat e => d.mantissa * Nat.pow 2 e
  | .negSucc e => d.mantissa / Nat.pow 2 (e + 1)

/-- Whether the number is an integer. -/
def isWhole (d : BinaryNumber) : Bool :=
  match d.exponent with
  | .ofNat _ => true
  | .negSucc e => d.mantissa % Nat.pow 2 (e + 1) == 0

/-- The magnitude rounded to the nearest integer, a half going up. -/
def nearestWhole (d : BinaryNumber) : Nat :=
  match d.exponent with
  | .ofNat e => d.mantissa * Nat.pow 2 e
  | .negSucc e => (d.mantissa + Nat.pow 2 e) / Nat.pow 2 (e + 1)

/-- The integer next to the number in the direction of zero. -/
def toInt (d : BinaryNumber) : Int :=
  if d.negative then -(d.wholePart : Int) else d.wholePart

/-- The number rescaled to a smaller exponent. -/
def mantissaAt (d : BinaryNumber) (exponent : Int) : Nat :=
  d.mantissa * Nat.pow 2 (d.exponent - exponent).toNat

end BinaryNumber

namespace Number

/-- Applies an integer rounding of magnitudes to a double; the sign is kept, also on zero. -/
def mapMagnitude (f : BinaryNumber → Nat) (x : Float) : Float :=
  match BinaryNumber.ofFloat? x with
  | none => x
  | some d => if d.negative then -Float.ofNat (f d) else Float.ofNat (f d)

/-- The integer next to a double in the direction of zero. -/
def truncate (x : Float) : Float := mapMagnitude BinaryNumber.wholePart x

/-- The largest integer below or at a double. -/
def floor (x : Float) : Float :=
  mapMagnitude (fun d => if d.negative && !d.isWhole then d.wholePart + 1 else d.wholePart) x

/-- The smallest integer above or at a double. -/
def ceiling (x : Float) : Float :=
  mapMagnitude (fun d => if !d.negative && !d.isWhole then d.wholePart + 1 else d.wholePart) x

/-- The nearest integer, a half going away from zero. -/
def roundAway (x : Float) : Float := mapMagnitude BinaryNumber.nearestWhole x

/-- The integer part of a finite double. -/
def toInt? (x : Float) : Option Int := (BinaryNumber.ofFloat? x).map BinaryNumber.toInt

/-- Minus one, one or not a number, by the sign bit of a double. -/
def signum (x : Float) : Float :=
  if x.isNaN then x else if x.toBits.toNat / Nat.pow 2 63 == 1 then -1 else 1

/-- The nearest integer, a half going to the even neighbour. A half that goes to zero gives the
positive zero. -/
def roundEven (x : Float) : Float :=
  match BinaryNumber.ofFloat? x with
  | none => x
  | some d =>
    let rounded := roundAway x
    if (x - truncate x).abs == 0.5 && d.nearestWhole % 2 == 1 then rounded - signum x else rounded

/-- The exact remainder of a division truncated toward zero, with the sign of the dividend. -/
def remainder (x y : Float) : Float :=
  match BinaryNumber.ofFloat? x, BinaryNumber.ofFloat? y with
  | some a, some b =>
    if b.mantissa = 0 then 0 / 0
    else
      let exponent := min a.exponent b.exponent
      BinaryNumber.toFloat ⟨a.negative, a.mantissaAt exponent % b.mantissaAt exponent, exponent⟩
  | some _, none => if y.isNaN then y else x
  | none, _ => 0 / 0

end Number

end ServiceQuery
