import ServiceQuery.Decimal.Basic
import ServiceQuery.Number.Binary

namespace ServiceQuery.Decimal

/-- The double for a decimal. Without decimal places it is that of an integer, which has no negative
zero. Otherwise it is the whole part plus the fraction, brought back to the number of places by a
rounding. -/
def toFloat (d : Decimal) : Float :=
  if d.scale = 0 then Float.ofInt d.signedMantissa
  else
    let whole := Float.ofNat (d.mantissa / Nat.pow 10 d.scale)
    let fraction := d.mantissa % Nat.pow 10 d.scale
    let magnitude :=
      if fraction = 0 then whole
      else
        let unit := Float.ofNat (Nat.pow 10 d.scale)
        Number.roundAway ((whole + Float.ofNat fraction / unit) * unit) / unit
    if d.negative then -magnitude else magnitude

/-- Turns factors `1/2` into factors `1/10`: a mantissa is halved when it is even, and multiplied
by five or, for want of room, halved when it is odd. The first argument counts the factors left,
the pair is the mantissa and the power of ten. -/
def clearHalves : Nat → Nat × Int → Nat × Int
  | 0, d => d
  | left + 1, (mantissa, power) =>
    if mantissa % 2 = 0 then clearHalves left (mantissa / 2, power + 1)
    else if mantissa * 5 < limit then clearHalves left (mantissa * 5, power)
    else clearHalves left (mantissa / 2, power + 1)

/-- Turns factors `2` into factors `10`: the mantissa is doubled while there is room and divided by
five afterwards. -/
def clearTwos : Nat → Nat × Int → Option (Nat × Int)
  | 0, d => some d
  | left + 1, (mantissa, power) =>
    if mantissa * 2 < limit then clearTwos left (mantissa * 2, power - 1)
    else if (left + 1 : Int) < power * 2 then none
    else clearTwos left (mantissa / 5, power)

/-- Multiplies out a positive power of ten. -/
def clearTens : Nat → Nat → Option Nat
  | 0, mantissa => some mantissa
  | left + 1, mantissa => if mantissa * 10 < limit then clearTens left (mantissa * 10) else none

/-- Drops decimal places one by one, a five going up; nothing is left of a mantissa that reaches
zero. -/
def dropPlaces : Nat → Nat → Nat × Nat
  | 0, mantissa => (mantissa, 28)
  | left + 1, mantissa =>
    let shorter := mantissa / 10
    if shorter = 0 then (0, 0)
    else dropPlaces left (if 5 ≤ mantissa % 10 then shorter + 1 else shorter)

/-- The decimal for a finite floating-point number; it keeps the sign, also on zero. -/
def ofBinary? (b : BinaryNumber) : Option Decimal :=
  if b.mantissa = 0 then ofParts? b.negative 0 0
  else
    let cleared :=
      match b.exponent with
      | .ofNat twos => clearTwos twos (b.mantissa, b.exponent)
      | .negSucc halves => some (clearHalves (halves + 1) (b.mantissa, b.exponent))
    match cleared with
    | none => none
    | some (mantissa, .ofNat tens) =>
      (clearTens tens mantissa).bind fun m => ofParts? b.negative m 0
    | some (mantissa, .negSucc places) =>
      let places := places + 1
      if places ≤ 28 then ofParts? b.negative mantissa places
      else
        let (mantissa, scale) := dropPlaces (places - 28) mantissa
        ofParts? b.negative mantissa scale

end ServiceQuery.Decimal
