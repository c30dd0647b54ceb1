import ServiceQuery.Number.Binary

/-!
# Shortest decimal digits

The shortest decimal that reads back as a given binary floating-point number, and among the
shortest the one nearest to the number.
-/

namespace ServiceQuery.Number

/-- The choice between two neighbours that are equally near. -/
inductive Tie where
  /-- The larger neighbour. -/
  | up
  /-- The even neighbour. -/
  | even
  deriving DecidableEq

/-- The one of `below` and `below + 1` that is chosen when both are equally near. -/
def Tie.choose (below : Nat) : Tie → Nat
  | up => below + 1
  | even => below + below % 2

/-- The reals from `low` to `high` around `value`, all in units of `2 ^ exponent`; the ends count
when `closed` holds. -/
structure Interval where
  low : Nat
  value : Nat
  high : Nat
  exponent : Int
  closed : Bool

/-- The reals that round to `mantissa * 2 ^ exponent`. The gap below is half as wide when
`narrow` holds, at the bottom of a binade; ties round to the even mantissa. -/
def Interval.around (mantissa : Nat) (exponent : Int) (narrow : Bool) : Interval :=
  { low := if narrow then 4 * mantissa - 1 else 4 * mantissa - 2
    value := 4 * mantissa
    high := 4 * mantissa + 2
    exponent := exponent - 2
    closed := mantissa % 2 == 0 }

/-- Whether `n * scale` lies between the ends multiplied by `unit`. -/
def Interval.holds (i : Interval) (unit scale n : Nat) : Bool :=
  if i.closed then i.low * unit ≤ n * scale && n * scale ≤ i.high * unit
  else i.low * unit < n * scale && n * scale < i.high * unit

/-- The multiple of `10 ^ power` in the interval that is nearest to the value. -/
def Interval.multiple? (tie : Tie) (i : Interval) (power : Int) : Option Nat :=
  let unit := Nat.pow 2 i.exponent.toNat * Nat.pow 10 (-power).toNat
  let scale := Nat.pow 2 (-i.exponent).toNat * Nat.pow 10 power.toNat
  let below := i.value * unit / scale
  let above := below + 1
  let rest := i.value * unit % scale
  match i.holds unit scale below, i.holds unit scale above with
  | true, true =>
    if 2 * rest < scale then some below
    else if scale < 2 * rest then some above
    else some (tie.choose below)
  | true, false => some below
  | false, true => some above
  | false, false => none

/-- Tries `power`, `power - 1`, and so on. -/
def Interval.shortestFrom (tie : Tie) (i : Interval) : Nat → Int → Nat × Int
  | 0, power => ((i.multiple? tie power).getD 0, power)
  | fuel + 1, power =>
    match i.multiple? tie power with
    | some n => (n, power)
    | none => i.shortestFrom tie fuel (power - 1)

/-- The shortest decimal `n * 10 ^ power` in the interval. The search starts at a power of ten
above the value; seventeen digits below the leading one are always enough. -/
def Interval.shortest (tie : Tie) (i : Interval) : Nat × Int :=
  let bits : Int := i.value.log2 + i.exponent
  i.shortestFrom tie 24 (bits * 30103 / 100000 + 2)

/-- Removes trailing zeros, at most `fuel` of them. -/
def stripZeros : Nat → Nat × Int → Nat × Int
  | 0, d => d
  | fuel + 1, (n, power) =>
    if n ≠ 0 ∧ n % 10 = 0 then stripZeros fuel (n / 10, power + 1) else (n, power)

/-- The shortest digits of a non-negative binary number with `fractionBits` stored bits whose
smallest exponent is `least`: a number without trailing zeros and a power of ten. -/
def shortestDigits (fractionBits : Nat) (least : Int) (tie : Tie) (d : BinaryNumber) : Nat × Int :=
  if d.mantissa = 0 then (0, 0)
  else
    let narrow := d.mantissa == Nat.pow 2 fractionBits && d.exponent != least
    stripZeros 24 ((Interval.around d.mantissa d.exponent narrow).shortest tie)

/-- The shortest digits of the magnitude of a double. -/
def digits64 (tie : Tie) (d : BinaryNumber) : Nat × Int := shortestDigits 52 (-1074) tie d

/-- The shortest digits of the magnitude of a single. -/
def digits32 (tie : Tie) (d : BinaryNumber) : Nat × Int := shortestDigits 23 (-149) tie d

end ServiceQuery.Number
