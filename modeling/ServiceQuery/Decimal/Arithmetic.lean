import ServiceQuery.Decimal.Basic

/-!
# Decimal arithmetic

Results are exact where they fit and otherwise rounded once, a half going to the even neighbour.
An operation has no result when places before the point would have to be dropped.
-/

namespace ServiceQuery.Decimal

/-- The sum. A zero operand leaves the other one as it is. -/
def add? (a b : Decimal) : Option Decimal :=
  if a.isZero then some b
  else if b.isZero then some a
  else
    let scale := max a.scale b.scale
    let sum := a.signedAt scale + b.signedAt scale
    fit? (sum < 0) sum.natAbs scale

/-- The difference. A zero operand leaves the other one as it is, up to its sign. -/
def sub? (a b : Decimal) : Option Decimal :=
  if a.isZero && b.isZero then some b else add? a b.neg

/-- The product. Small mantissas with more than 47 places give zero. -/
def mul? (a b : Decimal) : Option Decimal :=
  if a.isZero || b.isZero then some zero
  else if a.mantissa < UInt32.size ∧ b.mantissa < UInt32.size ∧ 47 < a.scale + b.scale then some zero
  else fit? (a.negative != b.negative) (a.mantissa * b.mantissa) (a.scale + b.scale)

/-- The remainder of the division truncated toward zero, for a divisor that is not zero. -/
def rem? (a b : Decimal) : Option Decimal :=
  if a.isZero then some zero
  else
    let scale := max a.scale b.scale
    let dividend := (a.signedAt scale).natAbs
    let divisor := (b.signedAt scale).natAbs
    if dividend = divisor then some zero
    else if dividend < divisor then some a
    else make? a.negative (dividend % divisor) scale

/-- A quotient in the making: `quotient` with `scale` places and the rest of the dividend. The
scale is negative while places before the point are still missing. -/
structure Quotient where
  quotient : Nat
  rest : Nat
  scale : Int

/-- The largest number of places, at most nine, by which a quotient can be extended. -/
def extension (quotient : Nat) (scale : Int) : Nat :=
  if scale = 28 then 0
  else
    ((List.range 10).reverse.find? fun (places : Nat) =>
      decide ((places : Int) ≤ 28 - scale) &&
        decide (quotient * Nat.pow 10 places < limit)).getD 0

/-- Drops the last place of a quotient that has become too long, a half going to the even
neighbour unless the rest is not zero. -/
def Quotient.dropPlace? (q : Quotient) : Option Quotient :=
  if q.scale - 1 < 0 then none
  else
    let last := q.quotient % 10
    let shorter := q.quotient / 10
    let up := 5 < last || (last == 5 && (q.rest != 0 || shorter % 2 == 1))
    some ⟨if up then shorter + 1 else shorter, q.rest, q.scale - 1⟩

/-- The final rounding of a quotient that cannot be extended. -/
def Quotient.roundLast? (divisor : Nat) (q : Quotient) : Option Quotient :=
  let twice := 2 * q.rest
  if divisor < twice || (twice == divisor && q.quotient % 2 == 1) then
    let up := q.quotient + 1
    if up < limit then some { q with quotient := up }
    else if q.scale - 1 < 0 then none
    else some ⟨if 5 ≤ up % 10 then up / 10 + 1 else up / 10, q.rest, q.scale - 1⟩
  else some q

/-- Extends a quotient by `places` places. -/
def Quotient.extend (divisor places : Nat) (q : Quotient) : Quotient :=
  { quotient := q.quotient * Nat.pow 10 places + q.rest * Nat.pow 10 places / divisor
    rest := q.rest * Nat.pow 10 places % divisor
    scale := q.scale + places }

/-- Long division in steps of up to nine places, with `fuel` steps. The flag says whether a step
left a rest, so that trailing zeros may have been produced. -/
def divideFrom (divisor : Nat) : Nat → Bool → Quotient → Option (Quotient × Bool)
  | 0, inexact, q => some (q, inexact)
  | fuel + 1, inexact, q =>
    if q.rest = 0 then
      if 0 ≤ q.scale then some (q, inexact)
      else
        let places := min 9 (-q.scale).toNat
        if q.quotient * Nat.pow 10 places < limit then
          divideFrom divisor fuel inexact (q.extend divisor places)
        else none
    else
      let places := extension q.quotient q.scale
      if places < 9 ∧ q.scale + places < 0 then none
      else if places = 0 then (q.roundLast? divisor).map (·, true)
      else
        let longer := q.extend divisor places
        if longer.quotient < limit then divideFrom divisor fuel true longer
        else longer.dropPlace?.map (·, true)

/-- Removes `places` trailing zeros when the quotient is a multiple of `2 ^ twos` and has them. -/
def stripOnce (twos places : Nat) (q : Nat × Int) : Nat × Int :=
  if q.1 % Nat.pow 2 twos = 0 ∧ (places : Int) ≤ q.2 ∧ q.1 % Nat.pow 10 places = 0 then
    (q.1 / Nat.pow 10 places, q.2 - places)
  else q

/-- Removes trailing zeros in groups of eight, then of four, two and one. -/
def stripPlaces (q : Nat × Int) : Nat × Int :=
  let q := stripOnce 32 8 (stripOnce 32 8 (stripOnce 32 8 q))
  stripOnce 1 1 (stripOnce 2 2 (stripOnce 4 4 q))

/-- The quotient, for a divisor that is not zero. -/
def div? (a b : Decimal) : Option Decimal :=
  if a.isZero then some zero
  else
    let start : Quotient :=
      ⟨a.mantissa / b.mantissa, a.mantissa % b.mantissa, (a.scale : Int) - b.scale⟩
    match divideFrom b.mantissa 64 false start with
    | none => none
    | some (q, inexact) =>
      let (quotient, scale) :=
        if inexact then stripPlaces (q.quotient, q.scale) else (q.quotient, q.scale)
      make? (a.negative != b.negative) quotient scale.toNat

/-- The whole part of the magnitude. -/
def wholePart (d : Decimal) : Nat := d.mantissa / Nat.pow 10 d.scale

/-- Whether the number is an integer. -/
def isWhole (d : Decimal) : Bool := d.mantissa % Nat.pow 10 d.scale == 0

/-- The decimal without places and with the given magnitude, or `d` when that is out of bounds. -/
def withWhole (d : Decimal) (negative : Bool) (magnitude : Nat) : Decimal :=
  (ofParts? negative magnitude 0).getD d

/-- The largest integer below or at the number. -/
def floor (d : Decimal) : Decimal :=
  d.withWhole d.negative (if d.negative && !d.isWhole then d.wholePart + 1 else d.wholePart)

/-- The smallest integer above or at the number; it keeps the sign when it is zero. -/
def ceiling (d : Decimal) : Decimal :=
  d.withWhole d.negative (if !d.negative && !d.isWhole then d.wholePart + 1 else d.wholePart)

/-- The nearest integer, a half going to the even neighbour; a zero loses its sign. -/
def round (d : Decimal) : Decimal :=
  if d.scale = 0 then d
  else
    let magnitude := roundedQuotient d.mantissa (Nat.pow 10 d.scale)
    d.withWhole (d.negative && magnitude != 0) magnitude

end ServiceQuery.Decimal
