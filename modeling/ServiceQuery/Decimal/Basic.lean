/-!
# Decimal numbers

A decimal number has a mantissa of at most 96 bits and at most 28 decimal places. The number of
places is part of the value, so `1.5` and `1.50` are different decimals that denote one number.
-/

namespace ServiceQuery

/-- The least number of more than 96 bits. -/
def Decimal.limit : Nat := 79228162514264337593543950336

/-- The number `±mantissa / 10 ^ scale`. -/
structure Decimal where
  negative : Bool
  mantissa : Nat
  scale : Nat
  mantissa_lt : mantissa < Decimal.limit
  scale_le : scale ≤ 28
  deriving DecidableEq

namespace Decimal

/-- A decimal from its parts, when they are in bounds. -/
def ofParts? (negative : Bool) (mantissa scale : Nat) : Option Decimal :=
  if h : mantissa < limit ∧ scale ≤ 28 then some ⟨negative, mantissa, scale, h.1, h.2⟩ else none

/-- A decimal from its parts, when they are in bounds; a zero has no sign. -/
def make? (negative : Bool) (mantissa scale : Nat) : Option Decimal :=
  ofParts? (negative && mantissa != 0) mantissa scale

/-- The decimal zero without places. -/
def zero : Decimal := ⟨false, 0, 0, by decide, by decide⟩

instance : Inhabited Decimal := ⟨zero⟩

/-- Whether the number is zero. -/
def isZero (d : Decimal) : Bool := d.mantissa == 0

/-- The decimal with the opposite sign, also of zero. -/
def neg (d : Decimal) : Decimal := { d with negative := !d.negative }

/-- The decimal without its sign. -/
def abs (d : Decimal) : Decimal := { d with negative := false }

/-- The decimal of an integer whose magnitude has at most 96 bits. -/
def ofInt? (n : Int) : Option Decimal := make? (n < 0) n.natAbs 0

/-- The mantissa with its sign. -/
def signedMantissa (d : Decimal) : Int :=
  if d.negative then -(d.mantissa : Int) else d.mantissa

/-- The signed mantissa rescaled to `scale` places, for `d.scale ≤ scale`. -/
def signedAt (d : Decimal) (scale : Nat) : Int := d.signedMantissa * Nat.pow 10 (scale - d.scale)

/-- The quotient rounded to the nearest integer, a half going to the even neighbour. -/
def roundedQuotient (n d : Nat) : Nat :=
  let quotient := n / d
  let twice := 2 * (n % d)
  if twice < d then quotient
  else if d < twice then quotient + 1
  else quotient + quotient % 2

/-- The nearest decimal to `±mantissa / 10 ^ scale`, after dropping the fewest decimal places that
bring both parts into bounds. There is none when places before the point would have to go. -/
def fit? (negative : Bool) (mantissa scale : Nat) : Option Decimal :=
  (List.range (scale + 1)).findSome? fun dropped =>
    make? negative (roundedQuotient mantissa (Nat.pow 10 dropped)) (scale - dropped)

/-- Comparison of the numbers that two decimals denote. -/
def compare (a b : Decimal) : Ordering :=
  let scale := max a.scale b.scale
  Ord.compare (a.signedAt scale) (b.signedAt scale)

/-- Whether two decimals denote one number. -/
def numEq (a b : Decimal) : Bool := a.compare b == .eq

end Decimal

end ServiceQuery
