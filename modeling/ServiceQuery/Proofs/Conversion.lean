import ServiceQuery.Proofs.Arithmetic
import ServiceQuery.Proofs.Comparison
import ServiceQuery.Proofs.Number.Decimal

/-!
# Conversion between exact numbers

A conversion of an integer or a decimal to a decimal keeps the number, and a conversion to an
integer type drops the fraction. A decimal becomes an integer by way of a double, and this is right
only for decimals that the double keeps apart from the integers around them.
-/

namespace ServiceQuery

/-- A number without its fraction. -/
def towardZero (q : ℚ) : ℤ := if 0 ≤ q then ⌊q⌋ else ⌈q⌉

theorem towardZero_of_nonneg {q : ℚ} (h : 0 ≤ q) : towardZero q = ⌊q⌋ := if_pos h

theorem towardZero_neg_of_nonneg {q : ℚ} (h : 0 ≤ q) : towardZero (-q) = -⌊q⌋ := by
  obtain rfl | hpos := h.eq_or_lt
  · simp [towardZero]
  · rw [towardZero, if_neg (by linarith), Int.ceil_neg]

theorem towardZero_intCast (n : ℤ) : towardZero n = n := by
  unfold towardZero
  split
  · exact Int.floor_intCast n
  · exact Int.ceil_intCast n

namespace Width

/-- The type of the integers of a width. -/
def ty : Width → Ty
  | bits32 => .int32
  | bits64 => .int64

variable {width : Width}

theorem least_eq (width : Width) : width.least = -width.greatest - 1 := by
  cases width <;> decide

theorem one_le_greatest (width : Width) : 1 ≤ width.greatest := by
  cases width <;> decide

theorem value?_bits64 (n : Int64) : bits64.value? n.toInt = some (.int64 n) :=
  value?_eq_some.2 ⟨n, rfl, rfl⟩

theorem not_fits_of_lt {n : ℤ} (h : width.greatest + 1 < n) (negative : Bool) :
    ¬width.Fits (if negative then -n else n) := by
  have hleast := width.least_eq
  rintro ⟨hlow, hhigh⟩
  cases negative with
  | false =>
    rw [if_neg Bool.false_ne_true] at hhigh
    omega
  | true =>
    rw [if_pos rfl] at hlow
    omega

end Width

namespace Decimal

variable {d : Decimal} {width : Width}

theorem magnitude_nonneg (d : Decimal) : 0 ≤ d.magnitude := by
  unfold magnitude
  positivity

theorem toRat_eq (d : Decimal) : d.toRat = if d.negative then -d.magnitude else d.magnitude := by
  unfold toRat signedMantissa magnitude
  cases d.negative with
  | false => simp
  | true => simp [neg_div]

theorem towardZero_toRat (d : Decimal) :
    towardZero d.toRat = if d.negative then -⌊d.magnitude⌋ else ⌊d.magnitude⌋ := by
  rw [toRat_eq]
  cases d.negative with
  | false => exact towardZero_of_nonneg d.magnitude_nonneg
  | true => exact towardZero_neg_of_nonneg d.magnitude_nonneg

theorem floor_magnitude (d : Decimal) : ⌊d.magnitude⌋ = (d.mantissa / 10 ^ d.scale : ℕ) := by
  rw [magnitude, Rat.floor_natCast_div_natCast]
  rfl

/-- The decimal is an integer of at most 53 bits, or its distance from the integers around it is at
least one part in `2 ^ 48` of it, or it is far beyond the integers of the width. -/
def IsSettled (d : Decimal) (width : Width) : Prop :=
  let unit := 10 ^ d.scale
  let rest := d.mantissa % unit
  (rest = 0 ∧ d.mantissa / unit ≤ 2 ^ 53) ∨ d.mantissa ≤ 2 ^ 48 * min rest (unit - rest) ∨
    2 * width.greatest + 2 ≤ (d.mantissa / unit : ℕ)

/-- Closer to a decimal than an integer is, the integer part is the same. -/
theorem floor_eq_of_close {v : ℚ} (h : d.mantissa ≤ 2 ^ 48 *
      min (d.mantissa % 10 ^ d.scale) (10 ^ d.scale - d.mantissa % 10 ^ d.scale))
    (hv : |v - d.magnitude| < d.magnitude / 2 ^ 48) : ⌊v⌋ = ⌊d.magnitude⌋ := by
  obtain ⟨hbelow, habove⟩ := abs_lt.1 hv
  rw [floor_magnitude, Int.floor_eq_iff]
  have hu : 0 < 10 ^ d.scale := Nat.pow_pos (by decide)
  unfold magnitude at hbelow habove
  generalize d.mantissa = m at *
  generalize 10 ^ d.scale = u at *
  have hr : m % u < u := Nat.mod_lt m hu
  have huq : (0 : ℚ) < u := by exact_mod_cast hu
  have hsplit := Number.natCast_div_eq m hu
  -- an integer is no closer than the error
  have hlower : (m : ℚ) / u / 2 ^ 48 ≤ (m % u : ℕ) / u := by
    have hle : (m : ℚ) ≤ 2 ^ 48 * (m % u : ℕ) := by
      exact_mod_cast h.trans (Nat.mul_le_mul_left _ (Nat.min_le_left _ _))
    rw [div_right_comm]
    exact div_le_div_of_nonneg_right (by linarith) huq.le
  have hupper : (m : ℚ) / u / 2 ^ 48 ≤ 1 - (m % u : ℕ) / u := by
    have hle : (m : ℚ) ≤ 2 ^ 48 * (u - (m % u : ℕ)) := by
      rw [← Nat.cast_sub hr.le]
      exact_mod_cast h.trans (Nat.mul_le_mul_left _ (Nat.min_le_right _ _))
    rw [div_right_comm, ← div_self huq.ne', ← sub_div]
    exact div_le_div_of_nonneg_right (by linarith) huq.le
  rw [Int.cast_natCast]
  constructor <;> linarith

theorem lt_floor_of_close {v : ℚ} (h : 2 * width.greatest + 2 ≤ ⌊d.magnitude⌋)
    (hv : |v - d.magnitude| < d.magnitude / 2 ^ 48) : width.greatest + 1 < ⌊v⌋ := by
  obtain ⟨hbelow, -⟩ := abs_lt.1 hv
  have hgreatest : (1 : ℚ) ≤ width.greatest := by exact_mod_cast width.one_le_greatest
  have hfar := Int.le_floor.1 h
  push_cast at hfar
  have hle : width.greatest + 2 ≤ ⌊v⌋ := by
    rw [Int.le_floor]
    push_cast
    linarith
  omega

/-- The integer part of a decimal by way of a double. -/
theorem value?_toFloat (h : d.IsSettled width) :
    (Number.toInt? d.toFloat).bind width.value? = width.value? (towardZero d.toRat) := by
  obtain ⟨v, htoInt, hclose, hexact⟩ := d.toInt?_toFloat
  rw [htoInt, Option.bind_some, towardZero_toRat]
  obtain rfl | hclose := hclose
  · rfl
  obtain ⟨hrest, hwhole⟩ | hgap | hfar := h
  · rw [hexact hrest hwhole]
  · rw [floor_eq_of_close hgap hclose]
  · rw [← floor_magnitude] at hfar
    have hgreatest := width.one_le_greatest
    rw [Width.value?_eq_none.2 (Width.not_fits_of_lt (lt_floor_of_close hfar hclose) d.negative),
      Width.value?_eq_none.2 (Width.not_fits_of_lt (by omega) d.negative)]

/-- The double has an integer part close to the decimal. -/
theorem exists_toInt?_toFloat (d : Decimal) :
    ∃ n : ℤ, Number.toInt? d.toFloat = some n ∧ |(n : ℚ) - d.toRat| < 1 + |d.toRat| / 2 ^ 48 := by
  obtain ⟨v, htoInt, hclose, -⟩ := d.toInt?_toFloat
  have hnonneg := d.magnitude_nonneg
  have herror : |v - d.magnitude| ≤ d.magnitude / 2 ^ 48 := by
    obtain rfl | hclose := hclose
    · rw [sub_self, abs_zero]
      positivity
    · exact hclose.le
  obtain ⟨hbelow, habove⟩ := abs_le.1 herror
  have hfloor : |(⌊v⌋ : ℚ) - d.magnitude| < 1 + d.magnitude / 2 ^ 48 := by
    have := Int.floor_le v
    have := Int.lt_floor_add_one v
    rw [abs_lt]
    constructor <;> linarith
  refine ⟨_, htoInt, ?_⟩
  rw [toRat_eq]
  cases d.negative with
  | false => simpa [abs_of_nonneg hnonneg] using hfloor
  | true =>
    simp only [if_true, Int.cast_neg, abs_neg, abs_of_nonneg hnonneg]
    rwa [neg_sub_neg, abs_sub_comm]

/-- The double for an integer is that of the decimal with its value. -/
theorem toFloat_ofInt64 (n : Int64) : (ofInt64 n).toFloat = Float.ofInt n.toInt := by
  have hscale : (ofInt64 n).scale = 0 := rfl
  rw [toFloat, if_pos hscale, signedMantissa_ofInt64]

theorem mantissa_div_ofInt64 (n : Int64) :
    (ofInt64 n).mantissa / 10 ^ (ofInt64 n).scale = n.toInt.natAbs :=
  Nat.div_one _

theorem isSettled_of_natAbs_le {n : Int64} (hn : n.toInt.natAbs ≤ 2 ^ 53) (width : Width) :
    (ofInt64 n).IsSettled width :=
  .inl ⟨Nat.mod_one _, (mantissa_div_ofInt64 n).trans_le hn⟩

/-- Seen from 32 bits, a 64-bit integer has at most 53 bits or is far out of bounds. -/
theorem isSettled_bits32 (n : Int64) : (ofInt64 n).IsSettled .bits32 := by
  by_cases hn : n.toInt.natAbs ≤ 2 ^ 53
  · exact isSettled_of_natAbs_le hn .bits32
  · have hgreatest : Width.bits32.greatest = 2147483647 := rfl
    refine .inr (.inr ?_)
    rw [mantissa_div_ofInt64, hgreatest]
    omega

end Decimal

namespace Value

variable {value : Value} {q : ℚ} {width : Width} {ty : Ty}

theorem toInt32?_eq (value : Value) :
    value.toInt32? = (value.integer?.bind int32?).or (value.truncated?.bind int32?) := by
  unfold toInt32?
  cases value.integer?.bind int32? <;> rfl

theorem toInt64?_eq (value : Value) :
    value.toInt64? = (value.integer?.bind int64?).or (value.truncated?.bind int64?) := by
  unfold toInt64?
  cases value.integer?.bind int64? <;> rfl

/-- An integer is tried first, and then the integer part of a double. -/
theorem convertTo?_eq (value : Value) (width : Width) :
    value.convertTo? width.ty =
      (value.integer?.bind width.value?).or (value.truncated?.bind width.value?) := by
  cases width with
  | bits32 =>
    simp only [Width.ty, convertTo?, toInt32?_eq, Option.map_or, Option.map_bind]
    rfl
  | bits64 =>
    simp only [Width.ty, convertTo?, toInt64?_eq, Option.map_or, Option.map_bind]
    rfl

theorem value?_or_toFloat (n : Int64) (width : Width) :
    (width.value? n.toInt).or ((Number.toInt? (Float.ofInt n.toInt)).bind width.value?) =
      width.value? n.toInt := by
  cases width with
  | bits32 =>
    have hdouble := Decimal.value?_toFloat (Decimal.isSettled_bits32 n)
    rw [Decimal.toRat_ofInt64, towardZero_intCast, Decimal.toFloat_ofInt64] at hdouble
    rw [hdouble, Option.or_self]
  | bits64 =>
    rw [Width.value?_bits64, Option.some_or]

/-- The conversion of an exact number to an integer type. -/
theorem convertTo?_width (hq : value.number? = some q)
    (hsettled : ∀ d, value = decimal d → d.IsSettled width) :
    value.convertTo? width.ty = width.value? (towardZero q) := by
  rw [convertTo?_eq]
  obtain ⟨n, rfl, rfl⟩ | ⟨n, rfl, rfl⟩ | ⟨d, rfl, rfl⟩ := number?_cases hq
  · rw [towardZero_intCast]
    have hinteger := value?_or_toFloat n.toInt64 width
    rwa [Int32.toInt_toInt64] at hinteger
  · rw [towardZero_intCast]
    exact value?_or_toFloat n width
  · exact Decimal.value?_toFloat (hsettled d rfl)

/-- A value of the type already is the integer that it denotes. -/
theorem value?_of_ty_eq (hq : value.number? = some q) (hty : value.ty = width.ty) :
    width.value? (towardZero q) = some value := by
  obtain ⟨n, rfl, rfl⟩ | ⟨n, rfl, rfl⟩ | ⟨d, rfl, rfl⟩ := number?_cases hq
  · cases width with
    | bits32 =>
      rw [towardZero_intCast]
      exact Width.value?_eq_some.2 ⟨n, rfl, rfl⟩
    | bits64 => cases hty
  · cases width with
    | bits32 => cases hty
    | bits64 => rw [towardZero_intCast, Width.value?_bits64]
  · cases width <;> cases hty

theorem convert_of_ty_ne (hty : ty.nonNullable = width.ty) (hne : value.ty ≠ width.ty) :
    value.convert ty =
      (value.convertTo? width.ty).elim (.error (.invalidConversion value ty)) .ok := by
  have hobject : width.ty ≠ .object := by cases width <;> simp [Width.ty]
  simp only [convert, hty]
  rw [if_neg (not_or.2 ⟨hobject, hne⟩)]
  cases value.convertTo? width.ty <;> rfl

theorem convert_width (hq : value.number? = some q) (hty : ty.nonNullable = width.ty)
    (hsettled : ∀ d, value = decimal d → d.IsSettled width) :
    value.convert ty =
      (width.value? (towardZero q)).elim (.error (.invalidConversion value ty)) .ok := by
  by_cases hsame : value.ty = width.ty
  · simp only [convert, hty]
    rw [if_pos (.inr hsame), value?_of_ty_eq hq hsame]
    rfl
  · rw [convert_of_ty_ne hty hsame, convertTo?_width hq hsettled]

theorem convert_decimal (hq : value.number? = some q) (hty : ty.nonNullable = .decimal) :
    ∃ d, value.convert ty = .ok (.decimal d) ∧ d.toRat = q := by
  obtain ⟨n, rfl, rfl⟩ | ⟨n, rfl, rfl⟩ | ⟨d, rfl, rfl⟩ := number?_cases hq
  · refine ⟨.ofInt64 n.toInt64, ?_, ?_⟩
    · simp only [convert, hty]
      rfl
    · rw [Decimal.toRat_ofInt64, Int32.toInt_toInt64]
  · refine ⟨.ofInt64 n, ?_, Decimal.toRat_ofInt64 n⟩
    simp only [convert, hty]
    rfl
  · refine ⟨d, ?_, rfl⟩
    simp only [convert, hty]
    rfl

/-- In any case a conversion goes by an integer close to the number. -/
theorem convert_close (hq : value.number? = some q) (hty : ty.nonNullable = width.ty) :
    ∃ n : ℤ, |(n : ℚ) - q| < 1 + |q| / 2 ^ 48 ∧
      value.convert ty = (width.value? n).elim (.error (.invalidConversion value ty)) .ok := by
  have hinteger {n : ℤ} (hn : (n : ℚ) = q) (hdecimal : ∀ d, value ≠ decimal d) :
      ∃ n : ℤ, |(n : ℚ) - q| < 1 + |q| / 2 ^ 48 ∧
        value.convert ty = (width.value? n).elim (.error (.invalidConversion value ty)) .ok := by
    refine ⟨n, ?_, ?_⟩
    · rw [hn, sub_self, abs_zero]
      positivity
    · rw [convert_width hq hty fun d hd => absurd hd (hdecimal d), ← hn, towardZero_intCast]
  obtain ⟨n, rfl, hn⟩ | ⟨n, rfl, hn⟩ | ⟨d, rfl, rfl⟩ := number?_cases hq
  · exact hinteger hn (by simp)
  · exact hinteger hn (by simp)
  · obtain ⟨n, htoInt, hclose⟩ := d.exists_toInt?_toFloat
    have htruncated : (decimal d).truncated? = some n := htoInt
    refine ⟨n, hclose, ?_⟩
    have hne : (decimal d).ty ≠ width.ty := by cases width <;> simp [Width.ty, Value.ty]
    rw [convert_of_ty_ne hty hne, convertTo?_eq, htruncated]
    rfl

/-- The outcome is the integer `n` when it is one of the width, and a failure to convert the value
otherwise. -/
def IsConversion (value : Value) (ty : Ty) (width : Width) (n : ℤ)
    (outcome : Except EvalError Value) : Prop :=
  (width.Fits n → ∃ result, outcome = .ok result ∧ width.Holds n result) ∧
    (¬width.Fits n → outcome = .error (.invalidConversion value ty))

theorem isConversion_elim (value : Value) (ty : Ty) (width : Width) (n : ℤ) :
    value.IsConversion ty width n
      ((width.value? n).elim (.error (.invalidConversion value ty)) .ok) := by
  cases hvalue : width.value? n with
  | none => exact ⟨fun hfits => absurd hfits (Width.value?_eq_none.1 hvalue), fun _ => rfl⟩
  | some result =>
    have hholds := Width.value?_eq_some.1 hvalue
    exact ⟨fun _ => ⟨result, rfl, hholds⟩, fun hfits => absurd hholds.fits hfits⟩

end Value

namespace Expr

variable {operand : Expr} {value : Value} {q : ℚ} {ty : Ty}

theorem evaluate_unary_convert (hv : operand.evaluate = .ok value) (hq : value.number? = some q) :
    (unary .convert operand ty).evaluate = value.convert ty := by
  rw [evaluate, hv]
  obtain ⟨n, rfl, -⟩ | ⟨n, rfl, -⟩ | ⟨d, rfl, -⟩ := Value.number?_cases hq
  all_goals rfl

theorem evaluate_convert_back {n : Int64} (hv : operand.evaluate = .ok (.int64 n))
    (hn : n.toInt.natAbs ≤ 2 ^ 53) :
    (unary .convert (unary .convert operand .decimal) .int64).evaluate = .ok (.int64 n) := by
  have hdecimal : (unary .convert operand .decimal).evaluate = .ok (.decimal (.ofInt64 n)) :=
    evaluate_unary_convert hv rfl
  have hnumber : (Value.decimal (.ofInt64 n)).number? = some (n.toInt : ℚ) :=
    congrArg some (Decimal.toRat_ofInt64 n)
  have hsettled (d : Decimal) (hd : Value.decimal (.ofInt64 n) = .decimal d) :
      d.IsSettled .bits64 := by
    cases hd
    exact Decimal.isSettled_of_natAbs_le hn .bits64
  rw [evaluate_unary_convert hdecimal hnumber, Value.convert_width hnumber rfl hsettled,
    towardZero_intCast, Width.value?_bits64]
  rfl

/-- Conversions between exact types. A decimal type keeps the number. An integer type drops the
fraction of integers and of settled decimals, and fails exactly when the integer does not fit; from
any number it goes by an integer close to it. An integer of at most 53 bits survives the way to a
decimal and back. -/
theorem evaluate_convert (ty : Ty) (hv : operand.evaluate = .ok value)
    (hq : value.number? = some q) :
    (ty.nonNullable = .decimal →
      ∃ d, (unary .convert operand ty).evaluate = .ok (.decimal d) ∧ d.toRat = q) ∧
    (∀ width : Width, ty.nonNullable = width.ty →
      ((∀ d, value = .decimal d → d.IsSettled width) →
        value.IsConversion ty width (towardZero q) (unary .convert operand ty).evaluate) ∧
      ∃ n : ℤ, |(n : ℚ) - q| < 1 + |q| / 2 ^ 48 ∧
        value.IsConversion ty width n (unary .convert operand ty).evaluate) ∧
    (∀ n : Int64, value = .int64 n → n.toInt.natAbs ≤ 2 ^ 53 →
      (unary .convert (unary .convert operand .decimal) .int64).evaluate = .ok value) := by
  rw [evaluate_unary_convert hv hq]
  refine ⟨Value.convert_decimal hq, fun width hty => ⟨fun hsettled => ?_, ?_⟩, ?_⟩
  · rw [Value.convert_width hq hty hsettled]
    exact value.isConversion_elim ty width (towardZero q)
  · obtain ⟨n, hclose, hconvert⟩ := Value.convert_close hq hty
    rw [hconvert]
    exact ⟨n, hclose, value.isConversion_elim ty width n⟩
  · rintro n rfl hn
    exact evaluate_convert_back hv hn

/-- Minus three and three quarters. -/
def loss : Decimal :=
  { Decimal.ofInt64 (-375) with scale := 2, scale_le := Nat.le_add_right 2 26 }

/-- The fraction is dropped, also of a number below zero and with a nullable type. -/
theorem evaluate_convert_loss :
    (constant (.decimal loss)).evaluate = .ok (.decimal loss) ∧ loss.IsSettled .bits32 ∧
      towardZero loss.toRat = -3 ∧ Width.bits32.Fits (towardZero loss.toRat) ∧
      (∃ result,
        (unary .convert (constant (.decimal loss)) (.nullable .int32)).evaluate = .ok result ∧
          Width.bits32.Holds (towardZero loss.toRat) result) ∧
      (unary .convert (unary .convert (constant (.int64 9007199254740992)) .decimal)
        .int64).evaluate = .ok (.int64 9007199254740992) := by
  have hv : (constant (.decimal loss)).evaluate = .ok (.decimal loss) := rfl
  have hq : (Value.decimal loss).number? = some loss.toRat := rfl
  have hty : (Ty.nullable .int32).nonNullable = Width.bits32.ty := rfl
  have hsettled : loss.IsSettled .bits32 := .inr (.inl (by decide))
  have hwhole : towardZero loss.toRat = -3 := by
    rw [Decimal.towardZero_toRat, Decimal.floor_magnitude]
    rfl
  have hfits : Width.bits32.Fits (towardZero loss.toRat) := by
    rw [hwhole]
    decide
  have hloss (d : Decimal) (hd : Value.decimal loss = .decimal d) : d.IsSettled .bits32 := by
    cases hd
    exact hsettled
  have hint : (constant (.int64 9007199254740992)).evaluate = .ok (.int64 9007199254740992) := rfl
  exact ⟨hv, hsettled, hwhole, hfits,
    (((evaluate_convert _ hv hq).2.1 .bits32 hty).1 hloss).1 hfits,
    (evaluate_convert .decimal hint rfl).2.2 _ rfl (by decide)⟩

/-- Two to the 53rd and one. -/
def wide : Decimal := .ofInt64 9007199254740993

/-- An integer of 54 bits is changed on its way from a decimal, and the greatest integer does not
come back at all. -/
theorem evaluate_convert_rounded :
    (unary .convert (constant (.decimal wide)) .int64).evaluate = .ok (.int64 9007199254740992) ∧
      wide.toRat = 9007199254740993 ∧ Width.bits64.Fits (towardZero wide.toRat) ∧
      ¬Width.bits64.Holds (towardZero wide.toRat) (.int64 9007199254740992) ∧
      (unary .convert (unary .convert (constant (.int64 Int64.maxValue)) .decimal)
        .int64).evaluate =
          .error (.invalidConversion (.decimal (.ofInt64 Int64.maxValue)) .int64) := by
  have htoRat : wide.toRat = (9007199254740993 : ℤ) := Decimal.toRat_ofInt64 9007199254740993
  refine ⟨rfl, by rw [htoRat]; norm_num, ?_, ?_, rfl⟩
  · rw [htoRat, towardZero_intCast]
    decide
  · rw [htoRat, towardZero_intCast]
    rintro ⟨k, hk, hvalue⟩
    cases hk
    cases hvalue

end Expr

end ServiceQuery
