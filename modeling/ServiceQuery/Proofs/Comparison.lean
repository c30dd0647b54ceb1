import Mathlib.Algebra.Order.Field.Rat
import Mathlib.Order.Compare
import Mathlib.Tactic.FieldSimp
import ServiceQuery.Proofs.Equality
import ServiceQuery.Proofs.Monad
import ServiceQuery.Eval.Basic

/-!
# Comparison of exact values

Integers and decimals denote rational numbers, and they are compared as these, whatever their types
are. Other values are equal when they are the same. Together this gives an equivalence of the values
that have no floating-point number in them.
-/

namespace ServiceQuery

theorem compares_cast {order : Ordering} {m n : Int} :
    order.Compares (m : ℚ) n ↔ order.Compares m n :=
  Int.cast_strictMono.compares

namespace Decimal

/-- The number that a decimal denotes. -/
def toRat (d : Decimal) : ℚ := d.signedMantissa / 10 ^ d.scale

theorem signedAt_eq (d : Decimal) {scale : Nat} (h : d.scale ≤ scale) :
    (d.signedAt scale : ℚ) = d.toRat * 10 ^ scale := by
  have hpow : (10 : ℚ) ^ scale = 10 ^ (scale - d.scale) * 10 ^ d.scale := by
    rw [← pow_add, Nat.sub_add_cancel h]
  rw [toRat, hpow, signedAt, Nat.pow_eq]
  push_cast
  field_simp

theorem compare_compares (a b : Decimal) : (a.compare b).Compares a.toRat b.toRat := by
  have hpos : (0 : ℚ) < 10 ^ max a.scale b.scale := pow_pos (by norm_num) _
  have hscaled : (a.compare b).Compares (a.signedAt (max a.scale b.scale))
      (b.signedAt (max a.scale b.scale)) := (compare_iff _ _).1 rfl
  -- both numbers have been multiplied by the same power of ten
  rwa [← compares_cast, a.signedAt_eq (Nat.le_max_left _ _), b.signedAt_eq (Nat.le_max_right _ _),
    (strictMono_mul_right_of_pos hpos).compares] at hscaled

theorem numEq_iff (a b : Decimal) : a.numEq b = true ↔ a.toRat = b.toRat := by
  rw [numEq, beq_iff_eq, (a.compare_compares b).eq_eq]

theorem signedMantissa_ofInt64 (n : Int64) : (ofInt64 n).signedMantissa = n.toInt := by
  unfold ofInt64 signedMantissa
  split
  · next h =>
    have hneg : n.toInt < 0 := by simpa using h
    simp only []
    omega
  · next h =>
    have hnonneg : 0 ≤ n.toInt := by simpa using h
    simp only []
    omega

theorem toRat_ofInt64 (n : Int64) : (ofInt64 n).toRat = n.toInt := by
  have hscale : (ofInt64 n).scale = 0 := rfl
  rw [toRat, signedMantissa_ofInt64, hscale, pow_zero, div_one]

end Decimal

/-- What a comparison says about two numbers. -/
def BinaryOp.Relates : BinaryOp → ℚ → ℚ → Prop
  | equal, p, q => p = q
  | notEqual, p, q => p ≠ q
  | lessThan, p, q => p < q
  | lessThanOrEqual, p, q => p ≤ q
  | greaterThan, p, q => q < p
  | greaterThanOrEqual, p, q => q ≤ p
  | _, _, _ => False

namespace Value

/-- The number that an integer or a decimal denotes. -/
def number? : Value → Option ℚ
  | int32 n => some n.toInt
  | int64 n => some n.toInt
  | decimal d => some d.toRat
  | _ => none

mutual

/-- Whether no part of a value is a floating-point number. -/
def isFloatless : Value → Bool
  | single _ | double _ => false
  | array _ items => floatlessItems items
  | record fields => floatlessFields fields
  | _ => true

/-- Whether no part of the items is a floating-point number. -/
def floatlessItems : List Value → Bool
  | [] => true
  | item :: rest => item.isFloatless && floatlessItems rest

/-- Whether no part of the fields is a floating-point number. -/
def floatlessFields : List (String × Value) → Bool
  | [] => true
  | (_, value) :: rest => value.isFloatless && floatlessFields rest

end

/-! ### Sameness -/

mutual

theorem same_self : ∀ {a : Value}, a.isFloatless = true → a.same a = true
  | null, _ => rfl
  | bool _, _ | int32 _, _ | int64 _, _ | string _, _ => beq_self_eq_true _
  | decimal d, _ => (d.numEq_iff d).2 rfl
  | array element items, h => by
    simp only [same, beq_self_eq_true, Bool.true_and]
    exact sameItems_self h
  | record fields, h => by
    simp only [same]
    exact sameFields_self h

theorem sameItems_self : ∀ {as : List Value}, floatlessItems as = true → sameItems as as = true
  | [], _ => rfl
  | a :: as, h => by
    rw [floatlessItems, Bool.and_eq_true] at h
    rw [sameItems, same_self h.1, sameItems_self h.2, Bool.and_self]

theorem sameFields_self :
    ∀ {as : List (String × Value)}, floatlessFields as = true → sameFields as as = true
  | [], _ => rfl
  | (n, a) :: as, h => by
    rw [floatlessFields, Bool.and_eq_true] at h
    rw [sameFields, same_self h.1, sameFields_self h.2, beq_self_eq_true, Bool.and_self,
      Bool.and_self]

end

mutual

theorem same_trans : ∀ {a b c : Value}, a.isFloatless = true → a.same b = true →
    b.same c = true → a.same c = true
  | null, b, c, _, hab, hbc => by
    cases b with
    | null => exact hbc
    | _ => cases hab
  | bool _, b, c, _, hab, hbc | int32 _, b, c, _, hab, hbc | int64 _, b, c, _, hab, hbc
  | string _, b, c, _, hab, hbc => by
    cases b <;> first | cases hab | rwa [beq_iff_eq.1 hab]
  | decimal a, b, c, _, hab, hbc => by
    cases b <;> first | cases hab | cases c <;> first | cases hbc | skip
    exact (Decimal.numEq_iff _ _).2
      (((Decimal.numEq_iff _ _).1 hab).trans ((Decimal.numEq_iff _ _).1 hbc))
  | array s as, b, c, h, hab, hbc => by
    cases b <;> first | cases hab | cases c <;> first | cases hbc | skip
    simp only [same, Bool.and_eq_true, beq_iff_eq] at hab hbc ⊢
    exact ⟨hab.1.trans hbc.1, sameItems_trans h hab.2 hbc.2⟩
  | record as, b, c, h, hab, hbc => by
    cases b <;> first | cases hab | cases c <;> first | cases hbc | skip
    exact sameFields_trans h hab hbc

theorem sameItems_trans : ∀ {as bs cs : List Value}, floatlessItems as = true →
    sameItems as bs = true → sameItems bs cs = true → sameItems as cs = true
  | [], [], cs, _, _, hbc => hbc
  | a :: as, b :: bs, c :: cs, h, hab, hbc => by
    simp only [floatlessItems, sameItems, Bool.and_eq_true] at h hab hbc ⊢
    exact ⟨same_trans h.1 hab.1 hbc.1, sameItems_trans h.2 hab.2 hbc.2⟩

theorem sameFields_trans : ∀ {as bs cs : List (String × Value)}, floatlessFields as = true →
    sameFields as bs = true → sameFields bs cs = true → sameFields as cs = true
  | [], [], cs, _, _, hbc => hbc
  | (m, a) :: as, (n, b) :: bs, (k, c) :: cs, h, hab, hbc => by
    simp only [floatlessFields, sameFields, Bool.and_eq_true, beq_iff_eq] at h hab hbc ⊢
    exact ⟨⟨hab.1.1.trans hbc.1.1, same_trans h.1 hab.1.2 hbc.1.2⟩,
      sameFields_trans h.2 hab.2 hbc.2⟩

end

/-! ### Order and equality -/

variable {a b c l r : Value} {p q : ℚ}

theorem number?_cases (h : l.number? = some p) :
    (∃ n, l = int32 n ∧ (n.toInt : ℚ) = p) ∨ (∃ n, l = int64 n ∧ (n.toInt : ℚ) = p) ∨
      ∃ d, l = decimal d ∧ d.toRat = p := by
  cases l <;> cases h
  · exact .inl ⟨_, rfl, rfl⟩
  · exact .inr (.inl ⟨_, rfl, rfl⟩)
  · exact .inr (.inr ⟨_, rfl, rfl⟩)

theorem isNull_of_number? (h : l.number? = some p) : l.isNull = false := by
  cases l <;> first | rfl | cases h

/-- Exact numbers have the order of the numbers that they denote. -/
theorem compare?_compares (hl : l.number? = some p) (hr : r.number? = some q) :
    ∃ order, compare? l r = some order ∧ order.Compares p q := by
  have hint (m n : Int) : (compare m n).Compares (m : ℚ) n :=
    compares_cast.2 ((compare_iff _ _).1 rfl)
  obtain ⟨m, rfl, rfl⟩ | ⟨m, rfl, rfl⟩ | ⟨d, rfl, rfl⟩ := number?_cases hl
  · obtain ⟨n, rfl, rfl⟩ | ⟨n, rfl, rfl⟩ | ⟨e, rfl, rfl⟩ := number?_cases hr
    · exact ⟨_, rfl, hint _ _⟩
    · refine ⟨_, rfl, ?_⟩
      rw [← Int32.toInt_toInt64 m]
      exact hint _ _
    · refine ⟨_, rfl, ?_⟩
      rw [← Int32.toInt_toInt64 m, ← Decimal.toRat_ofInt64]
      exact Decimal.compare_compares _ _
  · obtain ⟨n, rfl, rfl⟩ | ⟨n, rfl, rfl⟩ | ⟨e, rfl, rfl⟩ := number?_cases hr
    · refine ⟨_, rfl, ?_⟩
      rw [← Int32.toInt_toInt64 n]
      exact hint _ _
    · exact ⟨_, rfl, hint _ _⟩
    · refine ⟨_, rfl, ?_⟩
      rw [← Decimal.toRat_ofInt64]
      exact Decimal.compare_compares _ _
  · obtain ⟨n, rfl, rfl⟩ | ⟨n, rfl, rfl⟩ | ⟨e, rfl, rfl⟩ := number?_cases hr
    · refine ⟨_, rfl, ?_⟩
      rw [← Int32.toInt_toInt64 n, ← Decimal.toRat_ofInt64]
      exact Decimal.compare_compares _ _
    · refine ⟨_, rfl, ?_⟩
      rw [← Decimal.toRat_ofInt64]
      exact Decimal.compare_compares _ _
    · exact ⟨_, rfl, Decimal.compare_compares _ _⟩

theorem equal_of_numbers (ha : a.number? = some p) (hb : b.number? = some q) :
    a.equal b = true ↔ p = q := by
  obtain ⟨order, horder, hcompares⟩ := compare?_compares ha hb
  rw [equal, isNull_of_number? ha, isNull_of_number? hb]
  simp only [horder, beq_iff_eq]
  exact hcompares.eq_eq

/-- A value that is no number is equal to what it is the same as. -/
theorem equal_eq_same (ha : a.isFloatless = true) (hn : a.number? = none) :
    a.equal b = a.same b := by
  cases a with
  | int32 n | int64 n | decimal d => cases hn
  | single x | double x => cases ha
  | null | array s as | record as => cases b <;> rfl
  | bool x =>
    cases b with
    | bool y =>
      show (compare x y == .eq) = (x == y)
      rw [Bool.eq_iff_iff, beq_iff_eq, Std.compare_eq_iff_eq, beq_iff_eq]
    | _ => rfl
  | string x =>
    cases b with
    | string y =>
      show (compare x y == .eq) = (x == y)
      rw [Bool.eq_iff_iff, beq_iff_eq, Std.compare_eq_iff_eq, beq_iff_eq]
    | _ => rfl

theorem number?_of_same (h : a.same b = true) : a.number? = b.number? := by
  cases a with
  | int32 m | int64 m => cases b <;> first | cases h | rw [beq_iff_eq.1 h]
  | decimal d =>
    cases b <;> first | cases h | exact congrArg some ((Decimal.numEq_iff _ _).1 h)
  | _ => cases b <;> first | rfl | cases h

/-- Values are equal if they denote one number, or denote none and are the same. -/
theorem equal_iff (ha : a.isFloatless = true) (hb : b.isFloatless = true) :
    a.equal b = true ↔ (∃ p, a.number? = some p ∧ b.number? = some p) ∨
      a.number? = none ∧ b.number? = none ∧ a.same b = true := by
  cases hna : a.number? with
  | none =>
    rw [equal_eq_same ha hna]
    constructor
    · intro h
      exact .inr ⟨rfl, number?_of_same h ▸ hna, h⟩
    · rintro (⟨p, ⟨⟩, -⟩ | ⟨-, -, h⟩)
      exact h
  | some p =>
    cases hnb : b.number? with
    | none =>
      rw [equal_comm b a, equal_eq_same hb hnb]
      constructor
      · intro h
        rw [number?_of_same h, hna] at hnb
        cases hnb
      · rintro (⟨q, -, ⟨⟩⟩ | ⟨⟨⟩, -⟩)
    | some q =>
      rw [equal_of_numbers hna hnb]
      constructor
      · rintro rfl
        exact .inl ⟨p, rfl, rfl⟩
      · rintro (⟨s, hp, hq⟩ | ⟨⟨⟩, -⟩)
        exact (Option.some.inj hp).trans (Option.some.inj hq).symm

theorem equal_self (ha : a.isFloatless = true) : a.equal a = true := by
  rw [equal_iff ha ha]
  cases hn : a.number? with
  | none => exact .inr ⟨rfl, rfl, same_self ha⟩
  | some p => exact .inl ⟨p, rfl, rfl⟩

theorem equal_trans (ha : a.isFloatless = true) (hb : b.isFloatless = true)
    (hc : c.isFloatless = true) (hab : a.equal b = true) (hbc : b.equal c = true) :
    a.equal c = true := by
  rw [equal_iff ha hb] at hab
  rw [equal_iff hb hc] at hbc
  rw [equal_iff ha hc]
  obtain ⟨p, hap, hbp⟩ | ⟨han, hbn, hsame⟩ := hab
  · obtain ⟨q, hbq, hcq⟩ | ⟨hbn, -⟩ := hbc
    · rw [hbp] at hbq
      cases hbq
      exact .inl ⟨p, hap, hcq⟩
    · rw [hbp] at hbn
      cases hbn
  · obtain ⟨q, hbq, -⟩ | ⟨-, hcn, hsame'⟩ := hbc
    · rw [hbn] at hbq
      cases hbq
    · exact .inr ⟨han, hcn, same_trans ha hsame hsame'⟩

/-! ### Operators -/

/-- A comparison of two exact numbers is that of the numbers they denote. -/
theorem binary_relates {op : BinaryOp} (hop : op.isComparison = true) (hl : l.number? = some p)
    (hr : r.number? = some q) (expr : Expr) :
    ∃ b, binary op l r expr = .ok (bool b) ∧ (b = true ↔ op.Relates p q) := by
  obtain ⟨order, horder, hcompares⟩ := compare?_compares hl hr
  have hequal := equal_of_numbers hl hr
  have hnull : ¬(l.isNull = true ∨ r.isNull = true) := by
    simp [isNull_of_number? hl, isNull_of_number? hr]
  cases op with
  | equal => exact ⟨_, rfl, hequal⟩
  | notEqual =>
    refine ⟨_, rfl, ?_⟩
    rw [Bool.not_eq_true', ← Bool.not_eq_true, hequal]
    exact Iff.rfl
  | lessThan =>
    refine ⟨holds .lessThan order, ?_, beq_iff_eq.trans hcompares.eq_lt⟩
    simp only [binary, if_neg hnull, horder]
  | lessThanOrEqual =>
    refine ⟨holds .lessThanOrEqual order, ?_, bne_iff_ne.trans hcompares.ne_gt⟩
    simp only [binary, if_neg hnull, horder]
  | greaterThan =>
    refine ⟨holds .greaterThan order, ?_, beq_iff_eq.trans hcompares.eq_gt⟩
    simp only [binary, if_neg hnull, horder]
  | greaterThanOrEqual =>
    refine ⟨holds .greaterThanOrEqual order, ?_, bne_iff_ne.trans hcompares.ne_lt⟩
    simp only [binary, if_neg hnull, horder]
  | _ => cases hop

/-- Equality is an equivalence of the values without floating-point numbers, and each comparison of
integers and decimals says what it says about the numbers they denote. -/
theorem comparison_lawful :
    (∀ a : Value, a.isFloatless = true → a.equal a = true) ∧
      (∀ a b : Value, a.isFloatless = true → b.isFloatless = true → a.equal b = true →
        b.equal a = true) ∧
      (∀ a b c : Value, a.isFloatless = true → b.isFloatless = true → c.isFloatless = true →
        a.equal b = true → b.equal c = true → a.equal c = true) ∧
      ∀ (op : BinaryOp) (left right : Expr) (l r : Value) (p q : ℚ), op.isComparison = true →
        left.evaluate = .ok l → right.evaluate = .ok r → l.number? = some p → r.number? = some q →
        ∃ b, (Expr.binary op left right).evaluate = .ok (bool b) ∧ (b = true ↔ op.Relates p q) := by
  refine ⟨fun a ha => equal_self ha, fun a b _ _ h => (equal_comm a b).trans h,
    fun a b c => equal_trans, ?_⟩
  intro op left right l r p q hop hl hr hp hq
  obtain ⟨b, hb, hrelates⟩ := binary_relates hop hp hq (Expr.binary op left right)
  have hlogical : op.isLogical = false := by cases op <;> first | rfl | cases hop
  refine ⟨b, ?_, hrelates⟩
  simp only [Expr.evaluate, hlogical, hl, hr]
  exact hb

/-- One number with three types, in an array with one of them, and a comparison of two types. -/
theorem comparison_lawful_mixed :
    (array .object [int32 1]).isFloatless = true ∧
      (array .object [int32 1]).equal (array .object [int32 1]) = true ∧
      (int64 1).isFloatless = true ∧ (decimal (.ofInt64 1)).isFloatless = true ∧
      (int32 1).isFloatless = true ∧ (int64 1).equal (decimal (.ofInt64 1)) = true ∧
      (decimal (.ofInt64 1)).equal (int32 1) = true ∧ (int64 1).equal (int32 1) = true ∧
      (int32 3).number? = some 3 ∧ (decimal (.ofInt64 4)).number? = some 4 ∧
      ∃ b, (Expr.binary .lessThan (.constant (int32 3))
          (.constant (decimal (.ofInt64 4)))).evaluate = .ok (bool b) ∧
        (b = true ↔ (3 : ℚ) < 4) := by
  have hfour : (decimal (.ofInt64 4)).number? = some 4 := congrArg some (Decimal.toRat_ofInt64 4)
  exact ⟨rfl, comparison_lawful.1 _ rfl, rfl, rfl, rfl, rfl, rfl,
    comparison_lawful.2.2.1 _ (decimal (.ofInt64 1)) _ rfl rfl rfl rfl rfl, rfl, hfour,
    comparison_lawful.2.2.2 .lessThan _ _ _ _ 3 4 rfl rfl rfl rfl hfour⟩

end Value

end ServiceQuery
