import ServiceQuery.Eval.Number

/-!
# Equality of values is symmetric

Two values compare the other way round when they are exchanged. This holds for floating-point
numbers too: one that is not a number has no order with any other, on either side.
-/

namespace ServiceQuery

/-! ### Numbers -/

theorem Decimal.compare_swap (a b : Decimal) : b.compare a = (a.compare b).swap := by
  simp only [Decimal.compare, Nat.max_comm b.scale a.scale]
  exact Std.OrientedCmp.eq_swap

/-- The order of two floating-point numbers, as read from their bits. -/
theorem unpackedFloat_compare_swap (a b : Float.Model.UnpackedFloat) :
    b.compare a = (a.compare b).map Ordering.swap := by
  have hexponent (e₁ e₂ : Int) (m₁ m₂ : Nat) :
      (compare e₂ e₁).then (compare m₂ m₁) = ((compare e₁ e₂).then (compare m₁ m₂)).swap := by
    rw [Ordering.swap_then, ← Std.OrientedCmp.eq_swap, ← Std.OrientedCmp.eq_swap]
  cases a with
  | notANumber => cases b <;> rfl
  | infinity s =>
    cases b with
    | infinity t => cases s <;> cases t <;> rfl
    | _ => cases s <;> rfl
  | zero s =>
    cases b with
    | infinity t => cases t <;> rfl
    | finite t => cases t <;> rfl
    | _ => rfl
  | finite s m e =>
    cases b with
    | infinity t => cases s <;> cases t <;> rfl
    | zero t => cases s <;> rfl
    | notANumber => cases s <;> rfl
    | finite t m' e' =>
      cases s <;> cases t
      · exact congrArg (fun order => some order.swap) (hexponent e e' m m')
      · rfl
      · rfl
      · exact congrArg some (hexponent e e' m m')

/-- The tests that find an order find the one that there is. -/
theorem order_of_tests (order : Option Ordering) :
    (if order = some .lt then some .lt
      else if order.map Ordering.swap = some .lt then some .gt
      else if order = some .eq then some .eq else none) = order := by
  cases order with
  | none => rfl
  | some order => cases order <;> rfl

theorem eq_swap_iff (order : Option Ordering) :
    order.map Ordering.swap = some .eq ↔ order = some .eq := by
  cases order with
  | none => simp
  | some order => cases order <;> simp

section Double

variable (a b : Float)

theorem float_lt_iff : a < b ↔ a.toModel.unpack.compare b.toModel.unpack = some .lt := by
  change decide (a.toModel.lt b.toModel = true) = true ↔ _
  simp [Float.Model.lt, Float.Model.UnpackedFloat.lt]

theorem float_beq_iff : (a == b) = true ↔ a.toModel.unpack.compare b.toModel.unpack = some .eq := by
  change (a.toModel.unpack.compare b.toModel.unpack == some .eq) = true ↔ _
  simp

theorem floatOrder?_eq : floatOrder? a b = a.toModel.unpack.compare b.toModel.unpack := by
  simp only [floatOrder?, float_lt_iff, float_beq_iff, unpackedFloat_compare_swap a.toModel.unpack]
  exact order_of_tests _

theorem float_beq_comm : (b == a) = (a == b) := by
  rw [Bool.eq_iff_iff, float_beq_iff, float_beq_iff, unpackedFloat_compare_swap a.toModel.unpack,
    eq_swap_iff]

end Double

section Single

variable (a b : Float32)

theorem float32_lt_iff : a < b ↔ a.toModel.unpack.compare b.toModel.unpack = some .lt := by
  change decide (a.toModel.lt b.toModel = true) = true ↔ _
  simp [Float32.Model.lt, Float.Model.UnpackedFloat.lt]

theorem float32_beq_iff :
    (a == b) = true ↔ a.toModel.unpack.compare b.toModel.unpack = some .eq := by
  change (a.toModel.unpack.compare b.toModel.unpack == some .eq) = true ↔ _
  simp

theorem float32Order?_eq : float32Order? a b = a.toModel.unpack.compare b.toModel.unpack := by
  simp only [float32Order?, float32_lt_iff, float32_beq_iff,
    unpackedFloat_compare_swap a.toModel.unpack]
  exact order_of_tests _

theorem float32_beq_comm : (b == a) = (a == b) := by
  rw [Bool.eq_iff_iff, float32_beq_iff, float32_beq_iff,
    unpackedFloat_compare_swap a.toModel.unpack, eq_swap_iff]

end Single

/-! ### Values -/

namespace Operands

/-- The numbers in the other order. -/
def swap : Operands → Operands
  | int32 a b => int32 b a
  | int64 a b => int64 b a
  | single a b => single b a
  | double a b => double b a
  | decimal a b => decimal b a

theorem of?_swap (l r : Value) : of? r l = (of? l r).map swap := by
  cases l <;> cases r <;> rfl

theorem order?_swap (operands : Operands) :
    operands.swap.order? = operands.order?.map Ordering.swap := by
  cases operands with
  | int32 a b | int64 a b => exact congrArg some Std.OrientedCmp.eq_swap
  | decimal a b => exact congrArg some (a.compare_swap b)
  | single a b =>
    rw [swap, order?, order?, float32Order?_eq, float32Order?_eq, unpackedFloat_compare_swap]
  | double a b =>
    rw [swap, order?, order?, floatOrder?_eq, floatOrder?_eq, unpackedFloat_compare_swap]

theorem bind_order?_swap (l r : Value) :
    (of? r l).bind order? = ((of? l r).bind order?).map Ordering.swap := by
  rw [of?_swap]
  cases of? l r with
  | none => rfl
  | some operands => exact order?_swap operands

end Operands

namespace Value

/-- The order of two values that have changed places. -/
theorem compare?_swap (l r : Value) : compare? r l = (compare? l r).map Ordering.swap := by
  rw [compare?.eq_def l r]
  split
  · exact congrArg some Std.OrientedCmp.eq_swap
  · exact congrArg some Std.OrientedCmp.eq_swap
  · next hstring hbool =>
    rw [compare?.eq_3 r l (fun b a hr hl => hstring a b hl hr) fun b a hr hl => hbool a b hl hr]
    exact Operands.bind_order?_swap l r

mutual

theorem same_comm : ∀ l r : Value, r.same l = l.same r
  | array s as, r => by
    cases r with
    | array t bs => simp only [same, sameItems_comm as bs, Bool.beq_comm]
    | _ => rfl
  | record as, r => by
    cases r with
    | record bs => simp only [same, sameFields_comm as bs]
    | _ => rfl
  | null, r => by cases r <;> rfl
  | bool a, r => by
    cases r with
    | bool b => simp only [same, Bool.beq_comm]
    | _ => rfl
  | int32 a, r => by
    cases r with
    | int32 b => simp only [same, Bool.beq_comm]
    | _ => rfl
  | int64 a, r => by
    cases r with
    | int64 b => simp only [same, Bool.beq_comm]
    | _ => rfl
  | single a, r => by
    cases r with
    | single b => simp only [same, float32_beq_comm a b]
    | _ => rfl
  | double a, r => by
    cases r with
    | double b => simp only [same, float_beq_comm a b]
    | _ => rfl
  | decimal a, r => by
    cases r with
    | decimal b =>
      simp only [same, Decimal.numEq, a.compare_swap b]
      cases a.compare b <;> rfl
    | _ => rfl
  | string a, r => by
    cases r with
    | string b => simp only [same, Bool.beq_comm]
    | _ => rfl

theorem sameItems_comm : ∀ as bs : List Value, sameItems bs as = sameItems as bs
  | [], [] | [], _ :: _ | _ :: _, [] => rfl
  | a :: as, b :: bs => by simp only [sameItems, same_comm a b, sameItems_comm as bs]

theorem sameFields_comm : ∀ as bs : List (String × Value), sameFields bs as = sameFields as bs
  | [], [] | [], _ :: _ | _ :: _, [] => rfl
  | (m, a) :: as, (n, b) :: bs => by
    simp only [sameFields, same_comm a b, sameFields_comm as bs, Bool.beq_comm]

end

/-- Equality of values does not depend on the side. -/
theorem equal_comm (l r : Value) : r.equal l = l.equal r := by
  simp only [equal, compare?_swap l r, same_comm l r]
  cases l.isNull <;> cases r.isNull <;> try rfl
  cases compare? l r with
  | none => rfl
  | some order => cases order <;> rfl

end Value

end ServiceQuery
