import ServiceQuery.Proofs.Arithmetic

/-!
# The types of arithmetic expressions

Evaluation brings the operands of an arithmetic operator to the wider of their types, and adding to
a string gives a string. So the value of an expression has the widest type among its constants. The
static type is that of the first constant.
-/

namespace ServiceQuery

namespace Ty

/-- The place of a type on the ladder of promotions. Other types stand above it. -/
def level : Ty → Nat
  | int32 => 0
  | int64 => 1
  | decimal => 2
  | string => 3
  | _ => 4

/-- The higher one of two types. -/
def wider (s t : Ty) : Ty := if s.level ≤ t.level then t else s

theorem level_inj {s t : Ty} (hs : s.level < 4) (h : s.level = t.level) : s = t := by
  cases s <;> cases t <;> simp_all [level]

theorem level_le_wider (s t : Ty) :
    s.level ≤ (s.wider t).level ∧ t.level ≤ (s.wider t).level := by
  unfold wider
  split <;> omega

theorem wider_cases (s t : Ty) : s.wider t = s ∨ s.wider t = t := by
  unfold wider
  split
  · exact .inr rfl
  · exact .inl rfl

end Ty

/-! ### One operator -/

/-- The values whose type is on the ladder. -/
theorem Value.ladder_cases {value : Value} (h : value.ty.level < 4) :
    (∃ n, value = .int32 n) ∨ (∃ n, value = .int64 n) ∨ (∃ d, value = .decimal d) ∨
      ∃ s, value = .string s := by
  cases value with
  | int32 n => exact .inl ⟨n, rfl⟩
  | int64 n => exact .inr (.inl ⟨n, rfl⟩)
  | decimal d => exact .inr (.inr (.inl ⟨d, rfl⟩))
  | string s => exact .inr (.inr (.inr ⟨s, rfl⟩))
  | _ => exact absurd h (Nat.lt_irrefl 4)

/-- The type of two numbers. -/
def Operands.ty : Operands → Ty
  | int32 _ _ => .int32
  | int64 _ _ => .int64
  | single _ _ => .single
  | double _ _ => .double
  | decimal _ _ => .decimal

namespace Operands

theorem apply_ty {op : BinaryOp} {operands : Operands} {value : Value}
    (h : operands.apply op = .ok value) : value.ty = operands.ty := by
  cases operands with
  | int32 a b =>
    obtain ⟨n, -, rfl⟩ := Except.map_eq_ok.1 h
    rfl
  | int64 a b =>
    obtain ⟨n, -, rfl⟩ := Except.map_eq_ok.1 h
    rfl
  | decimal a b =>
    obtain ⟨d, -, rfl⟩ := Except.map_eq_ok.1 h
    rfl
  | single a b =>
    cases h
    rfl
  | double a b =>
    cases h
    rfl

/-- Exact numbers are brought to the wider of their types. -/
theorem of?_ty {l r : Value} {operands : Operands} (h : of? l r = some operands)
    (hl : l.ty.level < 4) (hr : r.ty.level < 4) : operands.ty = l.ty.wider r.ty := by
  obtain ⟨a, rfl⟩ | ⟨a, rfl⟩ | ⟨a, rfl⟩ | ⟨a, rfl⟩ := Value.ladder_cases hl <;>
    obtain ⟨b, rfl⟩ | ⟨b, rfl⟩ | ⟨b, rfl⟩ | ⟨b, rfl⟩ := Value.ladder_cases hr <;> cases h <;> rfl

end Operands

namespace Value

theorem isString_iff {value : Value} : value.isString = true ↔ value.ty = .string := by
  cases value <;> simp [isString, ty]

theorem ty_of_isString {l r : Value} (h : l.isString = true ∨ r.isString = true)
    (hl : l.ty.level < 4) (hr : r.ty.level < 4) : l.ty.wider r.ty = .string := by
  have hlow : Ty.string.level ≤ (l.ty.wider r.ty).level := by
    obtain h | h := h
    · rw [← isString_iff.1 h]
      exact (l.ty.level_le_wider r.ty).1
    · rw [← isString_iff.1 h]
      exact (l.ty.level_le_wider r.ty).2
  have hhigh : (l.ty.wider r.ty).level < 4 := by
    obtain hw | hw := l.ty.wider_cases r.ty <;> rwa [hw]
  exact (Ty.level_inj (by decide) (Nat.le_antisymm hlow (Nat.le_of_lt_succ hhigh))).symm

theorem isNull_eq_false {value : Value} (h : value.ty.level < 4) : value.isNull = false := by
  obtain ⟨n, rfl⟩ | ⟨n, rfl⟩ | ⟨d, rfl⟩ | ⟨s, rfl⟩ := ladder_cases h <;> rfl

/-- The result of an arithmetic operator has the wider type of its operands. -/
theorem binary_ty {op : BinaryOp} (hop : op.isArithmetic = true) {l r value : Value} {expr : Expr}
    (hl : l.ty.level < 4) (hr : r.ty.level < 4) (h : binary op l r expr = .ok value) :
    value.ty = l.ty.wider r.ty := by
  have harithmetic : arithmetic op l r expr = .ok value := by
    cases op <;> first | exact h | cases hop
  rw [arithmetic] at harithmetic
  split at harithmetic
  · next hstring =>
    cases harithmetic
    exact (ty_of_isString hstring.2 hl hr).symm
  · rw [if_neg (by simp [isNull_eq_false hl, isNull_eq_false hr])] at harithmetic
    cases hoperands : Operands.of? l r with
    | none =>
      rw [hoperands] at harithmetic
      cases harithmetic
    | some operands =>
      have happly : operands.apply op = .ok value := by
        rw [hoperands] at harithmetic
        cases hresult : operands.apply op with
        | error fault =>
          simp only [hresult] at harithmetic
          cases harithmetic
        | ok result =>
          simp only [hresult] at harithmetic
          cases harithmetic
          rfl
      rw [Operands.apply_ty happly, Operands.of?_ty hoperands hl hr]

end Value

/-! ### Whole expressions -/

namespace Expr

/-- The expression consists of integers, decimals and strings and arithmetic operators. -/
inductive IsScalar : Expr → Prop where
  | int32 (n : Int32) : IsScalar (constant (.int32 n))
  | int64 (n : Int64) : IsScalar (constant (.int64 n))
  | decimal (d : Decimal) : IsScalar (constant (.decimal d))
  | string (s : String) : IsScalar (constant (.string s))
  | binary {op : BinaryOp} {left right : Expr} (arithmetic : op.isArithmetic = true)
      (first : IsScalar left) (second : IsScalar right) : IsScalar (binary op left right)

/-- The constants of an expression of operators, from left to right. -/
def constants : Expr → List Value
  | constant value => [value]
  | binary _ left right => left.constants ++ right.constants
  | _ => []

variable {expr : Expr} {value : Value}

theorem IsScalar.level_lt (h : expr.IsScalar) : ∀ c ∈ expr.constants, c.ty.level < 4 := by
  induction h with
  | int32 n | int64 n | decimal d | string s =>
    exact List.forall_mem_singleton.2 (by simp [Value.ty, Ty.level])
  | binary _ _ _ ihl ihr => exact List.forall_mem_append.2 ⟨ihl, ihr⟩

/-- The static type is the type of the first constant. -/
theorem IsScalar.ty_eq (h : expr.IsScalar) : expr.constants.head?.map Value.ty = some expr.ty := by
  induction h with
  | int32 n | int64 n | decimal d | string s => rfl
  | @binary op left right arithmetic _ _ ihl _ =>
    have hty : (Expr.binary op left right).ty = left.ty := by
      cases op <;> first | rfl | cases arithmetic
    obtain ⟨first, hfirst, hleft⟩ := Option.map_eq_some_iff.1 ihl
    rw [hty, constants, List.head?_append, hfirst, ← hleft]
    rfl

/-- The value has the type of one of the constants, and no constant is wider. -/
theorem evaluate_widest (h : expr.IsScalar) (hv : expr.evaluate = .ok value) :
    (∃ c ∈ expr.constants, c.ty = value.ty) ∧
      ∀ c ∈ expr.constants, c.ty.level ≤ value.ty.level := by
  induction h generalizing value with
  | int32 n | int64 n | decimal d | string s =>
    cases hv
    exact ⟨⟨_, List.mem_singleton_self _, rfl⟩, List.forall_mem_singleton.2 (Nat.le_refl _)⟩
  | @binary op left right arithmetic hl hr ihl ihr =>
    have hlogical : op.isLogical = false := by cases op <;> first | rfl | cases arithmetic
    simp only [evaluate, hlogical, Bool.false_eq_true, if_false, Except.bind_eq_ok] at hv
    obtain ⟨l, hleft, r, hright, hv⟩ := hv
    obtain ⟨⟨first, hfirst, hlty⟩, hlmax⟩ := ihl hleft
    obtain ⟨⟨second, hsecond, hrty⟩, hrmax⟩ := ihr hright
    have hty := Value.binary_ty arithmetic (hlty ▸ hl.level_lt first hfirst)
      (hrty ▸ hr.level_lt second hsecond) hv
    have hwider := l.ty.level_le_wider r.ty
    rw [← hty] at hwider
    refine ⟨?_, List.forall_mem_append.2 ⟨fun c hc => Nat.le_trans (hlmax c hc) hwider.1,
      fun c hc => Nat.le_trans (hrmax c hc) hwider.2⟩⟩
    obtain hw | hw := l.ty.wider_cases r.ty
    · exact ⟨first, List.mem_append_left _ hfirst, by rw [hlty, hty, hw]⟩
    · exact ⟨second, List.mem_append_right _ hsecond, by rw [hrty, hty, hw]⟩

/-- The value of an expression has the widest type among the constants, and the static type is the
same if and only if no constant is wider than the first one. -/
theorem evaluate_ty (h : expr.IsScalar) (hv : expr.evaluate = .ok value) :
    (∃ c ∈ expr.constants, c.ty = value.ty) ∧
      (∀ c ∈ expr.constants, c.ty.level ≤ value.ty.level) ∧
      (expr.ty = value.ty ↔ ∀ c ∈ expr.constants, c.ty.level ≤ expr.ty.level) := by
  obtain ⟨⟨widest, hwidest, hty⟩, hmax⟩ := evaluate_widest h hv
  obtain ⟨first, hfirst, hstatic⟩ := Option.map_eq_some_iff.1 h.ty_eq
  have hmem : first ∈ expr.constants := List.mem_of_mem_head? hfirst
  refine ⟨⟨widest, hwidest, hty⟩, hmax, fun heq => heq ▸ hmax, fun hle => ?_⟩
  -- both are types of constants, and neither is below the other
  refine Ty.level_inj (hstatic ▸ h.level_lt first hmem) (Nat.le_antisymm ?_ ?_)
  · exact hstatic ▸ hmax first hmem
  · exact hty ▸ hle widest hwidest

/-- A product of a decimal and an integer, added to a string. -/
def price : Expr :=
  binary .add (constant (.string "Price: "))
    (binary .multiply (constant (.decimal (.ofInt64 5))) (constant (.int32 2)))

theorem isScalar_price : price.IsScalar :=
  .binary rfl (.string _) (.binary rfl (.decimal _) (.int32 _))

/-- The first constant is the widest one, and the value is a string as the static type says. -/
theorem evaluate_ty_price :
    price.IsScalar ∧ price.evaluate = .ok (.string "Price: 10") ∧
      (∀ c ∈ price.constants, c.ty.level ≤ price.ty.level) ∧
      price.ty = (Value.string "Price: 10").ty := by
  have hv : price.evaluate = .ok (.string "Price: 10") := rfl
  have hty := (evaluate_ty isScalar_price hv).2.2
  have hlevels : ∀ c ∈ price.constants, c.ty.level ≤ price.ty.level := by decide
  exact ⟨isScalar_price, hv, hlevels, hty.2 hlevels⟩

/-- A sum whose second operand is wider than the first. -/
def promoted : Expr := binary .add (constant (.int32 2)) (constant (.int64 40))

/-- A number with a string added to it. -/
def joined : Expr := binary .add (constant (.int32 1)) (constant (.string "a"))

/-- The static type of a sum is that of its left operand, although the right one decides about the
value. -/
theorem evaluate_promoted :
    promoted.IsScalar ∧ promoted.evaluate = .ok (.int64 42) ∧
      promoted.ty = .int32 ∧ promoted.ty ≠ (Value.int64 42).ty ∧
      joined.IsScalar ∧ joined.evaluate = .ok (.string "1a") ∧
      joined.ty = .int32 ∧ joined.ty ≠ (Value.string "1a").ty :=
  ⟨.binary rfl (.int32 _) (.int64 _), rfl, rfl, by decide,
    .binary rfl (.int32 _) (.string _), rfl, rfl, by decide⟩

end Expr

end ServiceQuery
