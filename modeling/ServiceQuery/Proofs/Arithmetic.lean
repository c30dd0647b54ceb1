import ServiceQuery.Proofs.Monad
import ServiceQuery.Eval.Basic

/-!
# Integer arithmetic

An expression of integer constants and arithmetic operators has an exact value, over integers
without bounds. Evaluation works with integers of 32 and 64 bits and gives that value or an error,
and never a value that has wrapped around.
-/

namespace ServiceQuery

/-- The width of an integer type. -/
inductive Width where
  | bits32
  | bits64
  deriving DecidableEq

namespace Width

/-- The least integer of a width. -/
def least : Width → Int
  | bits32 => Int32.minValue.toInt
  | bits64 => Int64.minValue.toInt

/-- The greatest integer of a width. -/
def greatest : Width → Int
  | bits32 => Int32.maxValue.toInt
  | bits64 => Int64.maxValue.toInt

/-- The integer is one of the width. -/
def Fits (width : Width) (n : Int) : Prop := width.least ≤ n ∧ n ≤ width.greatest

instance (width : Width) (n : Int) : Decidable (width.Fits n) :=
  inferInstanceAs (Decidable (_ ∧ _))

/-- The value is the integer `n`, tagged with the width. -/
def Holds : Width → Int → Value → Prop
  | bits32, n, value => ∃ k : Int32, value = .int32 k ∧ k.toInt = n
  | bits64, n, value => ∃ k : Int64, value = .int64 k ∧ k.toInt = n

/-- The width of the result of an operator. -/
def wider : Width → Width → Width
  | bits32, bits32 => bits32
  | _, _ => bits64

/-- The integer as a value of the width, if it is one. -/
def value? : Width → Int → Option Value
  | bits32, n => (int32? n).map .int32
  | bits64, n => (int64? n).map .int64

end Width

/-- Whether the operator is one of arithmetic. -/
def BinaryOp.isArithmetic : BinaryOp → Bool
  | add | subtract | multiply | divide | modulo => true
  | _ => false

namespace Expr

/-- The expression consists of integer constants and arithmetic operators. -/
inductive IsInteger : Expr → Prop where
  | int32 (n : Int32) : IsInteger (constant (.int32 n))
  | int64 (n : Int64) : IsInteger (constant (.int64 n))
  | negate {operand : Expr} (ty : Ty) (inner : IsInteger operand) :
      IsInteger (unary .negate operand ty)
  | binary {op : BinaryOp} {left right : Expr} (arithmetic : op.isArithmetic = true)
      (first : IsInteger left) (second : IsInteger right) : IsInteger (binary op left right)

/-- The value of an integer expression over integers without bounds. Divisions go toward zero, and a
remainder has the sign of its dividend. -/
def exactValue : Expr → Int
  | constant (.int32 n) => n.toInt
  | constant (.int64 n) => n.toInt
  | unary .negate operand _ => -operand.exactValue
  | binary .add left right => left.exactValue + right.exactValue
  | binary .subtract left right => left.exactValue - right.exactValue
  | binary .multiply left right => left.exactValue * right.exactValue
  | binary .divide left right => left.exactValue.tdiv right.exactValue
  | binary .modulo left right => left.exactValue.tmod right.exactValue
  | _ => 0

/-- The subexpressions of an integer expression in the order in which they are evaluated: operands
before their operator, and the left one first. -/
def evaluated : Expr → List Expr
  | unary op operand ty => operand.evaluated ++ [unary op operand ty]
  | binary op left right => left.evaluated ++ right.evaluated ++ [binary op left right]
  | expr => [expr]

/-- Whether the node is a constant of 64 bits. -/
def isInt64 : Expr → Bool
  | constant (.int64 _) => true
  | _ => false

/-- The promoted type of an integer expression: 64 bits if such a constant occurs in it. -/
def width (expr : Expr) : Width :=
  if expr.evaluated.any isInt64 then .bits64 else .bits32

/-- The node divides by zero. -/
def DividesByZero : Expr → Prop
  | binary op _ right => (op = .divide ∨ op = .modulo) ∧ right.exactValue = 0
  | _ => False

/-- The node takes the remainder of the least integer of its width by minus one. -/
def LeastByMinusOne : Expr → Prop
  | binary op left right =>
    op = .modulo ∧ left.exactValue = (binary op left right).width.least ∧ right.exactValue = -1
  | _ => False

/-- Nothing goes wrong at the node itself. -/
structure IsSound (expr : Expr) : Prop where
  divisor : ¬expr.DividesByZero
  fits : expr.width.Fits expr.exactValue
  remainder : ¬expr.LeastByMinusOne

/-- The error of a node at which something goes wrong. -/
def Fault (error : EvalError) (expr : Expr) : Prop :=
  expr.DividesByZero ∧ error = .divideByZero expr ∨
    ¬expr.DividesByZero ∧ ¬expr.IsSound ∧ error = .overflow expr

/-- The error is that of the first node, in the order of evaluation, at which something goes
wrong. -/
def FirstFault (expr : Expr) (error : EvalError) : Prop :=
  ∃ before node after, expr.evaluated = before ++ node :: after ∧
    (∀ earlier ∈ before, earlier.IsSound) ∧ node.Fault error

end Expr

/-! ### Integers of a width -/

theorem int32?_eq_some {n : Int} {k : Int32} : int32? n = some k ↔ k.toInt = n := by
  unfold int32?
  constructor
  · intro h
    split at h
    · next hn =>
      cases h
      exact Int32.toInt_ofInt_of_le hn.1 (Int.lt_add_one_of_le hn.2)
    · cases h
  · rintro rfl
    rw [if_pos ⟨Int32.minValue_le_toInt k, Int32.toInt_le k⟩, Int32.ofInt_toInt]

theorem int64?_eq_some {n : Int} {k : Int64} : int64? n = some k ↔ k.toInt = n := by
  unfold int64?
  constructor
  · intro h
    split at h
    · next hn =>
      cases h
      exact Int64.toInt_ofInt_of_le hn.1 (Int.lt_add_one_of_le hn.2)
    · cases h
  · rintro rfl
    rw [if_pos ⟨Int64.minValue_le_toInt k, Int64.toInt_le k⟩, Int64.ofInt_toInt]

namespace Width

variable {width : Width} {n : Int} {value : Value}

theorem value?_eq_some : width.value? n = some value ↔ width.Holds n value := by
  cases width with
  | bits32 =>
    rw [value?, Option.map_eq_some_iff]
    simp only [int32?_eq_some, Holds]
    exact exists_congr fun k => by rw [and_comm, eq_comm (a := value)]
  | bits64 =>
    rw [value?, Option.map_eq_some_iff]
    simp only [int64?_eq_some, Holds]
    exact exists_congr fun k => by rw [and_comm, eq_comm (a := value)]

theorem value?_eq_none : width.value? n = none ↔ ¬width.Fits n := by
  cases width with
  | bits32 =>
    rw [value?, Option.map_eq_none_iff, int32?, ite_eq_right_iff]
    simp only [reduceCtorEq, imp_false]
    exact Iff.rfl
  | bits64 =>
    rw [value?, Option.map_eq_none_iff, int64?, ite_eq_right_iff]
    simp only [reduceCtorEq, imp_false]
    exact Iff.rfl

theorem Holds.fits (h : width.Holds n value) : width.Fits n := by
  by_cases hn : width.Fits n
  · exact hn
  · rw [← value?_eq_none, value?_eq_some.2 h] at hn
    cases hn

theorem Holds.unique {other : Value} (h : width.Holds n value) (ho : width.Holds n other) :
    value = other :=
  Option.some.inj ((value?_eq_some.2 h).symm.trans (value?_eq_some.2 ho))

/-- The quotient of the least integer by minus one does not fit. -/
theorem not_fits_least_tdiv (width : Width) : ¬width.Fits (width.least.tdiv (-1)) := by
  cases width <;> decide

end Width

/-! ### One operator -/

section Operator

variable {width : Width} {op : BinaryOp} {a b : Int}

theorem isDivision_iff : op.isDivision = true ↔ op = .divide ∨ op = .modulo := by
  cases op <;> decide

theorem checkedInteger_of_zero (hop : op.isDivision = true) (hb : b = 0) :
    checkedInteger width.value? width.least op a b = .error .divideByZero := by
  rw [checkedInteger, if_pos (by simp [hop, hb])]

theorem checkedInteger_of_least (hop : op.isDivision = true) (ha : a = width.least)
    (hb : b = -1) : checkedInteger width.value? width.least op a b = .error .overflow := by
  rw [checkedInteger, if_neg (by simp [hb]), if_pos (by simp [hop, ha, hb])]

/-- Apart from these two cases it matters only whether the result fits. -/
theorem checkedInteger_of_not (hz : ¬(op.isDivision = true ∧ b = 0))
    (hm : ¬(op.isDivision = true ∧ a = width.least ∧ b = -1)) :
    checkedInteger width.value? width.least op a b =
      (width.value? (integerResult op a b)).elim (.error .overflow) .ok := by
  rw [checkedInteger, if_neg (by simpa using hz), if_neg (by simpa using hm)]
  cases width.value? (integerResult op a b) <;> rfl

theorem map_checkedInteger {α β : Type} (f : α → β) (fit? : Int → Option α) (least : Int) :
    f <$> checkedInteger fit? least op a b =
      checkedInteger (fun n => (fit? n).map f) least op a b := by
  unfold checkedInteger
  by_cases hz : (op.isDivision && b == 0) = true
  · rw [if_pos hz, if_pos hz]
    rfl
  · rw [if_neg hz, if_neg hz]
    by_cases hm : (op.isDivision && a == least && b == -1) = true
    · rw [if_pos hm, if_pos hm]
      rfl
    · rw [if_neg hm, if_neg hm]
      dsimp only
      cases fit? (integerResult op a b) <;> rfl

/-- Two integers are brought to the wider of their types. -/
theorem Operands.of?_holds (op : BinaryOp) {first second : Width} {l r : Value}
    (hl : first.Holds a l) (hr : second.Holds b r) : ∃ operands, Operands.of? l r = some operands ∧
      operands.apply op =
        checkedInteger (first.wider second).value? (first.wider second).least op a b := by
  cases first with
  | bits32 =>
    obtain ⟨k, rfl, rfl⟩ := hl
    cases second with
    | bits32 =>
      obtain ⟨m, rfl, rfl⟩ := hr
      exact ⟨_, rfl, map_checkedInteger Value.int32 int32? _⟩
    | bits64 =>
      obtain ⟨m, rfl, rfl⟩ := hr
      refine ⟨_, rfl, ?_⟩
      rw [← Int32.toInt_toInt64 k]
      exact map_checkedInteger Value.int64 int64? _
  | bits64 =>
    obtain ⟨k, rfl, rfl⟩ := hl
    cases second with
    | bits32 =>
      obtain ⟨m, rfl, rfl⟩ := hr
      refine ⟨_, rfl, ?_⟩
      rw [← Int32.toInt_toInt64 m]
      exact map_checkedInteger Value.int64 int64? _
    | bits64 =>
      obtain ⟨m, rfl, rfl⟩ := hr
      exact ⟨_, rfl, map_checkedInteger Value.int64 int64? _⟩

theorem Width.Holds.not_isString {value : Value} (h : width.Holds a value) :
    value.isString = false ∧ value.isNull = false := by
  cases width with
  | bits32 =>
    obtain ⟨k, rfl, -⟩ := h
    exact ⟨rfl, rfl⟩
  | bits64 =>
    obtain ⟨k, rfl, -⟩ := h
    exact ⟨rfl, rfl⟩

/-- An arithmetic operator on two integers. -/
theorem Value.binary_holds {first second : Width} {l r : Value} (hop : op.isArithmetic = true)
    (hl : first.Holds a l) (hr : second.Holds b r) (expr : Expr) :
    Value.binary op l r expr =
      (checkedInteger (first.wider second).value? (first.wider second).least op a b).mapError
        (ArithmeticFault.toError expr) := by
  have harithmetic : Value.binary op l r expr = Value.arithmetic op l r expr := by
    cases op <;> first | rfl | cases hop
  obtain ⟨operands, ho, happly⟩ := Operands.of?_holds op hl hr
  rw [harithmetic, Value.arithmetic, if_neg (by simp [hl.not_isString, hr.not_isString]),
    if_neg (by simp [hl.not_isString, hr.not_isString]), ho, ← happly]

end Operator

namespace Expr

/-! ### Widths and exact values -/

variable {op : BinaryOp} {left right operand : Expr}

theorem exactValue_binary (hop : op.isArithmetic = true) :
    (binary op left right).exactValue =
      integerResult op left.exactValue right.exactValue := by
  cases op <;> first | rfl | cases hop

theorem width_binary : (binary op left right).width = left.width.wider right.width := by
  have hany : (binary op left right).evaluated.any isInt64 =
      (left.evaluated.any isInt64 || right.evaluated.any isInt64) := by
    simp [evaluated, isInt64]
  unfold width
  rw [hany]
  cases left.evaluated.any isInt64 <;> cases right.evaluated.any isInt64 <;> rfl

theorem width_negate (ty : Ty) : (unary .negate operand ty).width = operand.width := by
  have hany : (unary .negate operand ty).evaluated.any isInt64 = operand.evaluated.any isInt64 := by
    simp [evaluated, isInt64]
  rw [width, hany, width]

/-- What one operator yields is the exact value if nothing goes wrong, and else its own fault. -/
theorem binary_cases (hop : op.isArithmetic = true) {l r : Value}
    (hl : left.width.Holds left.exactValue l) (hr : right.width.Holds right.exactValue r) :
    (∃ value, Value.binary op l r (binary op left right) = .ok value ∧
        (binary op left right).width.Holds (binary op left right).exactValue value ∧
        (binary op left right).IsSound) ∨
      ∃ error, Value.binary op l r (binary op left right) = .error error ∧
        (binary op left right).Fault error := by
  rw [Value.binary_holds hop hl hr, ← width_binary]
  by_cases hz : (binary op left right).DividesByZero
  · obtain ⟨hdiv, hzero⟩ := hz
    rw [checkedInteger_of_zero (isDivision_iff.2 hdiv) hzero]
    exact .inr ⟨_, rfl, .inl ⟨⟨hdiv, hzero⟩, rfl⟩⟩
  · by_cases hm : op.isDivision = true ∧
        left.exactValue = (binary op left right).width.least ∧ right.exactValue = -1
    · -- the quotient does not fit, and the remainder is refused although it does
      rw [checkedInteger_of_least hm.1 hm.2.1 hm.2.2]
      refine .inr ⟨_, rfl, .inr ⟨hz, fun hsound => ?_, rfl⟩⟩
      obtain rfl | rfl := isDivision_iff.1 hm.1
      · have hfits := hsound.fits
        rw [exactValue, hm.2.1, hm.2.2] at hfits
        exact Width.not_fits_least_tdiv _ hfits
      · exact hsound.remainder ⟨rfl, hm.2⟩
    · rw [checkedInteger_of_not (fun h => hz ⟨isDivision_iff.1 h.1, h.2⟩) hm,
        ← exactValue_binary hop]
      cases hv : (binary op left right).width.value? (binary op left right).exactValue with
      | none =>
        rw [Width.value?_eq_none] at hv
        exact .inr ⟨_, rfl, .inr ⟨hz, fun hsound => hv hsound.fits, rfl⟩⟩
      | some value =>
        rw [Width.value?_eq_some] at hv
        refine .inl ⟨value, rfl, hv, hz, hv.fits, fun hleast => hm ⟨?_, hleast.2⟩⟩
        exact isDivision_iff.2 (.inr hleast.1)

theorem unary_negate_holds {width : Width} {n : Int} {value : Value} (ty : Ty) (expr : Expr)
    (h : width.Holds n value) :
    Value.unary .negate value ty expr = (width.value? (-n)).elim (.error (.overflow expr)) .ok := by
  cases width with
  | bits32 =>
    obtain ⟨k, rfl, rfl⟩ := h
    show Value.fit32 expr (-k.toInt) = _
    rw [Value.fit32, Width.value?]
    cases int32? (-k.toInt) <;> rfl
  | bits64 =>
    obtain ⟨k, rfl, rfl⟩ := h
    show Value.fit64 expr (-k.toInt) = _
    rw [Value.fit64, Width.value?]
    cases int64? (-k.toInt) <;> rfl

theorem negate_cases {value : Value} (ty : Ty)
    (h : operand.width.Holds operand.exactValue value) :
    (∃ negated, Value.unary .negate value ty (unary .negate operand ty) = .ok negated ∧
        (unary .negate operand ty).width.Holds (unary .negate operand ty).exactValue negated ∧
        (unary .negate operand ty).IsSound) ∨
      ∃ error, Value.unary .negate value ty (unary .negate operand ty) = .error error ∧
        (unary .negate operand ty).Fault error := by
  have hvalue : -operand.exactValue = (unary .negate operand ty).exactValue := rfl
  rw [unary_negate_holds ty _ h, hvalue, ← width_negate ty]
  cases hv : (unary .negate operand ty).width.value? (unary .negate operand ty).exactValue with
  | none =>
    rw [Width.value?_eq_none] at hv
    exact .inr ⟨_, rfl, .inr ⟨id, fun hsound => hv hsound.fits, rfl⟩⟩
  | some negated =>
    rw [Width.value?_eq_some] at hv
    exact .inl ⟨negated, rfl, hv, id, hv.fits, id⟩

/-! ### Whole expressions -/

/-- A fault of the first part of what is evaluated is the first fault of the whole. -/
theorem FirstFault.of_prefix {expr part : Expr} {error : EvalError} {rest : List Expr}
    (h : part.FirstFault error) (he : expr.evaluated = part.evaluated ++ rest) :
    expr.FirstFault error := by
  obtain ⟨before, node, after, hp, hbefore, hfault⟩ := h
  refine ⟨before, node, after ++ rest, ?_, hbefore, hfault⟩
  rw [he, hp, List.append_assoc, List.cons_append]

/-- A fault after a part in which nothing goes wrong. -/
theorem FirstFault.of_suffix {expr part : Expr} {error : EvalError} {first rest : List Expr}
    (hfirst : ∀ earlier ∈ first, earlier.IsSound) (h : part.FirstFault error)
    (he : expr.evaluated = first ++ (part.evaluated ++ rest)) : expr.FirstFault error := by
  obtain ⟨before, node, after, hp, hbefore, hfault⟩ := h
  refine ⟨first ++ before, node, after ++ rest, ?_, List.forall_mem_append.2 ⟨hfirst, hbefore⟩,
    hfault⟩
  rw [he, hp]
  simp

theorem firstFault_of_last {expr : Expr} {error : EvalError} {operands : List Expr}
    (ho : ∀ earlier ∈ operands, earlier.IsSound) (h : expr.Fault error)
    (he : expr.evaluated = operands ++ [expr]) : expr.FirstFault error :=
  ⟨operands, expr, [], he, ho, h⟩

/-- Evaluation gives the exact value, and then nothing has gone wrong anywhere, or the first
fault. -/
theorem evaluate_cases {expr : Expr} (h : expr.IsInteger) :
    (∃ value, expr.evaluate = .ok value ∧ expr.width.Holds expr.exactValue value ∧
        ∀ node ∈ expr.evaluated, node.IsSound) ∨
      ∃ error, expr.evaluate = .error error ∧ expr.FirstFault error := by
  induction h with
  | int32 n =>
    have hn : Width.bits32.Holds n.toInt (.int32 n) := ⟨n, rfl, rfl⟩
    exact .inl ⟨.int32 n, rfl, hn, List.forall_mem_singleton.2 ⟨id, hn.fits, id⟩⟩
  | int64 n =>
    have hn : Width.bits64.Holds n.toInt (.int64 n) := ⟨n, rfl, rfl⟩
    exact .inl ⟨.int64 n, rfl, hn, List.forall_mem_singleton.2 ⟨id, hn.fits, id⟩⟩
  | @negate operand ty inner ih =>
    have hrun : (unary .negate operand ty).evaluate =
      operand.evaluate >>= fun value => Value.unary .negate value ty (unary .negate operand ty) :=
      rfl
    rw [hrun]
    obtain ⟨value, hv, hholds, hsound⟩ | ⟨error, he, hfault⟩ := ih
    · rw [hv]
      obtain ⟨negated, hn, hnegated, hown⟩ | ⟨error, he, hfault⟩ := negate_cases ty hholds
      · refine .inl ⟨negated, hn, hnegated, ?_⟩
        exact List.forall_mem_append.2 ⟨hsound, List.forall_mem_singleton.2 hown⟩
      · exact .inr ⟨error, he, firstFault_of_last hsound hfault rfl⟩
    · rw [he]
      exact .inr ⟨error, rfl, hfault.of_prefix rfl⟩
  | @binary op left right arithmetic first second ihl ihr =>
    have hlogical : op.isLogical = false := by cases op <;> first | rfl | cases arithmetic
    have hrun : (binary op left right).evaluate = left.evaluate >>= fun l =>
        right.evaluate >>= fun r => Value.binary op l r (binary op left right) := by
      simp only [evaluate, hlogical, Bool.false_eq_true, if_false]
    rw [hrun]
    obtain ⟨l, hl, hleft, hsl⟩ | ⟨error, he, hfault⟩ := ihl
    · obtain ⟨r, hr, hright, hsr⟩ | ⟨error, he, hfault⟩ := ihr
      · have hoperands := List.forall_mem_append.2 ⟨hsl, hsr⟩
        rw [hl, hr]
        obtain ⟨value, hv, hholds, hown⟩ | ⟨error, he, hfault⟩ :=
          binary_cases arithmetic hleft hright
        · refine .inl ⟨value, hv, hholds, ?_⟩
          exact List.forall_mem_append.2 ⟨hoperands, List.forall_mem_singleton.2 hown⟩
        · exact .inr ⟨error, he, firstFault_of_last hoperands hfault rfl⟩
      · rw [hl, he]
        exact .inr ⟨error, rfl, hfault.of_suffix hsl (List.append_assoc _ _ _)⟩
    · rw [he]
      exact .inr ⟨error, rfl, hfault.of_prefix (List.append_assoc _ _ _)⟩

theorem Fault.not_isSound {expr : Expr} {error : EvalError} (h : expr.Fault error) :
    ¬expr.IsSound := by
  intro hsound
  obtain ⟨hz, -⟩ | ⟨-, hunsound, -⟩ := h
  · exact hsound.divisor hz
  · exact hunsound hsound

theorem Fault.unique {expr : Expr} {error other : EvalError} (h : expr.Fault error)
    (ho : expr.Fault other) : error = other := by
  obtain ⟨hz, rfl⟩ | ⟨hz, -, rfl⟩ := h
  · obtain ⟨-, rfl⟩ | ⟨hnot, -⟩ := ho
    · rfl
    · exact absurd hz hnot
  · obtain ⟨hzero, -⟩ | ⟨-, -, rfl⟩ := ho
    · exact absurd hzero hz
    · rfl

theorem FirstFault.not_isSound {expr : Expr} {error : EvalError} (h : expr.FirstFault error) :
    ¬∀ node ∈ expr.evaluated, node.IsSound := by
  intro hsound
  obtain ⟨before, node, after, he, -, hfault⟩ := h
  refine hfault.not_isSound (hsound node ?_)
  rw [he]
  exact List.mem_append_right _ List.mem_cons_self

/-- There is one first fault. -/
theorem FirstFault.unique {expr : Expr} {error other : EvalError} (h : expr.FirstFault error)
    (ho : expr.FirstFault other) : error = other := by
  obtain ⟨before, node, after, he, hbefore, hfault⟩ := h
  obtain ⟨before', node', after', he', hbefore', hfault'⟩ := ho
  have hsame : node = node' := by
    -- a node further on would have an unsound one before it
    obtain ⟨between, hb, hn⟩ | ⟨between, hb, hn⟩ := List.append_eq_append_iff.1 (he.symm.trans he')
    · cases between with
      | nil => exact (List.cons.inj hn).1
      | cons first rest =>
        obtain ⟨rfl, -⟩ := List.cons.inj hn
        exact absurd (hbefore' node (by simp [hb])) hfault.not_isSound
    · cases between with
      | nil => exact (List.cons.inj hn).1.symm
      | cons first rest =>
        obtain ⟨rfl, -⟩ := List.cons.inj hn
        exact absurd (hbefore node' (by simp [hb])) hfault'.not_isSound
  subst hsame
  exact hfault.unique hfault'

/-- An integer expression has a value if and only if nothing goes wrong at any of its nodes, and the
value is the exact one with the width of the expression. Otherwise evaluation ends with the first
fault. -/
theorem evaluate_exact {expr : Expr} (h : expr.IsInteger) :
    (∀ value, expr.evaluate = .ok value ↔
      (∀ node ∈ expr.evaluated, node.IsSound) ∧ expr.width.Holds expr.exactValue value) ∧
      ∀ error, expr.evaluate = .error error ↔ expr.FirstFault error := by
  obtain ⟨value, hv, hholds, hsound⟩ | ⟨error, he, hfault⟩ := evaluate_cases h
  · rw [hv]
    refine ⟨fun other => ⟨?_, fun ho => congrArg Except.ok (hholds.unique ho.2)⟩, fun error => ?_⟩
    · rintro ⟨⟩
      exact ⟨hsound, hholds⟩
    · constructor
      · intro he
        cases he
      · intro hfault
        exact absurd hsound hfault.not_isSound
  · rw [he]
    refine ⟨fun value => ⟨?_, fun hv => absurd hv.1 hfault.not_isSound⟩, fun other => ⟨?_, ?_⟩⟩
    · intro hv
      cases hv
    · rintro ⟨⟩
      exact hfault
    · intro ho
      exact congrArg Except.error (hfault.unique ho)

/-- The remainder of the least integer of 32 bits by minus one, which is taken with 64 bits. -/
def widened : Expr :=
  binary .modulo (constant (.int32 Int32.minValue)) (constant (.int64 (-1)))

/-- The same remainder with 32 bits. -/
def narrow : Expr :=
  binary .modulo (constant (.int32 Int32.minValue)) (constant (.int32 (-1)))

/-- A quotient with a divisor of zero, after a dividend that has no value either. -/
def quotient : Expr := binary .divide (unary .negate narrow .int32) widened

theorem isInteger_widened : widened.IsInteger := .binary rfl (.int32 _) (.int64 _)

theorem isInteger_quotient : quotient.IsInteger :=
  .binary rfl (.negate .int32 (.binary rfl (.int32 _) (.int32 _))) isInteger_widened

/-- The remainder with 64 bits has a value. In the quotient, the remainder with 32 bits comes first
and decides about the error. -/
theorem evaluate_exact_quotient :
    widened.IsInteger ∧ widened.evaluate = .ok (.int64 0) ∧
      (∀ node ∈ widened.evaluated, node.IsSound) ∧
      widened.width.Holds widened.exactValue (.int64 0) ∧
      quotient.IsInteger ∧ quotient.DividesByZero ∧
      quotient.evaluate = .error (.overflow narrow) ∧ quotient.FirstFault (.overflow narrow) := by
  have hw : widened.evaluate = .ok (.int64 0) := rfl
  have hq : quotient.evaluate = .error (.overflow narrow) := rfl
  have hzero : quotient.DividesByZero := ⟨.inl rfl, rfl⟩
  obtain ⟨hsound, hholds⟩ := ((evaluate_exact isInteger_widened).1 _).1 hw
  exact ⟨isInteger_widened, hw, hsound, hholds, isInteger_quotient, hzero, hq,
    ((evaluate_exact isInteger_quotient).2 _).1 hq⟩

end Expr

end ServiceQuery
