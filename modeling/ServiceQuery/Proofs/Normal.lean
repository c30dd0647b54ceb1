import ServiceQuery.Normal
import ServiceQuery.Proofs.Fold

/-!
# The normal form of an expression keeps its value

A step at a node may turn a comparison of values of different types into something else, and a step
can make another one possible at the same node. Neither happens where an expression has a value and
booleans are compared with booleans only.
-/

namespace ServiceQuery

/-- Where the first result is a value, the second is the same value. -/
def Refines {α : Type} (x y : Except EvalError α) : Prop := ∀ a, x = .ok a → y = .ok a

theorem Refines.bind {α β : Type} {x y : Except EvalError α} {f g : α → Except EvalError β}
    (h : Refines x y) (hf : ∀ a, Refines (f a) (g a)) : Refines (x >>= f) (y >>= g) := by
  intro b hb
  obtain ⟨a, ha, hb⟩ := Except.bind_eq_ok.1 hb
  exact Except.bind_eq_ok.2 ⟨a, h a ha, hf a b hb⟩

def ResultRelation.refines : ResultRelation where
  rel := Refines
  of_same h a := (h.ok_iff a).1
  bind h hf := h.bind hf

namespace Value

/-- Comparisons of values with an order are decided by the order. -/
theorem binary_eq_of_compare? {op : BinaryOp} (hop : op.isComparison = true) {l r l' r' : Value}
    {order : Ordering} (h : compare? l r = some order) (h' : compare? l' r' = some order)
    (hnull : (l.isNull || r.isNull || l'.isNull || r'.isNull) = false) (expr expr' : Expr) :
    binary op l r expr = binary op l' r' expr' := by
  simp only [Bool.or_eq_false_iff] at hnull
  obtain ⟨⟨⟨hl, hr⟩, hl'⟩, hr'⟩ := hnull
  have hequal : l.equal r = l'.equal r' := by simp only [equal, hl, hr, hl', hr', h, h']
  cases op with
  | equal | notEqual => simp only [binary, hequal]
  | lessThan | lessThanOrEqual | greaterThan | greaterThanOrEqual =>
    simp only [binary, hl, hr, hl', hr', h, h', Bool.false_eq_true, or_self, if_false]
  | _ => cases hop

theorem compare?_ofOrdering {zero : Value} (h : zero.integer? = some 0) (order : Ordering) :
    compare? (ofOrdering order) zero = some order := by
  cases zero with
  | int32 n =>
    have hn : n.toInt = 0 := Option.some.inj h
    cases order <;> simp [ofOrdering, compare?, Operands.of?, Operands.order?, hn] <;> decide
  | int64 n =>
    have hn : n.toInt = 0 := Option.some.inj h
    cases order <;> simp [ofOrdering, compare?, Operands.of?, Operands.order?, hn] <;> decide
  | _ => cases h

end Value

namespace Expr

/-! ### Steps -/

/-- A node after one step, if there is one. -/
def advance (expr : Expr) : Expr := expr.simpler?.getD expr

theorem advance_of_none {expr : Expr} (h : expr.simpler? = none) : expr.advance = expr := by
  rw [advance, h, Option.getD_none]

theorem advance_of_some {expr generated : Expr} (h : expr.simpler? = some generated) :
    expr.advance = generated := by
  rw [advance, h, Option.getD_some]

theorem run_simplify (node rebuilt : Expr) (replacements : Replacements) :
    ((simplify node rebuilt).run replacements).1 = rebuilt.advance.advance := by
  unfold simplify
  cases h : rebuilt.simpler? with
  | none =>
    rw [advance_of_none h, advance_of_none h]
    rfl
  | some generated =>
    rw [advance_of_some h, advance]
    dsimp only
    cases generated.simpler? <;> rfl

/-- The normal form of a node from those of its subexpressions. -/
theorem normalize_eq (expr : Expr) :
    expr.normalize.1 = (expr.mapChildren fun child => child.normalize.1).advance.advance := by
  -- what is recorded before has no influence on the normal form
  suffices h : ∀ replacements,
      ((expr.transformM (fun _ => none) simplify).run replacements).1 =
        (expr.mapChildren fun child => child.normalize.1).advance.advance from h []
  induction expr using induction_children with | node expr ih =>
  have hchild : ∀ child ∈ expr.children, ∀ replacements,
      ((child.transformM (fun _ => none) simplify).run replacements).1 = child.normalize.1 :=
    fun child hm replacements => (ih child hm replacements).trans (ih child hm []).symm
  rw [transformM_eq]
  exact (Reach.state Replacements).bind (mapChildrenM_reaches (.state Replacements) hchild)
    (run_simplify expr _)

/-- A step at a node. -/
inductive Step : Expr → Expr → Prop where
  | notNot (operand : Expr) (ty ty' : Ty) : Step (unary .not (unary .not operand ty) ty') operand
  | compare {op : BinaryOp} {left right a b : Expr} (comparison : op.isComparison = true)
      (zero : right.isIntegerZero = true) (operands : left.comparedOperands? = some (a, b)) :
      Step (binary op left right) (binary op a b)
  | literal {op : BinaryOp} {left right operand : Expr} {literal : Bool}
      (equality : op = .equal ∨ op = .notEqual)
      (compared : comparedLiteral? left right = some (operand, literal)) :
      Step (binary op left right)
        (if (op == .equal) == literal then operand else operand.logicalNot)

theorem Step.of_simpler? {expr generated : Expr} (h : expr.simpler? = some generated) :
    Step expr generated := by
  unfold simpler? at h
  split at h
  · obtain rfl := Option.some.inj h
    exact .notNot _ _ _
  · next op left right =>
    split at h
    · next hop =>
      split at h
      · next expr hc =>
        obtain rfl := Option.some.inj h
        unfold withoutCompare? at hc
        split at hc
        · next hz =>
          obtain ⟨⟨a, b⟩, hab, rfl⟩ := Option.map_eq_some_iff.1 hc
          exact .compare hop hz hab
        · cases hc
      · unfold withoutLiteral? at h
        split at h
        · next heq =>
          split at h
          · cases h
          · next hl =>
            obtain rfl := Option.some.inj h
            exact .literal heq hl
          · cases h
        · cases h
    · cases h
  · cases h

/-- No step is left at a node, nor at the operand of a negation that it is. -/
def IsSettled (expr : Expr) : Prop :=
  expr.simpler? = none ∧ ∀ operand ty, expr = unary .not operand ty → operand.simpler? = none

/-- The operand of a settled negation is itself settled, for it is no negation. -/
theorem IsSettled.operand {operand : Expr} {ty : Ty} (h : (unary .not operand ty).IsSettled) :
    operand.IsSettled := by
  refine ⟨h.2 operand ty rfl, ?_⟩
  rintro inner ty' rfl
  cases h.1

/-! ### Values before and after a step -/

theorem evaluate_not {operand : Expr} {ty : Ty} {value : Value}
    (h : (unary .not operand ty).evaluate = .ok value) :
    operand.evaluate = .ok .null ∧ value = .null ∨
      ∃ b, operand.evaluate = .ok (.bool b) ∧ value = .bool !b := by
  rw [evaluate] at h
  obtain ⟨inner, hi, h⟩ := Except.bind_eq_ok.1 h
  cases inner with
  | null => exact .inl ⟨hi, (Except.ok.inj h).symm⟩
  | bool b => exact .inr ⟨b, hi, (Except.ok.inj h).symm⟩
  | _ => cases h

theorem evaluate_notNot {operand : Expr} {ty ty' : Ty} {value : Value}
    (h : (unary .not (unary .not operand ty) ty').evaluate = .ok value) :
    operand.evaluate = .ok value := by
  obtain ⟨hinner, rfl⟩ | ⟨b, hinner, rfl⟩ := evaluate_not h
  · obtain ⟨ho, -⟩ | ⟨c, -, hv⟩ := evaluate_not hinner
    · exact ho
    · cases hv
  · obtain ⟨-, hv⟩ | ⟨c, ho, hv⟩ := evaluate_not hinner
    · cases hv
    · rw [ho, Value.bool.inj hv, Bool.not_not]

theorem evaluate_binary {op : BinaryOp} (hop : op.isLogical = false) {left right : Expr}
    {value : Value} :
    (binary op left right).evaluate = .ok value ↔
      ∃ l r, left.evaluate = .ok l ∧ right.evaluate = .ok r ∧
        Value.binary op l r (binary op left right) = .ok value := by
  simp only [evaluate, hop, Bool.false_eq_true, if_false, Except.bind_eq_ok]
  constructor
  · rintro ⟨l, hl, r, hr, h⟩
    exact ⟨l, r, hl, hr, h⟩
  · rintro ⟨l, r, hl, hr, h⟩
    exact ⟨l, hl, r, hr, h⟩

theorem not_isLogical {op : BinaryOp} (h : op.isComparison = true) : op.isLogical = false := by
  cases op <;> first | rfl | cases h

/-- A call that compares two operands has a value for strings only. -/
theorem evaluate_comparedOperands {expr a b : Expr} {value : Value}
    (hc : expr.comparedOperands? = some (a, b)) (h : expr.evaluate = .ok value) :
    ∃ s t, a.evaluate = .ok (.string s) ∧ b.evaluate = .ok (.string t) ∧
      value = .ofOrdering (compare s t) := by
  unfold comparedOperands? at hc
  split at hc
  · cases hc
    rw [evaluate] at h
    simp only [evaluateList, Except.bind_eq_ok, Except.pure_eq_ok, Except.ok.injEq] at h
    obtain ⟨_, ⟨l, hl, _, ⟨r, hr, _, rfl, rfl⟩, rfl⟩, h⟩ := h
    cases l with
    | string s =>
      cases r with
      | string t => exact ⟨s, t, hl, hr, (Except.ok.inj h).symm⟩
      | _ => cases h
    | _ => cases h
  · cases hc
    rw [evaluate] at h
    simp only [evaluateList, Except.bind_eq_ok, Except.pure_eq_ok, Except.ok.injEq] at h
    obtain ⟨l, hl, _, ⟨r, hr, _, rfl, rfl⟩, h⟩ := h
    cases l with
    | string s =>
      cases r with
      | string t =>
        have hv := (Except.ok.inj h).symm
        rw [String.ofList_toList, String.ofList_toList] at hv
        exact ⟨s, t, hl, hr, hv⟩
      | _ => cases h
    | _ => cases h
  · cases hc

theorem integer?_of_isIntegerZero {expr : Expr} {value : Value} (hz : expr.isIntegerZero = true)
    (h : expr.evaluate = .ok value) : value.integer? = some 0 := by
  cases expr with
  | constant zero =>
    cases h
    exact beq_iff_eq.1 hz
  | _ => cases hz

/-- Two strings compare as the result of their comparison does with zero. -/
theorem evaluate_compare {op : BinaryOp} {left right a b : Expr} {value : Value}
    (hop : op.isComparison = true) (hz : right.isIntegerZero = true)
    (hc : left.comparedOperands? = some (a, b)) (h : (binary op left right).evaluate = .ok value) :
    ∃ s t, a.evaluate = .ok (.string s) ∧ b.evaluate = .ok (.string t) ∧
      (binary op a b).evaluate = .ok value := by
  have hlogical := not_isLogical hop
  obtain ⟨l, r, hl, hr, h⟩ := (evaluate_binary hlogical).1 h
  obtain ⟨s, t, ha, hb, rfl⟩ := evaluate_comparedOperands hc hl
  have hzero : r.integer? = some 0 := integer?_of_isIntegerZero hz hr
  have hnull : r.isNull = false := by
    cases r with
    | null => cases hzero
    | _ => rfl
  have hnull' : (Value.ofOrdering (compare s t)).isNull = false := by cases compare s t <;> rfl
  refine ⟨s, t, ha, hb, (evaluate_binary hlogical).2 ⟨.string s, .string t, ha, hb, ?_⟩⟩
  rw [← h]
  exact Value.binary_eq_of_compare? hop rfl (Value.compare?_ofOrdering hzero _)
    (by rw [hnull, hnull']; rfl) _ _

theorem comparedLiteral?_some {left right operand : Expr} {literal : Bool}
    (h : comparedLiteral? left right = some (operand, literal)) :
    operand = left ∧ right = constant (.bool literal) ∨
      operand = right ∧ left = constant (.bool literal) := by
  unfold comparedLiteral? at h
  split at h
  · cases h
    exact .inl ⟨rfl, rfl⟩
  · cases h
    exact .inr ⟨rfl, rfl⟩
  · cases h

/-- A boolean compares with a literal as the boolean itself or its negation. -/
theorem evaluate_literal {op : BinaryOp} {left right operand : Expr} {literal b : Bool}
    {value : Value} (hop : op = .equal ∨ op = .notEqual)
    (hl : comparedLiteral? left right = some (operand, literal))
    (hb : operand.evaluate = .ok (.bool b)) (h : (binary op left right).evaluate = .ok value) :
    value = .bool (if (op == .equal) == literal then b else !b) := by
  have hlogical : op.isLogical = false := by obtain rfl | rfl := hop <;> rfl
  obtain ⟨l, r, hleft, hright, h⟩ := (evaluate_binary hlogical).1 h
  obtain ⟨rfl, rfl⟩ | ⟨rfl, rfl⟩ := comparedLiteral?_some hl
  · cases hb.symm.trans hleft
    cases hright
    obtain rfl | rfl := hop <;> cases b <;> cases literal <;> exact (Except.ok.inj h).symm
  · cases hb.symm.trans hright
    cases hleft
    obtain rfl | rfl := hop <;> cases b <;> cases literal <;> exact (Except.ok.inj h).symm

/-! ### Normal forms -/

/-- An expression with a value at which no step is left. -/
structure Settles (expr : Expr) (value : Value) : Prop where
  evaluate : expr.evaluate = .ok value
  settled : expr.IsSettled

theorem Settles.advance {expr : Expr} {value : Value} (h : expr.Settles value) :
    expr.advance.Settles value := by
  rw [advance_of_none h.settled.1]
  exact h

theorem settles_binary {op : BinaryOp} {left right : Expr} {value : Value}
    (h : (binary op left right).evaluate = .ok value)
    (hs : (binary op left right).simpler? = none) : (binary op left right).Settles value :=
  ⟨h, hs, fun _ _ he => by cases he⟩

/-- One step is enough at a negation. -/
theorem settles_not {operand : Expr} {ty : Ty} {inner value : Value} (ho : operand.Settles inner)
    (h : (unary .not operand ty).evaluate = .ok value) :
    (unary .not operand ty).advance.Settles value := by
  cases hs : (unary .not operand ty).simpler? with
  | none =>
    rw [advance_of_none hs]
    refine ⟨h, hs, ?_⟩
    rintro _ _ ⟨⟩
    exact ho.settled.1
  | some generated =>
    rw [advance_of_some hs]
    cases Step.of_simpler? hs with
    | notNot => exact ⟨evaluate_notNot h, ho.settled.operand⟩

/-- A comparison of two strings is not one with a literal. -/
theorem simpler?_of_string {op : BinaryOp} {a b : Expr} {s t : String}
    (ha : a.evaluate = .ok (.string s)) (hb : b.evaluate = .ok (.string t)) :
    (binary op a b).simpler? = none := by
  rw [Option.eq_none_iff_forall_ne_some]
  intro generated hs
  cases Step.of_simpler? hs with
  | compare _ zero _ => cases integer?_of_isIntegerZero zero hb
  | literal _ compared =>
    obtain ⟨-, rfl⟩ | ⟨-, rfl⟩ := comparedLiteral?_some compared
    · cases hb
    · cases ha

/-- The expression has a boolean value. -/
def IsTruth (expr : Expr) : Prop := ∃ b, expr.evaluate = .ok (.bool b)

/-- Where a node compares a boolean for equality, it does so with a boolean. -/
def ComparesAlike : Expr → Prop
  | binary op left right => op = .equal ∨ op = .notEqual → (left.IsTruth ↔ right.IsTruth)
  | _ => True

/-- Both steps at a comparison keep its value. -/
theorem settles_comparison {op : BinaryOp} {left right : Expr} {l r value : Value}
    (hleft : left.Settles l) (hright : right.Settles r)
    (h : (binary op left right).evaluate = .ok value) (hc : (binary op left right).ComparesAlike) :
    (binary op left right).advance.advance.Settles value := by
  cases hs : (binary op left right).simpler? with
  | none =>
    rw [advance_of_none hs]
    exact (settles_binary h hs).advance
  | some generated =>
    rw [advance_of_some hs]
    cases Step.of_simpler? hs with
    | compare comparison zero operands =>
      obtain ⟨s, t, ha, hb, hv⟩ := evaluate_compare comparison zero operands h
      exact (settles_binary hv (simpler?_of_string ha hb)).advance
    | @literal _ _ _ operand literal equality compared =>
      -- the literal is a boolean, so the other side is one
      have hoperand : ∃ b, operand.Settles (.bool b) := by
        obtain ⟨rfl, rfl⟩ | ⟨rfl, rfl⟩ := comparedLiteral?_some compared
        · obtain ⟨b, hb⟩ := (hc equality).2 ⟨literal, rfl⟩
          exact ⟨b, hb, hleft.settled⟩
        · obtain ⟨b, hb⟩ := (hc equality).1 ⟨literal, rfl⟩
          exact ⟨b, hb, hright.settled⟩
      obtain ⟨b, hoperand⟩ := hoperand
      obtain rfl := evaluate_literal equality compared hoperand.evaluate h
      split
      · exact hoperand.advance
      · refine settles_not hoperand ?_
        rw [evaluate, hoperand.evaluate]
        rfl

theorem normalize_settles {expr : Expr} {value : Value} (h : expr.evaluate = .ok value)
    (hc : ∀ node ∈ expr.nodes, node.ComparesAlike) : expr.normalize.1.Settles value := by
  induction expr using induction_children generalizing value with | node expr ih =>
  obtain ⟨hself, hchildren⟩ := forall_nodes.1 hc
  have ih : ∀ child ∈ expr.children, ∀ v, child.evaluate = .ok v → child.normalize.1.Settles v :=
    fun child hm v hv => ih child hm hv (hchildren child hm)
  -- a subexpression that is not evaluated may lose its value, but has no influence
  have hrebuilt : (expr.mapChildren fun child => child.normalize.1).evaluate = .ok value := by
    refine evaluate_related .refines (f := fun child => child) ?_ value (by rwa [mapChildren_id])
    exact fun child hm v hv => (ih child hm v hv).evaluate
  rw [normalize_eq]
  cases expr with
  | unary op operand ty =>
    cases op with
    | not =>
      rw [evaluate] at h
      obtain ⟨inner, hi, -⟩ := Except.bind_eq_ok.1 h
      exact (settles_not (ih operand List.mem_cons_self inner hi) hrebuilt).advance
    | _ => exact ⟨hrebuilt, rfl, fun _ _ he => by cases he⟩
  | binary op left right =>
    by_cases hop : op.isComparison = true
    · obtain ⟨l, r, hl, hr, -⟩ := (evaluate_binary (not_isLogical hop)).1 h
      have hleft := ih left List.mem_cons_self l hl
      have hright := ih right (List.mem_cons_of_mem _ List.mem_cons_self) r hr
      refine settles_comparison hleft hright hrebuilt fun hequality => ?_
      have htruth := hself hequality
      simp only [IsTruth, hleft.evaluate, hright.evaluate, hl, hr] at htruth ⊢
      exact htruth
    · have hs : (binary op left.normalize.1 right.normalize.1).simpler? = none := by
        rw [simpler?, if_neg hop]
      rw [mapChildren, advance_of_none hs]
      exact (settles_binary hrebuilt hs).advance
  | _ => exact ⟨hrebuilt, rfl, fun _ _ he => by cases he⟩

/-- The normal form of an expression has its value, if every comparison for equality with a boolean
is one of two booleans. -/
theorem normalize_evaluate {expr : Expr} {value : Value} (h : expr.evaluate = .ok value)
    (hc : ∀ node ∈ expr.nodes, node.ComparesAlike) : expr.normalize.1.evaluate = .ok value :=
  (normalize_settles h hc).evaluate

namespace Sample

/-- The first text comes before the second. -/
def before : Expr :=
  .call "Compare" [.constant (.string "apple"), .constant (.string "pear")] .int32

def quotient : Expr :=
  .binary .equal (.binary .divide (.constant (.int32 1)) (.constant (.int32 0)))
    (.constant (.int32 1))

/-- Both steps happen at the negation, and the quotient is never evaluated. -/
def ordered : Expr :=
  .binary .andAlso
    (.unary .not (.binary .equal (.binary .lessThan before (.constant (.int32 0)))
      (.constant (.bool false))) .bool)
    (.binary .orElse
      (.binary .equal (.invoke (.constant (.string "kiwi")) "CompareTo" [.constant (.string "kiwi")]
        .int32) (.constant (.int64 0)))
      quotient)

def orderedNormal : Expr :=
  .binary .andAlso (.binary .lessThan (.constant (.string "apple")) (.constant (.string "pear")))
    (.binary .orElse (.binary .equal (.constant (.string "kiwi")) (.constant (.string "kiwi")))
      quotient)

end Sample

theorem normalize_evaluate_ordered :
    Sample.ordered.evaluate = .ok (.bool true) ∧
      (∀ node ∈ Sample.ordered.nodes, node.ComparesAlike) ∧
      Sample.ordered.normalize.1 = Sample.orderedNormal ∧
      Sample.ordered.normalize.1.evaluate = .ok (.bool true) := by
  have hvalue : Sample.ordered.evaluate = .ok (.bool true) := rfl
  have hnumber {expr : Expr} {value : Value} (h : expr.evaluate = .ok value)
      (hb : value.isBool = false) : ¬expr.IsTruth := by
    rintro ⟨b, ht⟩
    cases h.symm.trans ht
    cases hb
  have hquotient :
      ¬(Expr.binary .divide (.constant (.int32 1)) (.constant (.int32 0))).IsTruth := by
    rintro ⟨b, ⟨⟩⟩
  have hc : ∀ node ∈ Sample.ordered.nodes, node.ComparesAlike := by
    simp only [Sample.ordered, Sample.before, Sample.quotient, nodes, nodesOfList,
      List.forall_mem_append, List.forall_mem_cons, ComparesAlike, reduceCtorEq, or_self, or_false,
      false_imp_iff, true_and, and_true, forall_const, List.not_mem_nil]
    exact ⟨iff_of_true ⟨true, rfl⟩ ⟨false, rfl⟩,
      iff_of_false (hnumber rfl rfl) (hnumber rfl rfl), iff_of_false hquotient (hnumber rfl rfl)⟩
  exact ⟨hvalue, hc, rfl, normalize_evaluate hvalue hc⟩

end Expr

end ServiceQuery
