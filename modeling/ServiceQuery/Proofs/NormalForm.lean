import ServiceQuery.Proofs.Normal

/-!
# What is left to simplify in a normal form

At most two steps are taken at a node, from the normal forms of its subexpressions. A third one is
possible only where a call that compares two operands is itself compared with zero, and a comparison
of the operands makes two more steps possible: one operand is then a negation or another comparing
call, and the other one a constant. Elsewhere nothing is left to simplify.
-/

namespace ServiceQuery.Expr

/-! ### Plain nodes -/

/-- Whether the expression is a constant. -/
def isConstant (expr : Expr) : Bool := expr.constant?.isSome

/-- The operator does not test a boolean literal and anything but a constant for equality. -/
def TestsNoLiteral (op : BinaryOp) (left right : Expr) : Prop :=
  op = .equal ∨ op = .notEqual → ∀ literal,
    (right = constant (.bool literal) → left.isConstant = true) ∧
      (left = constant (.bool literal) → right.isConstant = true)

/-- A node that is no double negation, no comparison of a comparing call with zero, and no test of
a boolean literal and anything but a constant for equality. -/
def IsPlain : Expr → Prop
  | unary .not (unary .not _ _) _ => False
  | binary op left right =>
    (op.isComparison = true → right.isIntegerZero = true → left.comparedOperands? = none) ∧
      TestsNoLiteral op left right
  | _ => True

theorem comparedLiteral?_right (left : Expr) (literal : Bool) :
    comparedLiteral? left (constant (.bool literal)) = some (left, literal) := by
  cases left <;> rfl

theorem comparedLiteral?_left {right : Expr} (h : right.isConstant = false) (literal : Bool) :
    comparedLiteral? (constant (.bool literal)) right = some (right, literal) := by
  cases right with
  | constant value => cases h
  | _ => rfl

theorem withoutLiteral?_some {op : BinaryOp} {left right operand : Expr} {literal : Bool}
    (hop : op = .equal ∨ op = .notEqual)
    (hl : comparedLiteral? left right = some (operand, literal))
    (hc : operand.isConstant = false) : withoutLiteral? op left right ≠ none := by
  rw [withoutLiteral?, if_pos hop, hl]
  cases operand with
  | constant value => cases hc
  | _ => exact Option.some_ne_none _

theorem withoutLiteral?_eq_none {op : BinaryOp} {left right : Expr} :
    withoutLiteral? op left right = none ↔ TestsNoLiteral op left right := by
  constructor
  · intro h hop literal
    constructor
    · rintro rfl
      cases hc : left.isConstant with
      | true => rfl
      | false => exact (withoutLiteral?_some hop (comparedLiteral?_right left literal) hc h).elim
    · rintro rfl
      cases hc : right.isConstant with
      | true => rfl
      | false => exact (withoutLiteral?_some hop (comparedLiteral?_left hc literal) hc h).elim
  · intro h
    unfold withoutLiteral?
    split
    · next hop =>
      split
      · rfl
      · next operand literal hc hl =>
        have hconstant : operand.isConstant = true := by
          obtain ⟨rfl, hr⟩ | ⟨rfl, hr⟩ := comparedLiteral?_some hl
          · exact (h hop literal).1 hr
          · exact (h hop literal).2 hr
        cases operand with
        | constant value => exact (hc value rfl).elim
        | _ => cases hconstant
      · rfl
    · rfl

theorem withoutCompare?_eq_none (op : BinaryOp) {left right : Expr} :
    withoutCompare? op left right = none ↔
      (right.isIntegerZero = true → left.comparedOperands? = none) := by
  unfold withoutCompare?
  split
  · next hz => simp only [Option.map_eq_none_iff, hz, true_imp_iff]
  · next hz => simp only [hz, Bool.false_eq_true, false_imp_iff]

/-- No step is left at plain nodes, and at no others. -/
theorem simpler?_eq_none {expr : Expr} : expr.simpler? = none ↔ expr.IsPlain := by
  cases expr with
  | unary op operand ty =>
    cases op with
    | not =>
      cases operand with
      | unary inner operand ty' =>
        cases inner with
        | not => exact iff_of_false (Option.some_ne_none _) id
        | _ => exact iff_of_true rfl trivial
      | _ => exact iff_of_true rfl trivial
    | _ => exact iff_of_true rfl trivial
  | binary op left right =>
    rw [simpler?, IsPlain, ← withoutCompare?_eq_none op, ← withoutLiteral?_eq_none]
    split
    · next hop =>
      cases withoutCompare? op left right with
      | some generated => simp [hop]
      | none => simp [hop]
    · next hop =>
      have hl : withoutLiteral? op left right = none := by
        rw [withoutLiteral?, if_neg]
        rintro (rfl | rfl) <;> exact hop rfl
      simp [hop, hl]
  | _ => exact iff_of_true rfl trivial

/-! ### Expressions where no step is left -/

/-- No step is left at any node. -/
def IsSimplest (expr : Expr) : Prop := ∀ node ∈ expr.nodes, node.simpler? = none

theorem isSimplest_iff {expr : Expr} :
    expr.IsSimplest ↔ expr.simpler? = none ∧ ∀ child ∈ expr.children, child.IsSimplest :=
  forall_nodes

theorem IsSimplest.here {expr : Expr} (h : expr.IsSimplest) : expr.simpler? = none :=
  h expr expr.self_mem_nodes

theorem IsSimplest.below {expr child : Expr} (h : expr.IsSimplest) (hm : child ∈ expr.children) :
    child.IsSimplest :=
  (isSimplest_iff.1 h).2 child hm

/-- An expression where no step is left is its own normal form, and nothing is recorded. -/
theorem normalize_of_isSimplest {expr : Expr} (h : expr.IsSimplest) :
    expr.normalize = (expr, []) := by
  suffices hpure : expr.transformM (fun _ => none) simplify = pure expr by
    rw [normalize, hpure]
    rfl
  induction expr using induction_children with | node expr ih =>
  obtain ⟨hself, hchildren⟩ := isSimplest_iff.1 h
  have hrebuilt : expr.mapChildrenM (transformM (fun _ => none) simplify) =
      pure (expr.mapChildren fun child => child) :=
    mapChildrenM_reaches (.withoutEffect _) fun child hm => ih child hm (hchildren child hm)
  rw [transformM_eq, visit, hrebuilt, pure_bind, mapChildren_id, simplify, hself]

theorem mem_children_of_comparedLiteral? {op : BinaryOp} {left right operand : Expr}
    {literal : Bool} (h : comparedLiteral? left right = some (operand, literal)) :
    operand ∈ (binary op left right).children := by
  obtain ⟨rfl, -⟩ | ⟨rfl, -⟩ := comparedLiteral?_some h
  · exact List.mem_cons_self
  · exact List.mem_cons_of_mem _ List.mem_cons_self

theorem isSimplest_of_comparedLiteral? {left right operand : Expr} {literal : Bool}
    (hl : left.IsSimplest) (hr : right.IsSimplest)
    (h : comparedLiteral? left right = some (operand, literal)) : operand.IsSimplest := by
  obtain ⟨rfl, -⟩ | ⟨rfl, -⟩ := comparedLiteral?_some h
  · exact hl
  · exact hr

theorem children_of_comparedOperands? {expr a b : Expr}
    (h : expr.comparedOperands? = some (a, b)) : expr.children = [a, b] := by
  unfold comparedOperands? at h
  split at h
  · cases h
    rfl
  · cases h
    rfl
  · cases h

/-- Where no step is left below a node, none is left below what a step makes of it. -/
theorem children_of_simpler? {expr generated : Expr} (h : expr.simpler? = some generated)
    (hc : ∀ child ∈ expr.children, child.IsSimplest) :
    ∀ child ∈ generated.children, child.IsSimplest := by
  cases Step.of_simpler? h with
  | notNot operand ty ty' =>
    have hinner : (unary .not generated ty).IsSimplest := hc _ List.mem_cons_self
    exact fun child hm => (hinner.below List.mem_cons_self).below hm
  | @compare op left right a b _ _ operands =>
    have hleft : left.IsSimplest := hc _ List.mem_cons_self
    intro child hm
    exact hleft.below (by rwa [children_of_comparedOperands? operands])
  | @literal op left right operand literal _ compared =>
    have hoperand : operand.IsSimplest := hc _ (mem_children_of_comparedLiteral? compared)
    split
    · exact fun child hm => hoperand.below hm
    · exact List.forall_mem_singleton.2 hoperand

theorem children_advance {expr : Expr} (hc : ∀ child ∈ expr.children, child.IsSimplest) :
    ∀ child ∈ expr.advance.children, child.IsSimplest := by
  cases h : expr.simpler? with
  | none =>
    rw [advance_of_none h]
    exact hc
  | some generated =>
    rw [advance_of_some h]
    exact children_of_simpler? h hc

/-! ### Normal forms of normal forms -/

/-- One step is enough at a negation. -/
theorem simpler?_advance_not {operand : Expr} (h : operand.IsSimplest) (ty : Ty) :
    (unary .not operand ty).advance.simpler? = none := by
  cases hs : (unary .not operand ty).simpler? with
  | none => rw [advance_of_none hs, hs]
  | some generated =>
    rw [advance_of_some hs]
    cases Step.of_simpler? hs with
    | notNot => exact (h.below List.mem_cons_self).here

/-- A step is the last one at a comparison, unless it uncovers the operands of a comparing call. -/
theorem simpler?_advance_comparison {op : BinaryOp} {left right : Expr} (hl : left.IsSimplest)
    (hr : right.IsSimplest)
    (h : right.isIntegerZero = true → ∀ a b, left.comparedOperands? = some (a, b) →
      ∀ generated, (binary op a b).simpler? = some generated → generated.simpler? = none) :
    (binary op left right).advance.advance.simpler? = none := by
  cases hs : (binary op left right).simpler? with
  | none => rw [advance_of_none hs, advance_of_none hs, hs]
  | some generated =>
    rw [advance_of_some hs]
    cases Step.of_simpler? hs with
    | compare _ zero operands =>
      cases ha : (binary op _ _).simpler? with
      | none => rw [advance_of_none ha, ha]
      | some again =>
        rw [advance_of_some ha]
        exact h zero _ _ operands again ha
    | @literal _ _ _ operand literal _ compared =>
      have hoperand := isSimplest_of_comparedLiteral? hl hr compared
      split
      · rw [advance_of_none hoperand.here, hoperand.here]
      · exact simpler?_advance_not hoperand .bool

/-- Where the normal form of a node would compare a comparing call with zero, comparing the operands
of the call takes no more than one further step. -/
def SettlesCompared : Expr → Prop
  | binary op left right =>
    right.normalize.1.isIntegerZero = true → ∀ a b,
      left.normalize.1.comparedOperands? = some (a, b) → ∀ generated,
        (binary op a b).simpler? = some generated → generated.simpler? = none
  | _ => True

theorem isSimplest_normalize {expr : Expr} (h : ∀ node ∈ expr.nodes, node.SettlesCompared) :
    expr.normalize.1.IsSimplest := by
  induction expr using induction_children with | node expr ih =>
  obtain ⟨hself, hbelow⟩ := forall_nodes.1 h
  have hnormal : ∀ child ∈ expr.children, child.normalize.1.IsSimplest :=
    fun child hm => ih child hm (hbelow child hm)
  have hchildren : ∀ child ∈ (expr.mapChildren fun child => child.normalize.1).children,
      child.IsSimplest := by
    rw [children_mapChildren]
    intro normal hm
    obtain ⟨child, hchild, rfl⟩ := List.mem_map.1 hm
    exact hnormal child hchild
  rw [normalize_eq]
  refine isSimplest_iff.2 ⟨?_, children_advance (children_advance hchildren)⟩
  -- what is left is the node itself: there is no third step
  cases expr with
  | unary op operand ty =>
    cases op with
    | not =>
      have hstep := simpler?_advance_not (hnormal operand List.mem_cons_self) ty
      rwa [mapChildren, advance_of_none hstep]
    | _ => rfl
  | binary op left right =>
    exact simpler?_advance_comparison (hnormal left List.mem_cons_self)
      (hnormal right (List.mem_cons_of_mem _ List.mem_cons_self)) hself
  | _ => rfl

/-! ### Where two steps are not enough -/

/-- A first step leaves a second one: a comparing call is compared with zero and what becomes of it
is not plain, or a negation is compared with the literal that adds another negation. -/
inductive TakesTwo (op : BinaryOp) : Expr → Expr → Prop where
  | nested {left right a b : Expr} (comparison : op.isComparison = true)
      (zero : right.isIntegerZero = true) (operands : left.comparedOperands? = some (a, b))
      (idiom : ¬(binary op a b).IsPlain) : TakesTwo op left right
  | negationLeft {operand : Expr} {ty : Ty} {literal : Bool}
      (equality : op = .equal ∨ op = .notEqual) (negates : ((op == .equal) == literal) = false) :
      TakesTwo op (unary .not operand ty) (constant (.bool literal))
  | negationRight {operand : Expr} {ty : Ty} {literal : Bool}
      (equality : op = .equal ∨ op = .notEqual) (negates : ((op == .equal) == literal) = false) :
      TakesTwo op (constant (.bool literal)) (unary .not operand ty)

theorem exists_not_of_simpler? {operand : Expr} {ty : Ty}
    (h : (unary .not operand ty).simpler? ≠ none) :
    ∃ inner ty', operand = unary .not inner ty' := by
  cases hs : (unary .not operand ty).simpler? with
  | none => exact absurd hs h
  | some generated =>
    cases Step.of_simpler? hs with
    | notNot inner ty' => exact ⟨_, _, rfl⟩

theorem TakesTwo.of_simpler? {op : BinaryOp} {left right generated : Expr} (hl : left.IsSimplest)
    (hr : right.IsSimplest) (h : (binary op left right).simpler? = some generated)
    (hagain : generated.simpler? ≠ none) : TakesTwo op left right := by
  cases Step.of_simpler? h with
  | compare comparison zero operands =>
    exact .nested comparison zero operands fun hplain => hagain (simpler?_eq_none.2 hplain)
  | @literal _ _ _ operand literal equality compared =>
    have hoperand := isSimplest_of_comparedLiteral? hl hr compared
    split at hagain
    · exact absurd hoperand.here hagain
    · next hnegates =>
      obtain ⟨inner, ty, rfl⟩ := exists_not_of_simpler? hagain
      obtain ⟨rfl, rfl⟩ | ⟨rfl, rfl⟩ := comparedLiteral?_some compared
      · exact .negationLeft equality (Bool.eq_false_iff.2 hnegates)
      · exact .negationRight equality (Bool.eq_false_iff.2 hnegates)

theorem TakesTwo.exists_simpler? {op : BinaryOp} {left right : Expr} (h : TakesTwo op left right) :
    ∃ generated, (binary op left right).simpler? = some generated ∧ generated.simpler? ≠ none := by
  cases h with
  | nested comparison zero operands idiom =>
    refine ⟨_, ?_, fun hnone => idiom (simpler?_eq_none.1 hnone)⟩
    simp only [simpler?, comparison, withoutCompare?, zero, operands, if_true, Option.map_some]
  | @negationLeft operand ty literal equality negates =>
    refine ⟨(unary .not operand ty).logicalNot, ?_, Option.some_ne_none _⟩
    obtain rfl | rfl := equality <;> cases literal <;> cases negates <;> rfl
  | @negationRight operand ty literal equality negates =>
    refine ⟨(unary .not operand ty).logicalNot, ?_, Option.some_ne_none _⟩
    obtain rfl | rfl := equality <;> cases literal <;> cases negates <;> rfl

theorem IsSimplest.operands {expr a b : Expr} (h : expr.IsSimplest)
    (hab : expr.comparedOperands? = some (a, b)) : a.IsSimplest ∧ b.IsSimplest := by
  have hchildren := children_of_comparedOperands? hab
  constructor
  · exact h.below (hchildren ▸ List.mem_cons_self)
  · exact h.below (hchildren ▸ List.mem_cons_of_mem _ List.mem_cons_self)

/-- Two steps are enough at a comparison, unless a call whose operands take two is compared with
zero. -/
theorem settlesCompared_iff {op : BinaryOp} {left right : Expr} (hl : left.normalize.1.IsSimplest) :
    (binary op left right).SettlesCompared ↔
      (right.normalize.1.isIntegerZero = true → ∀ a b,
        left.normalize.1.comparedOperands? = some (a, b) → ¬TakesTwo op a b) := by
  constructor
  · intro h zero a b hab htwo
    obtain ⟨generated, hfirst, hsecond⟩ := htwo.exists_simpler?
    exact hsecond (h zero a b hab generated hfirst)
  · intro h zero a b hab generated hfirst
    obtain ⟨ha, hb⟩ := hl.operands hab
    cases hsecond : generated.simpler? with
    | none => rfl
    | some again =>
      have hne : generated.simpler? ≠ none := by simp [hsecond]
      exact absurd (.of_simpler? ha hb hfirst hne) (h zero a b hab)

/-- A negation, a comparison or a comparing call: these are what steps are made from. -/
def isIdiom : Expr → Bool
  | unary .not _ _ => true
  | binary op _ _ => op.isComparison
  | expr => expr.comparedOperands?.isSome

/-- Operands of a comparing call, of which one is an idiom only if the other is neither an idiom nor
a constant. -/
def OperandsApart (a b : Expr) : Prop :=
  (a.isIdiom = true → b.isIdiom = false ∧ b.isConstant = false) ∧
    (b.isIdiom = true → a.isIdiom = false ∧ a.isConstant = false)

theorem comparedOperands?_mapChildren (f : Expr → Expr) (expr : Expr) :
    (expr.mapChildren f).comparedOperands? =
      expr.comparedOperands?.map fun operands => (f operands.1, f operands.2) := by
  cases expr with
  | call method args ty =>
    by_cases hm : method = "Compare"
    · subst hm
      rcases args with _ | ⟨a, _ | ⟨b, _ | ⟨c, rest⟩⟩⟩ <;> rfl
    · have hnone (args : List Expr) : (call method args ty).comparedOperands? = none := by
        unfold comparedOperands?
        split <;> simp_all
      rw [mapChildren, hnone, hnone, Option.map_none]
  | invoke receiver method args ty =>
    by_cases hm : method = "CompareTo"
    · subst hm
      rcases args with _ | ⟨a, _ | ⟨b, rest⟩⟩ <;> rfl
    · have hnone (receiver : Expr) (args : List Expr) :
          (invoke receiver method args ty).comparedOperands? = none := by
        unfold comparedOperands?
        split <;> simp_all
      rw [mapChildren, hnone, hnone, Option.map_none]
  | _ => rfl

theorem simpler?_of_isIdiom {expr : Expr} (h : expr.isIdiom = false) : expr.simpler? = none := by
  cases expr with
  | unary op operand ty =>
    cases op with
    | not => cases h
    | _ => rfl
  | binary op left right =>
    have hop : op.isComparison = false := h
    rw [simpler?, hop]
    rfl
  | _ => rfl

theorem isIdiom_mapChildren (f : Expr → Expr) (expr : Expr) :
    (expr.mapChildren f).isIdiom = expr.isIdiom := by
  have hoperands := congrArg Option.isSome (comparedOperands?_mapChildren f expr)
  rw [Option.isSome_map] at hoperands
  cases expr with
  | unary op operand ty => cases op <;> rfl
  | call method args ty => exact hoperands
  | invoke receiver method args ty => exact hoperands
  | _ => rfl

theorem isConstant_mapChildren (f : Expr → Expr) (expr : Expr) :
    (expr.mapChildren f).isConstant = expr.isConstant := by
  cases expr <;> rfl

/-- The normal form of anything but an idiom has its shape. -/
theorem normalize_of_isIdiom {expr : Expr} (h : expr.isIdiom = false) :
    expr.normalize.1 = expr.mapChildren fun child => child.normalize.1 := by
  have hnone : (expr.mapChildren fun child => child.normalize.1).simpler? = none :=
    simpler?_of_isIdiom ((isIdiom_mapChildren _ expr).trans h)
  rw [normalize_eq, advance_of_none hnone, advance_of_none hnone]

theorem isIdiom_of_normalize {expr : Expr} (h : expr.normalize.1.isIdiom = true) :
    expr.isIdiom = true := by
  cases hi : expr.isIdiom with
  | true => rfl
  | false =>
    rw [normalize_of_isIdiom hi, isIdiom_mapChildren, hi] at h
    cases h

theorem isConstant_of_normalize {expr : Expr} (h : expr.normalize.1.isConstant = true)
    (hi : expr.isIdiom = false) : expr.isConstant = true := by
  rwa [normalize_of_isIdiom hi, isConstant_mapChildren] at h

theorem isIdiom_of_comparedOperands? {expr : Expr} {operands : Expr × Expr}
    (h : expr.comparedOperands? = some operands) : expr.isIdiom = true := by
  unfold comparedOperands? at h
  split at h
  · rfl
  · rfl
  · cases h

theorem isConstant_of_isIntegerZero {expr : Expr} (h : expr.isIntegerZero = true) :
    expr.isConstant = true := by
  unfold isIntegerZero at h
  split at h
  · rfl
  · cases h

/-- Two steps are taken only with an idiom beside a constant. -/
theorem TakesTwo.isIdiom {op : BinaryOp} {left right : Expr} (h : TakesTwo op left right) :
    left.isIdiom = true ∧ right.isConstant = true ∨
      right.isIdiom = true ∧ left.isConstant = true := by
  cases h with
  | nested _ zero operands _ =>
    exact .inl ⟨isIdiom_of_comparedOperands? operands, isConstant_of_isIntegerZero zero⟩
  | negationLeft => exact .inl ⟨rfl, rfl⟩
  | negationRight => exact .inr ⟨rfl, rfl⟩

/-- Operands that stand apart do not take two steps once they are normal. -/
theorem OperandsApart.not_takesTwo {a b : Expr} (h : OperandsApart a b) (op : BinaryOp) :
    ¬TakesTwo op a.normalize.1 b.normalize.1 := by
  intro htwo
  obtain ⟨hidiom, hconstant⟩ | ⟨hidiom, hconstant⟩ := htwo.isIdiom
  · obtain ⟨hshape, hno⟩ := h.1 (isIdiom_of_normalize hidiom)
    exact Bool.false_ne_true (hno.symm.trans (isConstant_of_normalize hconstant hshape))
  · obtain ⟨hshape, hno⟩ := h.2 (isIdiom_of_normalize hidiom)
    exact Bool.false_ne_true (hno.symm.trans (isConstant_of_normalize hconstant hshape))

/-- A step makes no nodes but negations and comparisons. -/
theorem forall_nodes_of_simpler? {P : Expr → Prop} {expr generated : Expr}
    (hnot : ∀ operand ty, P (unary .not operand ty)) (hbinary : ∀ op a b, P (binary op a b))
    (h : expr.simpler? = some generated) (hall : ∀ node ∈ expr.nodes, P node) :
    ∀ node ∈ generated.nodes, P node := by
  have hbelow := (forall_nodes.1 hall).2
  cases Step.of_simpler? h with
  | notNot operand ty ty' =>
    have hinner := hbelow _ List.mem_cons_self
    exact (forall_nodes.1 hinner).2 _ List.mem_cons_self
  | @compare op left right a b _ _ operands =>
    have hleft := (forall_nodes.1 (hbelow left List.mem_cons_self)).2
    rw [children_of_comparedOperands? operands] at hleft
    exact forall_nodes.2 ⟨hbinary op a b, hleft⟩
  | @literal op left right operand literal _ compared =>
    have hoperand := hbelow operand (mem_children_of_comparedLiteral? compared)
    split
    · exact hoperand
    · exact forall_nodes.2 ⟨hnot operand .bool, List.forall_mem_singleton.2 hoperand⟩

theorem forall_nodes_advance {P : Expr → Prop} {expr : Expr}
    (hnot : ∀ operand ty, P (unary .not operand ty)) (hbinary : ∀ op a b, P (binary op a b))
    (hall : ∀ node ∈ expr.nodes, P node) : ∀ node ∈ expr.advance.nodes, P node := by
  cases h : expr.simpler? with
  | none =>
    rw [advance_of_none h]
    exact hall
  | some generated =>
    rw [advance_of_some h]
    exact forall_nodes_of_simpler? hnot hbinary h hall

/-- The comparing calls of a normal form are those of the expression, over the normal forms of their
operands. -/
theorem comparedOperands?_normalize (expr : Expr) :
    ∀ node ∈ expr.normalize.1.nodes, ∀ a b, node.comparedOperands? = some (a, b) →
      ∃ origin ∈ expr.nodes, ∃ p q, origin.comparedOperands? = some (p, q) ∧
        a = p.normalize.1 ∧ b = q.normalize.1 := by
  induction expr using induction_children with | node expr ih =>
  rw [normalize_eq]
  refine forall_nodes_advance (fun _ _ _ _ h => by cases h) (fun _ _ _ _ _ h => by cases h)
    (forall_nodes_advance (fun _ _ _ _ h => by cases h) (fun _ _ _ _ _ h => by cases h)
      (forall_nodes.2 ⟨fun a b h => ?_, fun normal hn node hm a b h => ?_⟩))
  · rw [comparedOperands?_mapChildren] at h
    obtain ⟨⟨p, q⟩, hpq, heq⟩ := Option.map_eq_some_iff.1 h
    obtain ⟨rfl, rfl⟩ := Prod.mk.inj heq
    exact ⟨expr, expr.self_mem_nodes, p, q, hpq, rfl, rfl⟩
  · rw [children_mapChildren] at hn
    obtain ⟨child, hchild, rfl⟩ := List.mem_map.1 hn
    obtain ⟨origin, ho, h⟩ := ih child hchild node hm a b h
    exact ⟨origin, nodes_subset hchild ho, h⟩

/-- Two steps are enough everywhere if the operands of all comparing calls stand apart. -/
theorem settlesCompared_of_operandsApart {expr : Expr}
    (h : ∀ node ∈ expr.nodes, ∀ a b, node.comparedOperands? = some (a, b) → OperandsApart a b) :
    ∀ node ∈ expr.nodes, node.SettlesCompared := by
  induction expr using induction_children with | node expr ih =>
  have hbelow : ∀ child ∈ expr.children, ∀ node ∈ child.nodes, node.SettlesCompared :=
    fun child hm => ih child hm fun node hn => h node (nodes_subset hm hn)
  refine forall_nodes.2 ⟨?_, hbelow⟩
  cases expr with
  | binary op left right =>
    have hleft : left ∈ (binary op left right).children := List.mem_cons_self
    refine (settlesCompared_iff (isSimplest_normalize (hbelow left hleft))).2 fun _ a b hab => ?_
    obtain ⟨origin, ho, p, q, hpq, rfl, rfl⟩ :=
      comparedOperands?_normalize left _ (self_mem_nodes _) a b hab
    exact (h origin (nodes_subset hleft ho) p q hpq).not_takesTwo op
  | _ => trivial

/-- Where no node settles too late, a normal form is its own normal form, nothing is recorded for
it, and all its nodes are plain. -/
theorem normalize_fixed {expr : Expr} (h : ∀ node ∈ expr.nodes, node.SettlesCompared) :
    expr.normalize.1.normalize = (expr.normalize.1, []) ∧
      ∀ node ∈ expr.normalize.1.nodes, node.IsPlain := by
  have hsimplest := isSimplest_normalize h
  exact ⟨normalize_of_isSimplest hsimplest, fun node hm => simpler?_eq_none.1 (hsimplest node hm)⟩

namespace Sample

/-- Whether a customer is active. -/
def active : Expr := .member (.parameter ⟨"c", .entity "Customer"⟩) "Active" .bool

/-- The truth value compares with false as equal. -/
def comparedWithFalse (truth : Expr) : Expr :=
  .binary .equal (.invoke truth "CompareTo" [.constant (.bool false)] .int32) (.constant (.int32 0))

end Sample

/-- Two steps at one node. -/
theorem normalize_fixed_active :
    (∀ node ∈ (Sample.comparedWithFalse Sample.active).nodes, node.SettlesCompared) ∧
      (Sample.comparedWithFalse Sample.active).normalize.1 = Sample.active.logicalNot ∧
      Sample.active.logicalNot.normalize = (Sample.active.logicalNot, []) ∧
      ∀ node ∈ Sample.active.logicalNot.nodes, node.IsPlain := by
  have h : ∀ node ∈ (Sample.comparedWithFalse Sample.active).nodes, node.SettlesCompared := by
    refine settlesCompared_of_operandsApart ?_
    simp [Sample.comparedWithFalse, Sample.active, nodes, nodesOfList, comparedOperands?,
      OperandsApart, isIdiom]
  exact ⟨h, rfl, normalize_fixed h⟩

/-- Three steps would be needed here, and a double negation is left. -/
theorem normalize_unsettled :
    let expr := Sample.comparedWithFalse Sample.active.logicalNot
    expr.normalize.1 = Sample.active.logicalNot.logicalNot ∧
      expr.normalize.1.normalize = (Sample.active, [(Sample.active, expr.normalize.1)]) ∧
      expr.normalize.1.normalize ≠ (expr.normalize.1, []) := by
  refine ⟨rfl, rfl, ?_⟩
  rintro ⟨⟩

end ServiceQuery.Expr
