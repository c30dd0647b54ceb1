import ServiceQuery.Proofs.Fold

/-!
# Folded expressions are normal

What is closed in an expression is folded to constants, and what is left of it are the nodes that
stand for parameters and resources with the operators around them. Folding such an expression again
changes nothing.
-/

namespace ServiceQuery

/-- A result that is no complaint about a node without a value. -/
def IsLocal {α : Type} (x : Except EvalError α) : Prop :=
  ∀ expr, x ≠ .error (.notEvaluable expr)

namespace IsLocal

variable {α β : Type} {x : Except EvalError α}

theorem ok (a : α) : IsLocal (.ok a) := by simp [IsLocal]

theorem bind {f : α → Except EvalError β} (hx : IsLocal x) (hf : ∀ a, IsLocal (f a)) :
    IsLocal (x >>= f) := by
  cases x with
  | ok a => exact hf a
  | error e =>
    intro expr h
    exact hx expr (congrArg Except.error (Except.error.inj h))

theorem map (f : α → β) (hx : IsLocal x) : IsLocal (f <$> x) := by
  have hb : f <$> x = x >>= fun a => .ok (f a) := by cases x <;> rfl
  rw [hb]
  exact hx.bind fun a => .ok _

theorem mapM {f : α → Except EvalError β} {as : List α} (h : ∀ a ∈ as, IsLocal (f a)) :
    IsLocal (as.mapM f) := by
  induction as with
  | nil => exact .ok []
  | cons a as ih =>
    rw [List.forall_mem_cons] at h
    rw [List.mapM_cons]
    exact h.1.bind fun b => (ih h.2).bind fun bs => .ok _

end IsLocal

namespace Value

/-! Operations on values have errors of their own, none of which is about a node. -/

variable (expr : Expr)

theorem isLocal_fit32 (n : Int) : IsLocal (fit32 expr n) := by
  unfold fit32
  split <;> simp [IsLocal]

theorem isLocal_fit64 (n : Int) : IsLocal (fit64 expr n) := by
  unfold fit64
  split <;> simp [IsLocal]

theorem isLocal_readMember (value : Value) (name : String) :
    IsLocal (value.readMember name expr) := by
  cases value with
  | string s =>
    simp only [readMember]
    split
    · exact isLocal_fit32 expr _
    · simp [IsLocal]
  | array element items =>
    simp only [readMember]
    split
    · exact isLocal_fit32 expr _
    · simp [IsLocal]
  | record fields =>
    simp only [readMember]
    split <;> simp [IsLocal]
  | _ => simp [IsLocal, readMember]

theorem isLocal_chars (method : String) (value : Value) : IsLocal (value.chars method) := by
  cases value <;> simp [IsLocal, chars]

theorem isLocal_index (value : Value) : IsLocal (value.index expr) := by
  unfold index
  split <;> simp [IsLocal]

theorem isLocal_invokeString (s : List Char) (method : String) (args : List Value) :
    IsLocal (invokeString s method args expr) := by
  unfold invokeString
  split
  · exact .ok _
  · exact .ok _
  · exact .ok _
  · exact (isLocal_chars _ _).bind fun part => .ok _
  · exact (isLocal_chars _ _).bind fun part => .ok _
  · exact (isLocal_chars _ _).bind fun part => .ok _
  · refine (isLocal_chars _ _).bind fun part => ?_
    split
    · exact isLocal_fit32 expr _
    · exact .ok _
  · refine (isLocal_index expr _).bind fun start => ?_
    split <;> simp [IsLocal, pure, Except.pure]
  · refine (isLocal_index expr _).bind fun start => ?_
    refine (isLocal_index expr _).bind fun length => ?_
    split <;> simp [IsLocal, pure, Except.pure]
  · exact (isLocal_chars _ _).bind fun part => (isLocal_chars _ _).bind fun substitute => .ok _
  · exact (isLocal_chars _ _).bind fun other => .ok _
  · simp [IsLocal]

theorem isLocal_invoke (receiver : Value) (method : String) (args : List Value) :
    IsLocal (receiver.invoke method args expr) := by
  unfold invoke
  split
  · simp [IsLocal]
  · exact isLocal_invokeString expr _ method args
  · split <;> simp [IsLocal]
  · simp [IsLocal]

theorem isLocal_rounded (method : String) (value : Value) :
    IsLocal (rounded method value expr) := by
  cases value <;> simp [IsLocal, rounded]

theorem isLocal_absolute (value : Value) {x : Except EvalError Value} (h : IsLocal x) :
    IsLocal ((value.absolute? expr).getD x) := by
  cases value with
  | int32 n => exact isLocal_fit32 expr _
  | int64 n => exact isLocal_fit64 expr _
  | single x | double x | decimal d => exact .ok _
  | _ => exact h

theorem isLocal_negate (value : Value) {x : Except EvalError Value} (h : IsLocal x) :
    IsLocal ((value.negate? expr).getD x) := by
  cases value with
  | int32 n => exact isLocal_fit32 expr _
  | int64 n => exact isLocal_fit64 expr _
  | single x | double x | decimal d => exact .ok _
  | _ => exact h

theorem isLocal_call (method : String) (args : List Value) : IsLocal (call method args expr) := by
  unfold call
  split
  · exact .ok _
  · exact .ok _
  · exact .ok _
  · exact isLocal_rounded expr _ _
  · exact isLocal_rounded expr _ _
  · exact isLocal_rounded expr _ _
  · exact isLocal_absolute expr _ (by simp [IsLocal])
  · simp [IsLocal]

theorem isLocal_convert (value : Value) (ty : Ty) : IsLocal (value.convert ty) := by
  unfold convert
  simp only
  split
  · exact .ok _
  · split <;> simp [IsLocal]

theorem isLocal_unary (op : UnaryOp) (value : Value) (ty : Ty) :
    IsLocal (unary op value ty expr) := by
  unfold unary
  split
  · exact .ok _
  · exact .ok _
  · simp [IsLocal]
  · exact isLocal_negate expr _ (by simp [IsLocal])
  · exact isLocal_convert _ ty

theorem isLocal_arithmetic (op : BinaryOp) (l r : Value) : IsLocal (arithmetic op l r expr) := by
  unfold arithmetic
  split
  · exact .ok _
  · split
    · exact .ok _
    · split
      · simp [IsLocal]
      · next operands _ =>
        cases operands.apply op with
        | ok value => exact .ok _
        | error fault =>
          intro node hnode
          have hfault : fault.toError expr = .notEvaluable node := Except.error.inj hnode
          cases fault <;> cases hfault

theorem isLocal_binary (op : BinaryOp) (l r : Value) : IsLocal (binary op l r expr) := by
  cases op with
  | equal | notEqual => exact .ok _
  | lessThan | lessThanOrEqual | greaterThan | greaterThanOrEqual =>
    simp only [binary]
    split
    · exact .ok _
    · cases compare? l r <;> simp [IsLocal]
  | _ => exact isLocal_arithmetic expr _ l r

end Value

namespace Expr

theorem isLocal_evaluateList {exprs : List Expr} (h : ∀ expr ∈ exprs, IsLocal expr.evaluate) :
    IsLocal (evaluateList exprs) := by
  induction exprs with
  | nil => exact .ok []
  | cons expr rest ih =>
    rw [List.forall_mem_cons] at h
    exact h.1.bind fun value => (ih h.2).bind fun values => .ok _

theorem isLocal_evaluateMembers {members : List (String × Expr)}
    (h : ∀ expr ∈ members.map Prod.snd, IsLocal expr.evaluate) :
    IsLocal (evaluateMembers members) := by
  induction members with
  | nil => exact .ok []
  | cons member rest ih =>
    rw [List.map_cons, List.forall_mem_cons] at h
    exact h.1.bind fun value => (ih h.2).bind fun values => .ok _

/-- Evaluating a closed expression meets no node without a value. -/
theorem isLocal_evaluate {expr : Expr} (h : expr.isClosed isEvaluable = true) :
    IsLocal expr.evaluate := by
  induction expr using induction_children with | node expr ih =>
  obtain ⟨he, hc⟩ := isClosed_iff.1 h
  have ih : ∀ child ∈ expr.children, IsLocal child.evaluate :=
    fun child hm => ih child hm (hc child hm)
  cases expr with
  | parameter param | lambda params body | root origin | input ref => cases he
  | constant value => exact .ok value
  | member source name ty =>
    exact (ih source List.mem_cons_self).bind fun value => value.isLocal_readMember source name
  | invoke receiver method args ty =>
    rw [children, List.forall_mem_cons] at ih
    exact ih.1.bind fun value => (isLocal_evaluateList ih.2).bind fun values =>
      Value.isLocal_invoke _ value method values
  | call method args ty =>
    exact (isLocal_evaluateList ih).bind fun values => Value.isLocal_call _ method values
  | newRecord ty members | newObject ty members => exact (isLocal_evaluateMembers ih).map _
  | newArray element items => exact (isLocal_evaluateList ih).bind fun values => .ok _
  | unary op operand ty =>
    exact (ih operand List.mem_cons_self).bind fun value => Value.isLocal_unary _ op value ty
  | binary op left right =>
    rw [children, List.forall_mem_cons, List.forall_mem_singleton] at ih
    rw [evaluate]
    refine ih.1.bind fun l => ?_
    split
    · split
      · exact .ok _
      · split
        · refine ih.2.bind fun r => ?_
          split <;> simp [IsLocal, pure, Except.pure]
        · simp [IsLocal]
    · exact ih.2.bind fun r => Value.isLocal_binary _ op l r
  | conditional test whenTrue whenFalse =>
    rw [children, List.forall_mem_cons, List.forall_mem_cons, List.forall_mem_singleton] at ih
    rw [evaluate]
    refine ih.1.bind fun value => ?_
    split
    · exact ih.2.1
    · exact ih.2.2
    · simp [IsLocal]

theorem isLocal_mapMembersM {f : Expr → Except EvalError Expr} {members : List (String × Expr)}
    (h : ∀ expr ∈ members.map Prod.snd, IsLocal (f expr)) : IsLocal (mapMembersM f members) := by
  refine IsLocal.mapM fun member hm => ?_
  exact (h member.2 (List.mem_map_of_mem hm)).bind fun expr => .ok _

theorem isLocal_mapChildrenM {f : Expr → Except EvalError Expr} {expr : Expr}
    (h : ∀ child ∈ expr.children, IsLocal (f child)) : IsLocal (expr.mapChildrenM f) := by
  cases expr with
  | constant | parameter | root | input => exact .ok _
  | member | lambda | unary => exact (h _ List.mem_cons_self).bind fun child => .ok _
  | call | newArray => exact (IsLocal.mapM h).bind fun children => .ok _
  | newRecord | newObject => exact (isLocal_mapMembersM h).bind fun members => .ok _
  | invoke receiver method args ty =>
    rw [children, List.forall_mem_cons] at h
    exact h.1.bind fun receiver => (IsLocal.mapM h.2).bind fun args => .ok _
  | binary op left right =>
    rw [children, List.forall_mem_cons, List.forall_mem_singleton] at h
    exact h.1.bind fun left => h.2.bind fun right => .ok _
  | conditional test whenTrue whenFalse =>
    rw [children, List.forall_mem_cons, List.forall_mem_cons, List.forall_mem_singleton] at h
    exact h.1.bind fun test => h.2.1.bind fun whenTrue => h.2.2.bind fun whenFalse => .ok _

theorem isLocal_fold (expr : Expr) : IsLocal expr.fold := by
  induction expr using induction_children with | node expr ih =>
  cases hc : expr.isClosed isEvaluable with
  | false =>
    rw [fold_of_not_isClosed hc]
    exact isLocal_mapChildrenM ih
  | true =>
    rw [fold_of_isClosed hc, toConstant.eq_def]
    split
    · exact .ok _
    · exact (isLocal_evaluate hc).map _

/-! ### What folding leaves -/

/-- A node that has no value of its own. -/
inductive Anchor where
  | parameter (param : Param)
  | lambda (params : List Param)
  | root (origin : ResourceRoot)
  | input (ref : InputRef)

/-- The node as an anchor; a lambda is known by its parameters. -/
def anchor? : Expr → Option Anchor
  | parameter param => some (.parameter param)
  | lambda params _ => some (.lambda params)
  | root origin => some (.root origin)
  | input ref => some (.input ref)
  | _ => none

/-- The anchors of an expression, from left to right. -/
def anchors (expr : Expr) : List Anchor := expr.nodes.filterMap anchor?

/-- Every node is a constant or has an anchor at or below it. -/
def IsReduced (expr : Expr) : Prop :=
  ∀ node ∈ expr.nodes, (∃ value, node = constant value) ∨ node.anchors ≠ []

theorem isEvaluable_iff {expr : Expr} : expr.isEvaluable = true ↔ expr.anchor? = none := by
  cases expr <;> simp [isEvaluable, anchor?]

theorem anchors_eq (expr : Expr) :
    expr.anchors = expr.anchor?.toList ++ expr.children.flatMap anchors := by
  rw [anchors, nodes_eq, List.filterMap_cons, List.filterMap_flatMap]
  cases expr.anchor? <;> rfl

/-- An expression is closed if it has no anchor. -/
theorem isClosed_iff_anchors {expr : Expr} :
    expr.isClosed isEvaluable = true ↔ expr.anchors = [] := by
  induction expr using induction_children with | node expr ih =>
  rw [isClosed_iff, isEvaluable_iff, anchors_eq, List.append_eq_nil_iff, Option.toList_eq_nil_iff,
    List.flatMap_eq_nil_iff]
  exact and_congr_right fun _ => forall₂_congr ih

theorem anchors_mapChildren {f : Expr → Expr} {expr : Expr}
    (h : ∀ child ∈ expr.children, (f child).anchors = child.anchors) :
    (expr.mapChildren f).anchors = expr.anchors := by
  have hself : (expr.mapChildren f).anchor? = expr.anchor? := by cases expr <;> rfl
  rw [anchors_eq, anchors_eq expr, hself, children_mapChildren, List.flatMap_map, List.flatMap_def,
    List.flatMap_def, List.map_congr_left h]

/-- Folding keeps the anchors, in order. -/
theorem anchors_fold {expr folded : Expr} (h : expr.fold = .ok folded) :
    folded.anchors = expr.anchors := by
  induction expr using induction_children generalizing folded with | node expr ih =>
  cases hc : expr.isClosed isEvaluable with
  | true =>
    rw [fold_of_isClosed hc] at h
    obtain ⟨value, rfl, -⟩ := toConstant_ok h
    exact (isClosed_iff_anchors.1 hc).symm
  | false =>
    rw [fold_of_not_isClosed hc] at h
    obtain ⟨rfl, hall⟩ := mapChildrenM_ok h
    exact anchors_mapChildren fun child hm => ih child hm (hall child hm)

theorem isReduced_constant (value : Value) : (constant value).IsReduced := by
  intro node hm
  rw [nodes, List.mem_singleton] at hm
  exact .inl ⟨value, hm⟩

theorem isReduced_fold {expr folded : Expr} (h : expr.fold = .ok folded) : folded.IsReduced := by
  induction expr using induction_children generalizing folded with | node expr ih =>
  have hanchors := anchors_fold h
  cases hc : expr.isClosed isEvaluable with
  | true =>
    rw [fold_of_isClosed hc] at h
    obtain ⟨value, rfl, -⟩ := toConstant_ok h
    exact isReduced_constant value
  | false =>
    rw [fold_of_not_isClosed hc] at h
    obtain ⟨rfl, hall⟩ := mapChildrenM_ok h
    have hne : expr.anchors ≠ [] := by
      rw [ne_eq, ← isClosed_iff_anchors, hc]
      decide
    refine forall_nodes.2 ⟨.inr (hanchors ▸ hne), fun child hm => ?_⟩
    rw [children_mapChildren] at hm
    obtain ⟨original, ho, rfl⟩ := List.mem_map.1 hm
    exact ih original ho (hall original ho)

/-- Folding changes nothing where there is nothing to fold. -/
theorem fold_of_isReduced {expr : Expr} (h : expr.IsReduced) : expr.fold = .ok expr := by
  induction expr using induction_children with | node expr ih =>
  obtain ⟨hself, hchildren⟩ := forall_nodes.1 h
  cases hc : expr.isClosed isEvaluable with
  | true =>
    rw [fold_of_isClosed hc]
    obtain ⟨value, rfl⟩ | hne := hself
    · rfl
    · exact absurd (isClosed_iff_anchors.1 hc) hne
  | false =>
    rw [fold_of_not_isClosed hc]
    have hm : expr.mapChildrenM fold = .ok (expr.mapChildren fun child => child) :=
      mapChildrenM_reaches (.except EvalError) fun child hm => ih child hm (hchildren child hm)
    rw [hm, mapChildren_id]

/-- Folding reaches a normal form: it fails for no node that has no value, leaves constants and what
stands above anchors, keeps the anchors in order, and changes nothing when it is done again. -/
theorem fold_normal (expr : Expr) :
    (∀ node, expr.fold ≠ .error (.notEvaluable node)) ∧
      ∀ folded, expr.fold = .ok folded →
        (∀ node ∈ folded.nodes, (∃ value, node = constant value) ∨ node.anchors ≠ []) ∧
          folded.anchors = expr.anchors ∧ folded.fold = .ok folded := by
  refine ⟨isLocal_fold expr, fun folded h => ⟨isReduced_fold h, anchors_fold h, ?_⟩⟩
  exact fold_of_isReduced (isReduced_fold h)

/-- The products whose stock is above a limit. -/
def stocked (limit : Expr) : Expr :=
  .call "Where"
    [.root ⟨"Products", .entity "Product", .entitySet⟩,
      .lambda [⟨"p", .entity "Product"⟩] (stockAbove limit)]
    (.collection (.entity "Product"))

theorem fold_normal_stocked :
    let sum := binary .add (constant (.int32 10)) (constant (.int32 5))
    let folded := stocked (constant (.int32 15))
    (stocked sum).fold = .ok folded ∧
      (∀ node ∈ folded.nodes, (∃ value, node = constant value) ∨ node.anchors ≠ []) ∧
      folded.anchors = (stocked sum).anchors ∧ folded.fold = .ok folded :=
  ⟨rfl, (fold_normal _).2 _ rfl⟩

end Expr

end ServiceQuery
