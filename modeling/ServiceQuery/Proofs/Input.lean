import ServiceQuery.Proofs.Traverse
import ServiceQuery.Resource.Input

/-!
# References in expressions

Binding the body of a lambda adds no references to elements of resources but those that it is
checked for, and references follow a resource to another number.
-/

namespace ServiceQuery

namespace Expr

/-- The references of an expression to elements of resources, from left to right. -/
def inputs (expr : Expr) : List InputRef :=
  expr.gather fun
    | input ref => some [ref]
    | _ => none

/-- The expression refers to no resource but the one with the given number. -/
def ReadsOnly (id : ResourceId) (expr : Expr) : Prop := ∀ ref ∈ expr.inputs, ref.target = id

/-- A reference stands at the node itself or in one of its subexpressions. -/
theorem mem_inputs {expr : Expr} {ref : InputRef} :
    ref ∈ expr.inputs ↔ expr = input ref ∨ ∃ child ∈ expr.children, ref ∈ child.inputs := by
  rw [inputs, gather_eq]
  cases expr with
  | input other => simp [children, eq_comm]
  | _ => simp [inputs, List.mem_flatMap]

theorem inputs_subset {child expr : Expr} (h : child ∈ expr.children) :
    child.inputs ⊆ expr.inputs :=
  fun _ hm => mem_inputs.2 (.inr ⟨child, h, hm⟩)

theorem inputs_eq_nil {child expr : Expr} (h : child ∈ expr.children) (he : expr.inputs = []) :
    child.inputs = [] :=
  List.eq_nil_of_subset_nil (he ▸ inputs_subset h)

theorem inputs_arg {method : String} {args : List Expr} {ty : Ty} {arg : Expr}
    (he : (call method args ty).inputs = []) (h : arg ∈ args) : arg.inputs = [] := by
  have hc : arg ∈ (call method args ty).children := h
  exact inputs_eq_nil hc he

/-- An expression without references reads no resource at all. -/
theorem readsOnly_of_nil {expr : Expr} (h : expr.inputs = []) (id : ResourceId) :
    expr.ReadsOnly id := by
  simp [ReadsOnly, h]

/-- The references of a node with other subexpressions. -/
theorem mem_inputs_mapChildren {f : Expr → Expr} {expr : Expr} {ref : InputRef} :
    ref ∈ (expr.mapChildren f).inputs ↔
      expr = input ref ∨ ∃ child ∈ expr.children, ref ∈ (f child).inputs := by
  have hself : expr.mapChildren f = input ref ↔ expr = input ref := by
    cases expr <;> simp [mapChildren]
  rw [mem_inputs, hself, children_mapChildren]
  refine or_congr_right ⟨?_, ?_⟩
  · rintro ⟨_, hm, href⟩
    obtain ⟨child, hc, rfl⟩ := List.mem_map.1 hm
    exact ⟨child, hc, href⟩
  · rintro ⟨child, hc, href⟩
    exact ⟨f child, List.mem_map_of_mem hc, href⟩

section Forall

variable {P Q : InputRef → Prop}

/-- References after a replacement, if those of a replaced node are known. -/
theorem forall_inputs_replace {r : Expr → Option Expr}
    (hr : ∀ node result, r node = some result → (∀ ref ∈ node.inputs, Q ref) →
      ∀ ref ∈ result.inputs, P ref)
    (hnone : ∀ ref, r (input ref) = none → Q ref → P ref) {expr : Expr}
    (h : ∀ ref ∈ expr.inputs, Q ref) : ∀ ref ∈ (expr.replace r).inputs, P ref := by
  induction expr using induction_children with | node expr ih =>
  rw [replace_eq]
  cases hn : r expr with
  | some result => exact hr expr result hn h
  | none =>
    intro ref hm
    obtain rfl | ⟨child, hc, hm⟩ := mem_inputs_mapChildren.1 hm
    · exact hnone ref hn (h ref (mem_inputs.2 (.inl rfl)))
    · exact ih child hc (fun other ho => h other (inputs_subset hc ho)) ref hm

/-- The same for a replacement that may fail. -/
theorem forall_inputs_replaceM {r : Expr → Option (Option Expr)}
    (hr : ∀ node result, r node = some (some result) → ∀ ref ∈ result.inputs, P ref)
    {expr result : Expr} (h : ∀ ref ∈ expr.inputs, P ref)
    (hresult : expr.replaceM r = some result) : ∀ ref ∈ result.inputs, P ref := by
  induction expr using induction_children generalizing result with | node expr ih =>
  cases hn : r expr with
  | some outcome =>
    rw [replaceM_of_some r hn] at hresult
    exact hr expr result (hn.trans (congrArg some hresult))
  | none =>
    rw [replaceM_of_none r hn] at hresult
    obtain ⟨g, rfl, hg⟩ := mapChildrenM_gives .option hresult
    intro ref hm
    obtain rfl | ⟨child, hc, hm⟩ := mem_inputs_mapChildren.1 hm
    · exact h ref (mem_inputs.2 (.inl rfl))
    · exact ih child hc (fun other ho => h other (inputs_subset hc ho)) (hg child hc) ref hm

end Forall

/-- References follow a resource to another number. -/
theorem ReadsOnly.retarget {old : ResourceId} {expr : Expr} (h : expr.ReadsOnly old)
    (new : ResourceId) : (expr.retarget old new).ReadsOnly new := by
  refine forall_inputs_replace ?_ ?_ h
  · intro node result hn hold ref hm
    cases node with
    | input other =>
      dsimp only at hn
      split at hn
      · obtain rfl := Option.some.inj hn
        obtain he | ⟨child, hc, -⟩ := mem_inputs.1 hm
        · cases he
          rfl
        · cases hc
      · cases hn
    | _ => cases hn
  · intro ref hn hold
    simp [hold] at hn

end Expr

namespace Chain

variable {chain : Chain} {name : String}

/-- A reference of a bound body is to a resource that it is known to read, or was there before. -/
theorem mem_inputs_bindInput {expr : Expr} {ref : InputRef}
    (h : ref ∈ (chain.bindInput name expr).inputs) :
    ref.target ∈ chain.referenced name expr ∨ ref ∈ expr.inputs := by
  induction expr using Expr.induction_children with | node expr ih =>
  have descend (hc : ∃ child ∈ expr.children, ref ∈ (chain.bindInput name child).inputs) :
      (∃ child ∈ expr.children, ref.target ∈ chain.referenced name child) ∨
        ref ∈ expr.inputs := by
    obtain ⟨child, hc, hm⟩ := hc
    exact (ih child hc hm).imp (fun ht => ⟨child, hc, ht⟩) fun hi => Expr.inputs_subset hc hi
  rw [referenced, List.mem_eraseDups, Expr.gather_eq]
  rw [bindInput, Expr.replace_eq] at h
  cases hr : chain.resolve? name expr with
  | some resource =>
    simp only [hr, Option.getD_some] at h ⊢
    obtain he | ⟨child, hc, -⟩ := Expr.mem_inputs.1 h
    · cases he
      exact .inl List.mem_cons_self
    · cases hc
  | none =>
    simp only [hr] at h ⊢
    cases expr with
    | input other =>
      -- the node stays as it is
      exact .inr h
    | lambda params body =>
      by_cases hd : Param.declares params name = true
      · simp only [hd, if_true, Option.getD_some] at h
        exact .inr h
      · simp only [hd, Bool.false_eq_true, if_false, Option.getD_none] at h ⊢
        obtain he | hc := Expr.mem_inputs_mapChildren.1 h
        · cases he
        · exact (descend hc).imp_left fun ⟨child, hc, ht⟩ =>
          List.mem_flatMap.2 ⟨child, hc, List.mem_eraseDups.1 ht⟩
    | _ =>
      simp only [Option.getD_none] at h ⊢
      obtain he | hc := Expr.mem_inputs_mapChildren.1 h
      · cases he
      · exact (descend hc).imp_left fun ⟨child, hc, ht⟩ =>
          List.mem_flatMap.2 ⟨child, hc, List.mem_eraseDups.1 ht⟩

end Chain

end ServiceQuery
