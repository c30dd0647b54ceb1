import ServiceQuery.Grouping
import ServiceQuery.Proofs.Input

/-!
# What the selectors of a grouping add

The selectors of a grouping are bound one after the other, and each adds to what the ones before it
have left. A fact about the outcome is shown to be kept by each addition.
-/

namespace ServiceQuery

/-- The bound expressions of a grouping. -/
def Apply.exprs (apply : Apply) : List Expr :=
  apply.predicates ++ apply.grouping ++ apply.keys.map Prod.snd ++ apply.members.map Prod.snd ++
    apply.aggregations.filterMap Aggregation.expr

/-- The expressions of the grouping refer to no resource but the one with the given number. -/
def Apply.ReadsOnly (id : ResourceId) (apply : Apply) : Prop :=
  ∀ expr ∈ apply.exprs, expr.ReadsOnly id

namespace Apply.ReadsOnly

variable {id : ResourceId} {apply : Apply} {bound : Expr}

theorem of_added {other : Apply} (h : apply.ReadsOnly id) (hb : bound.ReadsOnly id)
    (ho : ∀ expr ∈ other.exprs, expr ∈ apply.exprs ∨ expr = bound) : other.ReadsOnly id := by
  intro expr hm
  obtain hm | rfl := ho expr hm
  · exact h expr hm
  · exact hb

theorem addKey (h : apply.ReadsOnly id) (name : String) (hb : bound.ReadsOnly id) :
    (apply.addKey name bound).ReadsOnly id :=
  h.of_added hb (by grind [exprs, Apply.addKey])

theorem addGrouping (h : apply.ReadsOnly id) (hb : bound.ReadsOnly id) :
    (apply.addGrouping bound).ReadsOnly id := by
  rw [Apply.addGrouping]
  split
  · exact h
  · exact h.of_added hb (by grind [exprs])

theorem addMember (h : apply.ReadsOnly id) (name : String) (hb : bound.ReadsOnly id) :
    (apply.addMember name bound).ReadsOnly id :=
  h.of_added hb (by grind [exprs, Apply.addMember])

theorem addAggregation (h : apply.ReadsOnly id) {aggregation : Aggregation}
    (hb : ∀ expr ∈ aggregation.expr, expr.ReadsOnly id) :
    (apply.addAggregation aggregation).ReadsOnly id := by
  intro expr hm
  simp only [exprs, Apply.addAggregation, List.filterMap_append, List.mem_append] at hm
  obtain hm | hm | hm := hm
  · exact h expr (List.mem_append_left _ (by simpa only [List.mem_append] using hm))
  · exact h expr (List.mem_append_right _ hm)
  · obtain ⟨added, ha, he⟩ := List.mem_filterMap.1 hm
    rw [List.mem_singleton.1 ha] at he
    exact hb expr he

/-- The expression of a member, which stands in for it, is one of the grouping. -/
theorem member? (h : apply.ReadsOnly id) {name : String} (hm : apply.member? name = some bound) :
    bound.ReadsOnly id := by
  obtain ⟨before, after, he, -⟩ := List.lookup_eq_some_iff.1 hm
  refine h bound (List.mem_append_left _ (List.mem_append_right _ ?_))
  exact List.mem_map.2 ⟨(name, bound), by rw [he]; simp, rfl⟩

end Apply.ReadsOnly

namespace Grouping

/-- Steps that keep a property of what has been added, whether they succeed or fail. -/
def Preserves {α : Type} (P : Apply → Prop) (steps : ApplyM α) : Prop :=
  ∀ apply : Apply, P apply → P (steps.run.run apply).2

namespace Preserves

variable {α β : Type} {P : Apply → Prop}

theorem pure (a : α) : Preserves P (pure a) := fun _ h => h

theorem modify {f : Apply → Apply} (h : ∀ apply, P apply → P (f apply)) :
    Preserves P (modify f : ApplyM Unit) := h

theorem bind {x : ApplyM α} {f : α → ApplyM β} (hx : Preserves P x)
    (hf : ∀ a, Preserves P (f a)) : Preserves P (x >>= f) := by
  intro apply h
  have h := hx apply h
  rw [ExceptT.run_bind, StateT.run_bind]
  cases hr : x.run.run apply with
  | mk outcome added =>
    rw [hr] at h
    cases outcome with
    | ok a => exact hf a added h
    | error e => exact h

/-- What follows a step that adds nothing may use what the step has given. -/
theorem bind_lift {x : Except CompileError α} {f : α → ApplyM β}
    (hf : ∀ a, x = .ok a → Preserves P (f a)) : Preserves P (liftM x >>= f) := by
  intro apply h
  cases x with
  | ok a => exact hf a rfl apply h
  | error e => exact h

/-- What has been added has the property whenever it is read. -/
theorem bind_get {f : Apply → ApplyM β} (hf : ∀ apply, P apply → Preserves P (f apply)) :
    Preserves P (get >>= f) :=
  fun apply h => hf apply h apply h

theorem forM {f : α → ApplyM Unit} {as : List α} (hf : ∀ a ∈ as, Preserves P (f a)) :
    Preserves P (as.forM f) := by
  induction as with
  | nil => exact .pure ()
  | cons a as ih =>
    refine .bind (hf a List.mem_cons_self) fun _ => ?_
    exact ih fun b hb => hf b (List.mem_cons_of_mem _ hb)

end Preserves

variable {chain : Chain} {bound : Expr} {name : String}

theorem readsOnly_of_readsOnlyLeaf {expr : Expr} (hi : expr.inputs = [])
    (h : chain.readsOnlyLeaf name expr = true) :
    (chain.bindInput name expr).ReadsOnly chain.leaf.id := by
  intro ref hm
  obtain ht | hm := Chain.mem_inputs_bindInput hm
  · rw [eq_of_beq h] at ht
    exact List.mem_singleton.1 ht
  · rw [hi] at hm
    cases hm

theorem readsOnly_boundToLeaf {expr : Expr} (hi : expr.inputs = [])
    (h : boundToLeaf chain name expr = .ok bound) : bound.ReadsOnly chain.leaf.id := by
  rw [boundToLeaf] at h
  split at h
  · next hr =>
    obtain rfl := Except.ok.inj h
    exact readsOnly_of_readsOnlyLeaf hi hr
  · cases h

theorem readsOnly_keyExpr {expr : Expr} (hi : expr.inputs = [])
    (h : keyExpr chain name expr = .ok bound) : bound.ReadsOnly chain.leaf.id := by
  rw [keyExpr] at h
  split at h
  · split at h
    · cases h
    · exact readsOnly_boundToLeaf hi h
  · cases h

theorem readsOnly_memberExpr {expr : Expr} (hi : expr.inputs = [])
    (h : memberExpr chain name expr = .ok bound) : bound.ReadsOnly chain.leaf.id := by
  rw [memberExpr] at h
  split at h
  · exact readsOnly_boundToLeaf hi h
  · cases h

/-- A construction has no references if its members have none. -/
theorem inputs_members? {expr : Expr} (hi : expr.inputs = []) {members : List (String × Expr)}
    (h : expr.members? = some members) : ∀ member ∈ members, member.2.inputs = [] := by
  intro member hm
  have hc : member.2 ∈ expr.children := by
    cases expr with
    | newRecord ty fields | newObject ty fields =>
      obtain rfl := Option.some.inj h
      exact List.mem_map_of_mem hm
    | _ => cases h
  exact Expr.inputs_eq_nil hc hi

theorem preserves_readsOnly_addKeys (chain : Chain) {selector : Lambda}
    (hi : selector.body.inputs = []) :
    Preserves (Apply.ReadsOnly chain.leaf.id) (addKeys chain selector) := by
  refine .bind_lift fun param _ => ?_
  split
  · next members hmembers =>
    refine .forM fun member hm => .bind_lift fun bound hb => ?_
    have hread := readsOnly_keyExpr (inputs_members? hi hmembers member hm) hb
    exact .modify fun apply h => (h.addKey member.1 hread).addGrouping hread
  · refine .bind_lift fun bound hb => ?_
    exact .modify fun apply h => h.addGrouping (readsOnly_keyExpr hi hb)

theorem preserves_readsOnly_addMembers (chain : Chain) {selector : Lambda}
    (hi : selector.body.inputs = []) :
    Preserves (Apply.ReadsOnly chain.leaf.id) (addMembers chain selector) := by
  refine .bind_lift fun param _ => .forM fun member hm => .bind_lift fun bound hb => ?_
  have hmember : member.2.inputs = [] := by
    cases hmembers : selector.body.members? with
    | some members =>
      rw [hmembers] at hm
      exact inputs_members? hi hmembers member hm
    | none =>
      rw [hmembers] at hm
      obtain rfl := List.mem_singleton.1 hm
      exact hi
  exact .modify fun apply h => h.addMember member.1 (readsOnly_memberExpr hmember hb)

/-- Calls over the group are parts of the result selector. -/
theorem inputs_groupCalls {group : String} {expr call : Expr} (h : call ∈ groupCalls group expr) :
    call.inputs ⊆ expr.inputs := by
  induction expr using Expr.induction_children with | node expr ih =>
  rw [groupCalls, Expr.gather_eq] at h
  have descend (hm : call ∈ expr.children.flatMap (groupCalls group)) :
      call.inputs ⊆ expr.inputs := by
    obtain ⟨child, hc, hm⟩ := List.mem_flatMap.1 hm
    exact List.Subset.trans (ih child hc hm) (Expr.inputs_subset hc)
  split at h
  · split at h
    · rw [List.mem_singleton.1 h]
      exact fun _ hm => hm
    · exact descend h
  · split at h
    · cases h
    · exact descend h
  · exact descend h

theorem readsOnly_overLeaf? {expr : Expr} (hi : expr.inputs = [])
    (h : overLeaf? chain name expr = some bound) : bound.ReadsOnly chain.leaf.id := by
  simp only [overLeaf?] at h
  split at h
  · next hr =>
    obtain rfl := Option.some.inj h
    exact readsOnly_of_readsOnlyLeaf hi (Bool.and_eq_true_iff.1 hr).1
  · cases h

theorem readsOnly_overMembers? {id : ResourceId} {apply : Apply} (ha : apply.ReadsOnly id)
    {expr : Expr} (hi : expr.inputs = []) (h : overMembers? apply name expr = some bound) :
    bound.ReadsOnly id := by
  refine Expr.forall_inputs_replaceM ?_ (Expr.readsOnly_of_nil hi id) h
  intro node result hn
  split at hn
  · split at hn
    · exact ha.member? (Option.some.inj hn)
    · cases Option.some.inj hn
  · split at hn
    · exact ha.member? (Option.some.inj hn)
    · cases hn
  · cases hn

theorem readsOnly_ofSelector {apply : Apply} (ha : apply.ReadsOnly chain.leaf.id)
    {method : AggregationMethod} {selector : Lambda} (hi : selector.body.inputs = [])
    {aggregation : Aggregation}
    (h : ofSelector chain apply method selector name = .ok (some aggregation)) :
    ∀ expr ∈ aggregation.expr, expr.ReadsOnly chain.leaf.id := by
  simp only [ofSelector] at h
  split at h
  · cases h
  · split at h
    · cases h
    · obtain ⟨bound, hb, rfl⟩ := Option.map_eq_some_iff.1 (Except.ok.inj h)
      intro expr he
      obtain rfl := Option.some.inj he
      split at hb
      · exact readsOnly_overLeaf? hi hb
      · exact readsOnly_overMembers? ha hi hb

theorem readsOnly_aggregationOf {apply : Apply} (ha : apply.ReadsOnly chain.leaf.id) {call : Expr}
    (hi : call.inputs = []) {name : Option String} {aggregation : Aggregation}
    (h : aggregationOf chain apply call name = .ok (some aggregation)) :
    ∀ expr ∈ aggregation.expr, expr.ReadsOnly chain.leaf.id := by
  unfold aggregationOf at h
  split at h
  · next method args ty =>
    split at h
    · cases h
    · split at h
      · split at h
        · next first params body =>
          have hlambda : (Expr.lambda params body).inputs = [] :=
            Expr.inputs_eq_nil (List.mem_cons_of_mem first List.mem_cons_self) hi
          refine readsOnly_ofSelector ha ?_ h
          exact Expr.inputs_eq_nil List.mem_cons_self hlambda
        · cases h
      · split at h
        · obtain rfl := Option.some.inj (Except.ok.inj h)
          intro expr he
          cases he
        · cases h
  · cases h

theorem preserves_readsOnly_addResult (chain : Chain) {result : Lambda}
    (hi : result.body.inputs = []) (group : String) :
    Preserves (Apply.ReadsOnly chain.leaf.id) (addResult chain result group) := by
  refine .bind_get fun _ _ => .bind_lift fun _ _ => ?_
  refine .bind (.forM fun call hc => .bind_get fun apply ha => .bind_lift fun found hf => ?_) ?_
  · cases found with
    | none => exact .pure ()
    | some aggregation =>
      have hcall : call.inputs = [] := List.eq_nil_of_subset_nil (hi ▸ inputs_groupCalls hc)
      have hread := readsOnly_aggregationOf ha hcall hf
      exact .modify fun apply h => h.addAggregation hread
  · intro _
    exact .modify fun apply h => h

theorem readsOnly_terminal {method : String} {selector : Lambda}
    (hi : selector.body.inputs = []) {aggregation : Aggregation}
    (h : terminal chain method (some selector) = .ok (some aggregation)) :
    ∀ expr ∈ aggregation.expr, expr.ReadsOnly chain.leaf.id := by
  unfold terminal at h
  split at h
  · cases h
  · split at h
    · next hs _ => cases hs
    · next f hs _ =>
      obtain rfl := Option.some.inj hs
      exact readsOnly_ofSelector (by simp [Apply.ReadsOnly, Apply.exprs]) hi h
    · cases h

end Grouping

end ServiceQuery
