import ServiceQuery.Proofs.Binding.References

/-!
# Selectors of aggregations

Every aggregation but a count is of a value that is selected from each element. The aggregations of
a bound query have a selector exactly where their methods take one, so that all of them can be
written and no selector is left out.
-/

namespace ServiceQuery

/-- The aggregation has a selector if and only if its method takes one. -/
def Aggregation.Selective (aggregation : Aggregation) : Prop :=
  aggregation.expr.isSome = aggregation.method.takesSelector

/-- All aggregations are selective. -/
def Apply.Selective (apply : Apply) : Prop :=
  ∀ aggregation ∈ apply.aggregations, aggregation.Selective

/-- All aggregations of the resource are selective, if it has a grouping. -/
def Resource.Selective (resource : Resource) : Prop := ∀ apply ∈ resource.apply, apply.Selective

namespace Apply.Selective

variable {apply : Apply}

/-- What a grouping holds besides aggregations does not matter. -/
theorem frame {other : Apply} (h : apply.Selective)
    (ha : other.aggregations = apply.aggregations) : other.Selective := by
  rw [Selective, ha]
  exact h

theorem addGrouping (h : apply.Selective) (bound : Expr) : (apply.addGrouping bound).Selective := by
  rw [Apply.addGrouping]
  split
  · exact h
  · exact h.frame rfl

theorem addAggregation (h : apply.Selective) {aggregation : Aggregation}
    (ha : aggregation.Selective) : (apply.addAggregation aggregation).Selective :=
  List.forall_mem_append.2 ⟨h, List.forall_mem_singleton.2 ha⟩

end Apply.Selective

namespace Resource.Selective

variable {resource other : Resource}

theorem of_none (h : resource.apply = none) : resource.Selective := by
  intro apply ha
  rw [h] at ha
  cases ha

theorem frame (h : resource.Selective) (ha : other.apply = resource.apply) : other.Selective := by
  rw [Selective, ha]
  exact h

theorem demoteKey (h : resource.Selective) : resource.demoteKey.Selective := by
  refine h.frame ?_
  rw [Resource.demoteKey]
  split <;> rfl

theorem some {apply : Apply} (h : apply.Selective) :
    { resource with apply := Option.some apply : Resource }.Selective := by
  intro found hf
  cases hf
  exact h

end Resource.Selective

namespace Grouping

variable {chain : Chain} {apply : Apply} {aggregation : Aggregation}

theorem selective_ofSelector {method : AggregationMethod} {selector : Lambda} {name : String}
    (hm : method.takesSelector = true)
    (h : ofSelector chain apply method selector name = .ok (some aggregation)) :
    aggregation.Selective := by
  simp only [ofSelector] at h
  split at h
  · cases h
  · split at h
    · cases h
    · obtain ⟨bound, -, rfl⟩ := Option.map_eq_some_iff.1 (Except.ok.inj h)
      exact hm.symm

theorem selective_aggregationOf {call : Expr} {name : Option String}
    (h : aggregationOf chain apply call name = .ok (some aggregation)) : aggregation.Selective := by
  unfold aggregationOf at h
  split at h
  · split at h
    · cases h
    · next method hmethod =>
      split at h
      · next htakes =>
        split at h
        · exact selective_ofSelector htakes h
        · cases h
      · next htakes =>
        split at h
        · cases h
          exact (Bool.eq_false_iff.2 htakes).symm
        · cases h
  · cases h

theorem selective_terminal {method : String} {selector : Option Lambda}
    (h : terminal chain method selector = .ok (some aggregation)) : aggregation.Selective := by
  unfold terminal at h
  split at h
  · cases h
  · split at h
    · next htakes =>
      cases h
      exact htakes.symm
    · next htakes => exact selective_ofSelector htakes h
    · cases h

theorem preserves_selective_addKeys (chain : Chain) (selector : Lambda) :
    Preserves Apply.Selective (addKeys chain selector) := by
  refine .bind_lift fun param _ => ?_
  split
  · refine .forM fun member _ => .bind_lift fun bound _ => ?_
    refine .modify fun apply h => ?_
    have hkey : (apply.addKey member.1 bound).Selective := h.frame rfl
    exact hkey.addGrouping bound
  · exact .bind_lift fun bound _ => .modify fun apply h => h.addGrouping bound

theorem preserves_selective_addMembers (chain : Chain) (selector : Lambda) :
    Preserves Apply.Selective (addMembers chain selector) := by
  refine .bind_lift fun param _ => .forM fun member _ => .bind_lift fun bound _ => ?_
  exact .modify fun apply h => h.frame rfl

theorem preserves_selective_addResult (chain : Chain) (result : Lambda) (group : String) :
    Preserves Apply.Selective (addResult chain result group) := by
  refine .bind_get fun _ _ => .bind_lift fun _ _ => ?_
  refine .bind (.forM fun call _ => .bind_get fun apply _ => .bind_lift fun found hf => ?_) ?_
  · cases found with
    | none => exact .pure ()
    | some aggregation => exact .modify fun apply h => h.addAggregation (selective_aggregationOf hf)
  · intro _
    exact .modify fun apply h => h.frame rfl

end Grouping

namespace Binding

variable {metadata : Metadata} {chain chain' : Chain} {n m : ResourceId}

theorem preserves_selective_addGroups (chain : Chain) (key : Lambda)
    (element result : Option Lambda) :
    Grouping.Preserves Apply.Selective (addGroups chain key element result) := by
  refine .bind (Grouping.preserves_selective_addKeys chain key) fun _ => ?_
  refine .bind ?_ fun _ => ?_
  · cases element with
    | some f => exact Grouping.preserves_selective_addMembers chain f
    | none => exact .pure ()
  · cases result with
    | some f =>
      exact .bind_lift fun group _ => Grouping.preserves_selective_addResult chain f group.name
    | none => exact .pure ()

theorem selective_where {predicate : Expr} (hs : chain.leaf.Selective)
    (h : (bindWhere metadata chain predicate).run n = .ok (chain', m)) : chain'.leaf.Selective := by
  obtain ⟨-, bound, -, ⟨key, hk, rfl, -⟩ | ⟨-, rfl, -⟩⟩ := bindWhere_ok.1 h
  · obtain ⟨hsequence, -, hnone⟩ := keyIn_some hk
    refine .of_none ?_
    rw [Chain.mapLeaf, Resource.renumber_withKeyFilter hsequence hnone]
    exact hnone
  · exact hs.demoteKey.frame rfl

/-- A navigation leads to a resource without a grouping. -/
theorem selective_navigate {method : String} {properties : List PropertyDef}
    (hs : chain.leaf.Selective) (h : (navigate method chain properties).run n = .ok (chain', m)) :
    chain'.leaf.Selective := by
  obtain ⟨-, -, hf⟩ := navigate_ok h
  obtain ⟨-, rfl⟩ | ⟨-, id, name, ty, collection, hleaf⟩ := followed_leaf hf
  · exact hs
  · exact .of_none (by rw [hleaf]; rfl)

theorem selective_select {selector : Expr} (hs : chain.leaf.Selective)
    (h : (bindSelect metadata chain selector).run n = .ok (chain', m)) :
    chain'.leaf.Selective := by
  obtain ⟨apply, f, group, -, ha, hr, -⟩ | ⟨rfl, -⟩ | ⟨properties, -, h⟩ | ⟨f, -, hp, -⟩ :=
    bindSelect_ok h
  · obtain rfl := withResult_ok hr
    exact .some (Grouping.preserves_selective_addResult chain f group.name apply (hs apply ha))
  · exact hs
  · exact selective_navigate hs h
  · obtain ⟨projection, expand, rfl⟩ := project_ok hp
    obtain ⟨paths, he⟩ :=
      Resource.foldl_addExpand expand { chain.leaf with projection := some projection }
    exact hs.frame (by rw [Chain.mapLeaf, he])

/-- One operator keeps aggregations selective. -/
theorem step_selective {operator : Operator} (hs : chain.leaf.Selective)
    (h : (step metadata chain operator).run n = .ok (chain', m)) : chain'.leaf.Selective := by
  cases operator with
  | filter predicate => exact selective_where hs h
  | orderBy key descending =>
    obtain ⟨-, bound, -, rfl, -⟩ := bindOrderBy_ok.1 h
    exact hs.demoteKey.frame rfl
  | thenBy key descending =>
    obtain ⟨-, bound, selectors, -, -, rfl, -⟩ := bindThenBy_ok.1 h
    exact hs.demoteKey.frame rfl
  | skip count =>
    obtain ⟨-, k, -, rfl, -⟩ := bindSkip_ok.1 h
    exact hs.demoteKey.frame rfl
  | take count =>
    obtain ⟨-, k, -, rfl, -⟩ := bindTake_ok.1 h
    exact hs.demoteKey.frame rfl
  | select selector => exact selective_select hs h
  | selectMany selector result =>
    obtain ⟨properties, target, -, ht, scope, -, rfl⟩ := bindSelectMany_ok h
    exact (selective_navigate hs ht).frame rfl
  | groupBy selectors =>
    obtain ⟨-, key, element, result, -, rfl, -⟩ := bindGroupBy_ok h
    -- the grouping starts without aggregations
    exact .some (preserves_selective_addGroups _ key element result _ (List.forall_mem_nil _))
  | expand path =>
    simp only [step, BindM.run_bind, BindM.run_lift, BindM.run_pure] at h
    obtain ⟨text, _, ⟨-, rfl⟩, rfl, rfl⟩ := h
    obtain ⟨paths, he⟩ := Resource.foldl_addExpand [text] chain.leaf
    rw [List.foldl_cons, List.foldl_nil] at he
    exact hs.frame (by rw [Chain.mapLeaf, he])
  | addOption name value =>
    obtain ⟨name, text, rfl, -⟩ := bindOption_ok h
    exact hs.frame rfl
  | includeCount flag =>
    obtain ⟨-, count, -, rfl, -⟩ := bindIncludeCount_ok h
    exact hs.demoteKey.frame rfl

theorem bind_selective {expr : Expr} (h : (bind metadata expr).run n = .ok (chain, m)) :
    chain.leaf.Selective := by
  refine bind_induction (motive := fun _ chain _ => chain.leaf.Selective) ?_ ?_ h
  · exact fun origin => .of_none rfl
  · intro method source args ty chain operator chain' k m _ _ _ hstep ih
    exact step_selective ih hstep

theorem bindQuery_selective {expr : Expr} {query : BoundQuery}
    (h : (bindQuery metadata expr).run n = .ok (query, m)) : query.chain.leaf.Selective := by
  obtain ⟨chain, hc, rfl⟩ | ⟨method, args, ty, rfl, ⟨-, h⟩ | ⟨limit, -, h⟩ | ⟨-, h⟩⟩ :=
    bindQuery_ok h
  · exact bind_selective hc
  · obtain ⟨source, chain, k, target, hs, htarget, -, rfl⟩ := bindCount_ok.1 h
    have hchain := bind_selective hs
    obtain ⟨-, rfl, -⟩ | ⟨predicate, -, hf⟩ := htarget
    · exact hchain.demoteKey.frame rfl
    · obtain ⟨-, bound, -, rfl, -⟩ := bindFilter_ok.1 hf
      exact hchain.demoteKey.frame rfl
  · obtain ⟨source, chain, k, target, hs, htarget, rfl⟩ := bindElement_ok.1 h
    have ht : target.leaf.Selective := by
      obtain ⟨-, rfl, -⟩ | ⟨predicate, -, hw⟩ := htarget
      · exact bind_selective hs
      · exact selective_where (bind_selective hs) hw
    dsimp only [finish]
    split
    · exact ht
    · exact ht.frame rfl
  · obtain ⟨source, selector, chain, k, -, -, -, f, aggregation, -, hagg, hq⟩ := bindAggregate_ok h
    rw [hq]
    exact .some (List.forall_mem_singleton.2 (Grouping.selective_terminal hagg))

end Binding

end ServiceQuery
