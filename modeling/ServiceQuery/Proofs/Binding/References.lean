import ServiceQuery.Proofs.Binding.Moves

/-!
# References of a bound query

The bound expressions of a resource read its own element. Numbers of resources rise along a chain,
and a scope that reaches out refers to a resource before its own. A key gives the leaf another
number, and what the leaf holds about its element follows.
-/

namespace ServiceQuery

/-- The bound expressions of a sequence option. -/
def SequenceOption.exprs : SequenceOption → List Expr
  | filter predicates => predicates
  | orderBy selectors => selectors.map OrderSelector.expr
  | skip _ | take _ => []

/-- The bound expressions of a resource: the predicate of its key, those of its options and those of
its grouping. -/
def Resource.boundExprs (resource : Resource) : List Expr :=
  resource.keyFilter.toList ++ resource.sequence.flatMap SequenceOption.exprs ++
    resource.apply.toList.flatMap Apply.exprs

/-- The bound expressions of a resource refer to the resource and to no other one. -/
structure Resource.Owned (resource : Resource) : Prop where
  key : ∀ expr ∈ resource.keyFilter, expr.ReadsOnly resource.id
  sequence : ∀ expr ∈ resource.sequence.flatMap SequenceOption.exprs, expr.ReadsOnly resource.id
  apply : ∀ apply ∈ resource.apply, apply.ReadsOnly resource.id

/-- The bound expressions of each resource of the chain refer to that resource. -/
structure Chain.Owned (chain : Chain) : Prop where
  leaf : chain.leaf.Owned
  ancestors : ∀ resource ∈ chain.ancestors, resource.Owned

/-- An added option brings its own expressions and no others. -/
theorem SequenceOption.exprs_insert (option : SequenceOption) (options : List SequenceOption) :
    (option.insert options).flatMap exprs ⊆ options.flatMap exprs ++ option.exprs := by
  induction options with
  | nil => simp [insert]
  | cons existing rest ih =>
    intro expr hm
    rw [insert] at hm
    split at hm
    · rw [List.flatMap_cons, List.mem_append] at hm
      obtain hm | hm := hm
      · -- only filters are joined with what is there
        have hm : expr ∈ existing.exprs ∨ expr ∈ option.exprs := by
          cases option <;> cases existing <;> simp_all [compose, exprs]
        simp only [List.flatMap_cons, List.mem_append]
        grind
      · simp [hm]
    · rw [List.flatMap_cons, List.mem_append] at hm
      simp only [List.flatMap_cons, List.mem_append]
      obtain hm | hm := hm
      · exact .inl (.inl hm)
      · have := List.mem_append.1 (ih hm)
        grind

namespace Resource.Owned

variable {resource : Resource}

/-- A resource under the same number with nothing new is owned. -/
theorem frame {other : Resource} (h : resource.Owned) (hid : other.id = resource.id)
    (hk : other.keyFilter = resource.keyFilter) (hs : other.sequence = resource.sequence)
    (ha : other.apply = resource.apply) : other.Owned where
  key := by rw [hid, hk]; exact h.key
  sequence := by rw [hid, hs]; exact h.sequence
  apply := by rw [hid, ha]; exact h.apply

theorem addOption (h : resource.Owned) {option : SequenceOption}
    (ho : ∀ expr ∈ option.exprs, expr.ReadsOnly resource.id) :
    (resource.addOption option).Owned where
  key := h.key
  sequence := by
    intro expr hm
    obtain hm | hm := List.mem_append.1 (SequenceOption.exprs_insert option _ hm)
    · exact h.sequence expr hm
    · exact ho expr hm
  apply := h.apply

theorem demoteKey (h : resource.Owned) : resource.demoteKey.Owned := by
  cases hk : resource.keyFilter with
  | none => rwa [demoteKey_of_none hk]
  | some predicate =>
    have hp : predicate.ReadsOnly resource.id := h.key predicate hk
    have hbare (kind : ResourceKind) : { resource with
        keyFilter := none
        kind := kind : Resource }.Owned := ⟨by simp, h.sequence, h.apply⟩
    rw [Resource.demoteKey, hk]
    refine (hbare _).addOption fun expr hm => ?_
    rwa [List.mem_singleton.1 hm]

/-- A key comes with a fresh number, and its predicate follows. -/
theorem withKeyFilter (hs : resource.sequence = []) (ha : resource.apply = none) {bound : Expr}
    (hb : bound.ReadsOnly resource.id) (key : List (String × Value)) (id : ResourceId) :
    ((resource.withKeyFilter key bound).renumber id).Owned := by
  rw [renumber_withKeyFilter hs ha]
  refine ⟨fun expr hm => ?_, by simp [hs], by simp [ha]⟩
  obtain rfl := Option.some.inj hm
  exact hb.retarget id

/-- The grouping that takes the place of a filter may hold its predicates. -/
theorem grouped (h : resource.Owned) {apply : Apply} (ha : apply.ReadsOnly resource.id) :
    { resource.withoutFilter with apply := some apply }.Owned where
  key := h.key
  sequence := by
    intro expr hm
    obtain ⟨option, ho, hm⟩ := List.mem_flatMap.1 hm
    exact h.sequence expr (List.mem_flatMap.2 ⟨option, List.mem_of_mem_eraseP ho, hm⟩)
  apply := by
    intro other hm
    obtain rfl := Option.some.inj hm
    exact ha

/-- What a view of the options shows is among their expressions. -/
theorem of_findSome? (h : resource.Owned) {α : Type} {view : SequenceOption → Option α} {shown : α}
    (hv : resource.sequence.findSome? view = some shown) {expr : Expr}
    (he : ∀ option, view option = some shown → expr ∈ option.exprs) :
    expr.ReadsOnly resource.id := by
  obtain ⟨option, hm, ho⟩ := List.exists_of_findSome?_eq_some hv
  exact h.sequence expr (List.mem_flatMap.2 ⟨option, hm, he option ho⟩)

theorem of_filter? (h : resource.Owned) : ∀ expr ∈ resource.filter?.getD [],
    expr.ReadsOnly resource.id := by
  intro expr hm
  cases hf : resource.filter? with
  | none => simp [hf] at hm
  | some predicates =>
    rw [hf] at hm
    refine h.of_findSome? (resource.filter?_eq ▸ hf) fun option ho => ?_
    cases option with
    | filter others =>
      obtain rfl := Option.some.inj ho
      exact hm
    | _ => cases ho

theorem of_orderBy? (h : resource.Owned) {selectors : List OrderSelector}
    (hs : resource.orderBy? = some selectors) :
    ∀ expr ∈ selectors.map OrderSelector.expr, expr.ReadsOnly resource.id := by
  intro expr hm
  refine h.of_findSome? (resource.orderBy?_eq ▸ hs) fun option ho => ?_
  cases option with
  | orderBy others =>
    obtain rfl := Option.some.inj ho
    exact hm
  | _ => cases ho

theorem boundExprs (h : resource.Owned) :
    ∀ expr ∈ resource.boundExprs, expr.ReadsOnly resource.id := by
  intro expr hm
  simp only [Resource.boundExprs, List.mem_append, Option.mem_toList, List.mem_flatMap] at hm
  obtain (hm | hm) | ⟨apply, ha, hm⟩ := hm
  · exact h.key expr hm
  · exact h.sequence expr (List.mem_flatMap.2 hm)
  · exact h.apply apply ha expr hm

end Resource.Owned

namespace Chain.Owned

variable {chain : Chain}

theorem mapLeaf (h : chain.Owned) {f : Resource → Resource} (hf : (f chain.leaf).Owned) :
    (chain.mapLeaf f).Owned :=
  ⟨hf, h.ancestors⟩

theorem demoted (h : chain.Owned) : chain.demoted.Owned := h.mapLeaf h.leaf.demoteKey

theorem push (h : chain.Owned) (id : ResourceId) (name : String) (ty : Ty) (collection : Bool) :
    (chain.push (.ofNavigation id name ty collection)).Owned where
  leaf := ⟨by simp [Chain.push, Resource.ofNavigation], by simp [Chain.push, Resource.ofNavigation],
    by simp [Chain.push, Resource.ofNavigation]⟩
  ancestors := by
    intro resource hm
    obtain rfl | hm := List.mem_cons.1 hm
    · exact h.leaf
    · exact h.ancestors resource hm

theorem addOption (h : chain.Owned) {option : SequenceOption}
    (ho : ∀ expr ∈ option.exprs, expr.ReadsOnly chain.leaf.id) :
    (chain.mapLeaf (·.addOption option)).Owned :=
  h.mapLeaf (h.leaf.addOption ho)

end Chain.Owned

/-- A bound body reads the leaf only. -/
theorem Chain.Binds.readsOnly {chain : Chain} {argument bound : Expr}
    (h : chain.Binds argument bound) (hi : argument.inputs = []) :
    bound.ReadsOnly chain.leaf.id := by
  obtain ⟨param, body, rfl, hr, rfl⟩ := h
  have hbody : body.inputs = [] := Expr.inputs_eq_nil List.mem_cons_self hi
  intro ref hm
  obtain ht | hm := Chain.mem_inputs_bindInput hm
  · exact hr ref.target ht
  · rw [hbody] at hm
    cases hm

namespace Binding

variable {metadata : Metadata} {chain chain' : Chain} {n m : ResourceId}

theorem body_inputs {f : Lambda} (h : f.toExpr.inputs = []) : f.body.inputs = [] :=
  Expr.inputs_eq_nil List.mem_cons_self h

theorem preserves_readsOnly_addGroups (chain : Chain) {key : Lambda} {element result : Option Lambda}
    (hk : key.toExpr.inputs = []) (he : ∀ f ∈ element, f.toExpr.inputs = [])
    (hr : ∀ f ∈ result, f.toExpr.inputs = []) :
    Grouping.Preserves (Apply.ReadsOnly chain.leaf.id) (addGroups chain key element result) := by
  refine .bind (Grouping.preserves_readsOnly_addKeys chain (body_inputs hk)) fun _ => ?_
  refine .bind ?_ fun _ => ?_
  · cases element with
    | some f => exact Grouping.preserves_readsOnly_addMembers chain (body_inputs (he f rfl))
    | none => exact .pure ()
  · cases result with
    | some f =>
      refine .bind_lift fun group _ => ?_
      exact Grouping.preserves_readsOnly_addResult chain (body_inputs (hr f rfl)) group.name
    | none => exact .pure ()

theorem owned_filter {predicate : Expr} (hi : predicate.inputs = []) (ho : chain.Owned)
    (h : (bindFilter chain predicate).run n = .ok (chain', m)) : chain'.Owned := by
  obtain ⟨-, bound, hb, rfl, -⟩ := bindFilter_ok.1 h
  refine ho.demoted.addOption fun expr hm => ?_
  rw [List.mem_singleton.1 hm]
  exact hb.readsOnly hi

theorem owned_where {predicate : Expr} (hi : predicate.inputs = []) (ho : chain.Owned)
    (h : (bindWhere metadata chain predicate).run n = .ok (chain', m)) : chain'.Owned := by
  obtain ⟨-, bound, hb, ⟨key, hk, rfl, -⟩ | ⟨-, rfl, -⟩⟩ := bindWhere_ok.1 h
  · obtain ⟨hs, -, ha⟩ := keyIn_some hk
    exact ho.demoted.mapLeaf (.withKeyFilter hs ha (hb.readsOnly hi) key n)
  · refine ho.demoted.addOption fun expr hm => ?_
    rw [List.mem_singleton.1 hm]
    exact hb.readsOnly hi

theorem owned_navigate {method : String} {properties : List PropertyDef} (ho : chain.Owned)
    (h : (navigate method chain properties).run n = .ok (chain', m)) : chain'.Owned := by
  obtain ⟨-, -, h⟩ := navigate_ok h
  exact followed_induction (motive := fun chain _ => chain.Owned)
    (fun _ k name ty collection h => h.push k name ty collection) ho h

theorem owned_select {selector : Expr} (hi : selector.inputs = []) (ho : chain.Owned)
    (h : (bindSelect metadata chain selector).run n = .ok (chain', m)) : chain'.Owned := by
  obtain ⟨apply, f, group, rfl, ha, hr, -⟩ | ⟨rfl, -⟩ | ⟨properties, -, h⟩ | ⟨f, -, hp, -⟩ :=
    bindSelect_ok h
  · obtain rfl := withResult_ok hr
    have hadded := Grouping.preserves_readsOnly_addResult chain (body_inputs hi) group.name apply
      (ho.leaf.apply apply ha)
    refine ho.mapLeaf ⟨ho.leaf.key, ho.leaf.sequence, fun other hm => ?_⟩
    obtain rfl := Option.some.inj hm
    exact hadded
  · exact ho
  · exact owned_navigate ho h
  · obtain ⟨projection, expand, rfl⟩ := project_ok hp
    obtain ⟨paths, he⟩ :=
      Resource.foldl_addExpand expand { chain.leaf with projection := some projection }
    exact ho.mapLeaf (by rw [he]; exact ho.leaf.frame rfl rfl rfl rfl)

theorem owned_groupBy {selectors : List Expr} (hi : ∀ arg ∈ selectors, arg.inputs = [])
    (ho : chain.Owned) (h : (bindGroupBy chain selectors).run n = .ok (chain', m)) :
    chain'.Owned := by
  obtain ⟨-, key, element, result, ⟨hk, he, hr⟩, rfl, -⟩ := bindGroupBy_ok h
  refine ho.demoted.mapLeaf (ho.demoted.leaf.grouped ?_)
  -- the grouping starts from the predicates of the filter
  refine preserves_readsOnly_addGroups (chain.demoted.mapLeaf Resource.withoutFilter) (hi _ hk)
    (fun f hf => hi _ (he f hf)) (fun f hf => hi _ (hr f hf)) _ ?_
  intro expr hm
  refine ho.demoted.leaf.of_filter? expr ?_
  simpa [Apply.exprs] using hm

/-- One operator whose arguments hold no references keeps those of the chain in order. -/
theorem step_owned {operator : Operator} (hi : ∀ arg ∈ operator.args, arg.inputs = [])
    (ho : chain.Owned) (h : (step metadata chain operator).run n = .ok (chain', m)) :
    chain'.Owned := by
  cases operator with
  | filter predicate => exact owned_where (hi predicate List.mem_cons_self) ho h
  | orderBy key descending =>
    obtain ⟨-, bound, hb, rfl, -⟩ := bindOrderBy_ok.1 h
    refine ho.demoted.addOption fun expr hm => ?_
    obtain rfl : expr = bound := List.mem_singleton.1 hm
    exact hb.readsOnly (hi key List.mem_cons_self)
  | thenBy key descending =>
    obtain ⟨-, bound, selectors, hb, hs, rfl, -⟩ := bindThenBy_ok.1 h
    refine ho.demoted.addOption fun expr hm => ?_
    rw [SequenceOption.exprs, List.map_append, List.mem_append] at hm
    obtain hm | hm := hm
    · exact ho.demoted.leaf.of_orderBy? hs expr hm
    · obtain rfl : expr = bound := List.mem_singleton.1 hm
      exact hb.readsOnly (hi key List.mem_cons_self)
  | skip count =>
    obtain ⟨-, k, -, rfl, -⟩ := bindSkip_ok.1 h
    exact ho.demoted.addOption (by simp [SequenceOption.exprs])
  | take count =>
    obtain ⟨-, k, -, rfl, -⟩ := bindTake_ok.1 h
    exact ho.demoted.addOption (by simp [SequenceOption.exprs])
  | select selector => exact owned_select (hi selector List.mem_cons_self) ho h
  | selectMany selector result =>
    obtain ⟨properties, target, -, ht, scope, -, rfl⟩ := bindSelectMany_ok h
    have htarget := owned_navigate ho ht
    exact htarget.mapLeaf (htarget.leaf.frame rfl rfl rfl rfl)
  | groupBy selectors => exact owned_groupBy hi ho h
  | expand path =>
    simp only [step, BindM.run_bind, BindM.run_lift, BindM.run_pure] at h
    obtain ⟨text, _, ⟨-, rfl⟩, rfl, rfl⟩ := h
    obtain ⟨paths, he⟩ := Resource.foldl_addExpand [text] chain.leaf
    rw [List.foldl_cons, List.foldl_nil] at he
    exact ho.mapLeaf (by rw [he]; exact ho.leaf.frame rfl rfl rfl rfl)
  | addOption name value =>
    obtain ⟨name, text, rfl, -⟩ := bindOption_ok h
    exact ho.mapLeaf (ho.leaf.frame rfl rfl rfl rfl)
  | includeCount flag =>
    obtain ⟨-, count, -, rfl, -⟩ := bindIncludeCount_ok h
    exact ho.demoted.mapLeaf (ho.demoted.leaf.frame rfl rfl rfl rfl)

theorem bind_owned {expr : Expr} (hi : expr.inputs = [])
    (h : (bind metadata expr).run n = .ok (chain, m)) : chain.Owned := by
  refine bind_induction (motive := fun expr chain _ => expr.inputs = [] → chain.Owned) ?_ ?_ h hi
  · intro origin _
    exact ⟨⟨by simp [Resource.ofRoot], by simp [Resource.ofRoot], by simp [Resource.ofRoot]⟩,
      by simp⟩
  · intro method source args ty chain operator chain' k m _ _ hcall hstep ih hi
    refine step_owned (fun arg hm => ?_) (ih (Expr.inputs_arg hi List.mem_cons_self)) hstep
    obtain ⟨-, rfl⟩ := Operator.ofCall?_some hcall
    exact Expr.inputs_arg hi (List.mem_cons_of_mem _ hm)

end Binding

/-- The references of a chain are in order. -/
structure Chain.Sound (chain : Chain) : Prop where
  numbered : ∃ n, chain.Numbered n
  owned : chain.Owned

namespace Chain.Sound

variable {chain : Chain}

theorem mapLeaf (h : chain.Sound) {f : Resource → Resource}
    (hid : (f chain.leaf).id = chain.leaf.id) (hs : (f chain.leaf).scope = chain.leaf.scope)
    (ho : (f chain.leaf).Owned) : (chain.mapLeaf f).Sound where
  numbered := h.numbered.imp fun _ hn => hn.frame hid hs
  owned := h.owned.mapLeaf ho

theorem demoted (h : chain.Sound) : chain.demoted.Sound where
  numbered := h.numbered.imp fun _ hn => hn.demoted
  owned := h.owned.demoted

end Chain.Sound

namespace Binding

variable {metadata : Metadata} {chain : Chain} {n m : ResourceId}

theorem bind_sound {expr : Expr} (hi : expr.inputs = [])
    (h : (bind metadata expr).run n = .ok (chain, m)) : chain.Sound :=
  ⟨⟨m, bind_numbered h⟩, bind_owned hi h⟩

section Terminal

variable {method : String} {args : List Expr} {ty : Ty} {query : BoundQuery}

theorem sound_count (hi : ∀ arg ∈ args, arg.inputs = [])
    (h : (bindCount metadata method args ty).run n = .ok (query, m)) : query.chain.Sound := by
  obtain ⟨source, chain, k, target, hs, htarget, -, rfl⟩ := bindCount_ok.1 h
  have ht : target.Sound := by
    obtain ⟨rfl, rfl, -⟩ | ⟨predicate, rfl, hf⟩ := htarget
    · exact (bind_sound (hi source List.mem_cons_self) hs).demoted
    · have hchain := bind_sound (hi source List.mem_cons_self) hs
      have ho := owned_filter (hi predicate (by simp)) hchain.owned hf
      obtain ⟨-, bound, -, rfl, -⟩ := bindFilter_ok.1 hf
      exact hchain.demoted.mapLeaf rfl rfl ho.leaf
  dsimp only [finish]
  exact ht.mapLeaf rfl rfl (ht.owned.leaf.frame rfl rfl rfl rfl)

theorem sound_element {limit : Nat} (hi : ∀ arg ∈ args, arg.inputs = [])
    (h : (bindElement metadata method limit args).run n = .ok (query, m)) :
    query.chain.Sound := by
  obtain ⟨source, chain, k, target, hs, htarget, rfl⟩ := bindElement_ok.1 h
  have ht : target.Sound := by
    obtain ⟨rfl, rfl, -⟩ | ⟨predicate, rfl, hw⟩ := htarget
    · exact bind_sound (hi source List.mem_cons_self) hs
    · have hchain := bind_sound (hi source List.mem_cons_self) hs
      exact ⟨⟨m, (moves_where hw).numbered (bind_numbered hs)⟩,
        owned_where (hi predicate (by simp)) hchain.owned hw⟩
  dsimp only [finish]
  split
  · exact ht
  · exact ht.mapLeaf rfl rfl (ht.owned.leaf.addOption (by simp [SequenceOption.exprs]))

theorem sound_aggregate (hi : ∀ arg ∈ args, arg.inputs = [])
    (h : (bindAggregate metadata method args ty).run n = .ok (query, m)) :
    query.chain.Sound := by
  obtain ⟨source, selector, chain, k, rfl, hs, -, f, aggregation, rfl, hagg, hq⟩ :=
    bindAggregate_ok h
  have ht := (bind_sound (hi source List.mem_cons_self) hs).demoted
  have hread := Grouping.readsOnly_terminal (body_inputs (hi f.toExpr (by simp))) hagg
  rw [hq]
  refine ht.mapLeaf rfl rfl (ht.owned.leaf.grouped ?_)
  intro expr hm
  -- the predicates of the filter, and what is aggregated
  simp only [Apply.exprs, List.append_nil, List.map_nil, List.mem_append, List.mem_filterMap,
    List.mem_singleton] at hm
  obtain hm | ⟨_, rfl, hm⟩ := hm
  · exact ht.owned.leaf.of_filter? expr hm
  · exact hread expr hm

end Terminal

theorem bindQuery_sound {expr : Expr} {query : BoundQuery} (hi : expr.inputs = [])
    (h : (bindQuery metadata expr).run n = .ok (query, m)) : query.chain.Sound := by
  obtain ⟨chain, hc, rfl⟩ | ⟨method, args, ty, rfl, ⟨-, h⟩ | ⟨limit, -, h⟩ | ⟨-, h⟩⟩ :=
    bindQuery_ok h
  · exact bind_sound hi hc
  · exact sound_count (fun arg hm => Expr.inputs_arg hi hm) h
  · exact sound_element (fun arg hm => Expr.inputs_arg hi hm) h
  · exact sound_aggregate (fun arg hm => Expr.inputs_arg hi hm) h

/-- The references of a bound query are in order: numbers of resources rise from the root to the leaf,
the bound expressions of a resource refer to no other one, and a scope that reaches out refers to a
resource before its own. -/
theorem bindQuery_references {expr : Expr} {query : BoundQuery} (hi : expr.inputs = [])
    (h : (bindQuery metadata expr).run n = .ok (query, m)) :
    (query.chain.resources.map Resource.id).Pairwise (· < ·) ∧
      (∀ resource ∈ query.chain.resources, ∀ bound ∈ resource.boundExprs,
        ∀ ref ∈ bound.inputs, ref.target = resource.id) ∧
      ∀ before resource after, query.chain.resources = before ++ resource :: after →
        ∀ scope outer, resource.scope = some scope → scope.outer = some outer →
          ∃ ancestor ∈ before, ancestor.id = outer.2 := by
  obtain ⟨⟨k, hn⟩, ho⟩ := bindQuery_sound hi h
  refine ⟨hn.placed.pairwise, fun resource hr bound hb => ?_, ?_⟩
  · have howned : resource.Owned := by
      obtain rfl | hr := List.mem_cons.1 (List.mem_reverse.1 hr)
      · exact ho.leaf
      · exact ho.ancestors resource hr
    exact howned.boundExprs bound hb
  · intro before resource after hsplit scope outer hs houter
    exact hn.placed.outer_mem hsplit hs houter

/-- The lines of one order beside the order, of which those that are open are kept. -/
def openLines : Expr :=
  let order := .call "Where" [.root ⟨"Orders", .entity "Order", .entitySet⟩,
    .lambda [⟨"it", .entity "Order"⟩] (.binary .equal
      (.member (.parameter ⟨"it", .entity "Order"⟩) "Id" .int32) (.constant (.int32 7)))] .object
  let pair := .record [("order", .entity "Order"), ("line", .entity "Line")]
  let lines := .call "SelectMany" [order, reading "Order" "Lines" (.collection (.entity "Line")),
    .lambda [⟨"o", .entity "Order"⟩, ⟨"l", .entity "Line"⟩] (.newRecord pair
      [("order", .parameter ⟨"o", .entity "Order"⟩),
        ("line", .parameter ⟨"l", .entity "Line"⟩)])] .object
  .call "Where" [lines, .lambda [⟨"it", pair⟩]
    (.member (.member (.parameter ⟨"it", pair⟩) "line" (.entity "Line")) "Open" .bool)] .object

theorem bindQuery_references_openLines : ∃ query m,
    (bindQuery orders openLines).run 0 = .ok (query, m) ∧
      query.chain.resources.map Resource.id = [1, 2] ∧
      query.chain.leaf.scope.map TransparentScope.outer = some (some ("order", 1)) ∧
      query.chain.leaf.boundExprs.length = 1 ∧
      (query.chain.resources.map Resource.id).Pairwise (· < ·) ∧
      (∀ resource ∈ query.chain.resources, ∀ bound ∈ resource.boundExprs,
        ∀ ref ∈ bound.inputs, ref.target = resource.id) ∧
      ∀ before resource after, query.chain.resources = before ++ resource :: after →
        ∀ scope outer, resource.scope = some scope → scope.outer = some outer →
          ∃ ancestor ∈ before, ancestor.id = outer.2 :=
  ⟨_, _, rfl, rfl, rfl, rfl, bindQuery_references (show openLines.inputs = [] from rfl)
    (show (bindQuery orders openLines).run 0 = _ from rfl)⟩

end Binding

end ServiceQuery
