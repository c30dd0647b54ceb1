import ServiceQuery.Proofs.Binding.Predicates

/-!
# What operators do to a chain

Operators are many, and what they do to the resources of a chain is little: most of them change the
options of the leaf, some lead on to a further resource, and a key gives the leaf another number.
An invariant of bound chains is proved for these moves.
-/

namespace ServiceQuery

/-- Whether an operator is about the number of elements. -/
def Operator.asksCount : Operator → Bool
  | .includeCount _ => true
  | _ => false

namespace Binding

/-- What an operator may do to a chain when `n` is the next number. The results are whether it asks
about the number of elements, the chain and the next number after it. -/
inductive Moves (metadata : Metadata) (chain : Chain) (n : ResourceId) :
    Bool → Chain → ResourceId → Prop
  /-- A collection takes sequence options or a grouping. -/
  | restrict (sequence : List SequenceOption) (apply : Option Apply)
    (collection : chain.demoted.leaf.isSingle = false) :
    Moves metadata chain n false
      (chain.demoted.mapLeaf fun leaf => { leaf with sequence := sequence, apply := apply }) n
  /-- A collection is asked for its number of elements. -/
  | count (count : CountOption) (asked : count ≠ .none)
    (collection : chain.demoted.leaf.isSingle = false) :
    Moves metadata chain n true (chain.demoted.mapLeaf fun leaf => { leaf with count := count }) n
  /-- A collection is cut down to one element, under a fresh number. -/
  | key (key : List (String × Value)) (bound : Expr)
    (found : chain.demoted.leaf.keyIn metadata bound = .ok (some key)) :
    Moves metadata chain n false
      (chain.demoted.mapLeaf fun leaf => (leaf.withKeyFilter key bound).renumber n) (n + 1)
  /-- What is read of each element changes. -/
  | describe (projection : Option Projection) (expand : List String)
    (custom : CustomOptions) :
    Moves metadata chain n false (chain.mapLeaf fun leaf =>
      { leaf with projection := projection, expand := expand, custom := custom }) n
  /-- Groups are aggregated. -/
  | aggregate (apply : Apply) (grouped : chain.leaf.apply.isSome = true) :
    Moves metadata chain n false (chain.mapLeaf fun leaf => { leaf with apply := some apply }) n
  /-- A single element without options is left for related elements, which may open a scope. -/
  | navigate (properties : List PropertyDef) (target : Chain) (scope : Option TransparentScope)
    (m : ResourceId) (single : chain.leaf.isSingle = true) (bare : chain.leaf.applied = [])
    (followed : (properties.foldlM follow chain).run n = .ok (target, m))
    (opened : scope = target.leaf.scope ∨
      properties ≠ [] ∧ ∃ f, scope = transparentScope? f chain.leaf.id) :
    Moves metadata chain n false (target.mapLeaf fun leaf => { leaf with scope := scope }) m

variable {metadata : Metadata} {chain chain' target : Chain} {n m : ResourceId}

theorem moves_addOption (option : SequenceOption) (h : chain.demoted.leaf.isSingle = false) :
    Moves metadata chain n false (chain.demoted.mapLeaf (·.addOption option)) n :=
  .restrict (option.insert chain.demoted.leaf.sequence) chain.demoted.leaf.apply h

theorem moves_where {predicate : Expr}
    (h : (bindWhere metadata chain predicate).run n = .ok (chain', m)) :
    Moves metadata chain n false chain' m := by
  obtain ⟨⟨hs, -⟩, bound, -, ⟨key, hk, rfl, rfl⟩ | ⟨-, rfl, rfl⟩⟩ := bindWhere_ok.1 h
  · exact .key key bound hk
  · exact moves_addOption _ hs

theorem moves_select {selector : Expr}
    (h : (bindSelect metadata chain selector).run n = .ok (chain', m)) :
    Moves metadata chain n false chain' m := by
  obtain ⟨apply, f, group, -, ha, hr, rfl⟩ | ⟨rfl, rfl⟩ | ⟨properties, -, h⟩ | ⟨f, -, hp, rfl⟩ :=
    bindSelect_ok h
  · obtain rfl := withResult_ok hr
    exact .aggregate _ (by rw [ha]; rfl)
  · exact .describe chain'.leaf.projection chain'.leaf.expand chain'.leaf.custom
  · obtain ⟨hs, ha, h⟩ := navigate_ok h
    exact .navigate properties chain' chain'.leaf.scope m hs ha h (.inl rfl)
  · obtain ⟨projection, expand, rfl⟩ := project_ok hp
    obtain ⟨paths, he⟩ :=
      Resource.foldl_addExpand expand { chain.leaf with projection := some projection }
    rw [Chain.mapLeaf, he]
    exact .describe (some projection) paths chain.leaf.custom

theorem moves_selectMany {selector : Expr} {result : Option Expr}
    (h : (bindSelectMany metadata chain selector result).run n = .ok (chain', m)) :
    Moves metadata chain n false chain' m := by
  obtain ⟨properties, target, hc, ht, scope, hscope, rfl⟩ := bindSelectMany_ok h
  obtain ⟨hs, ha, hf⟩ := navigate_ok ht
  refine .navigate properties target scope m hs ha hf (hscope.imp_right fun hf => ⟨?_, hf⟩)
  rintro rfl
  cases hc

/-- An operator that is bound makes one of the moves. -/
theorem step_moves {operator : Operator}
    (h : (step metadata chain operator).run n = .ok (chain', m)) :
    Moves metadata chain n operator.asksCount chain' m := by
  cases operator with
  | filter predicate => exact moves_where h
  | orderBy key descending =>
    obtain ⟨⟨hs, -⟩, bound, -, rfl, rfl⟩ := bindOrderBy_ok.1 h
    exact moves_addOption _ hs
  | thenBy key descending =>
    obtain ⟨⟨hs, -⟩, bound, selectors, -, -, rfl, rfl⟩ := bindThenBy_ok.1 h
    exact moves_addOption _ hs
  | skip count =>
    obtain ⟨⟨hs, -⟩, k, -, rfl, rfl⟩ := bindSkip_ok.1 h
    exact moves_addOption _ hs
  | take count =>
    obtain ⟨hs, k, -, rfl, rfl⟩ := bindTake_ok.1 h
    exact moves_addOption _ hs
  | select selector => exact moves_select h
  | selectMany selector result => exact moves_selectMany h
  | groupBy selectors =>
    obtain ⟨⟨hs, -⟩, key, element, result, -, rfl, rfl⟩ := bindGroupBy_ok h
    exact .restrict (chain.demoted.leaf.sequence.eraseP Resource.isFilter) _ hs
  | expand path =>
    simp only [step, BindM.run_bind, BindM.run_lift, BindM.run_pure] at h
    obtain ⟨text, _, ⟨-, rfl⟩, rfl, rfl⟩ := h
    obtain ⟨paths, he⟩ := Resource.foldl_addExpand [text] chain.leaf
    rw [List.foldl_cons, List.foldl_nil] at he
    rw [Chain.mapLeaf, he]
    exact .describe chain.leaf.projection paths chain.leaf.custom
  | addOption name value =>
    obtain ⟨name, text, rfl, rfl⟩ := bindOption_ok h
    exact .describe chain.leaf.projection chain.leaf.expand _
  | includeCount flag =>
    obtain ⟨hs, count, hne, rfl, rfl⟩ := bindIncludeCount_ok h
    exact .count count hne hs

/-- What every navigation keeps is kept by all of them. -/
theorem followed_induction {motive : Chain → ResourceId → Prop}
    (push : ∀ chain n name ty collection, motive chain n →
      motive (chain.push (.ofNavigation n name ty collection)) (n + 1))
    {properties : List PropertyDef} (before : motive chain n)
    (h : (properties.foldlM follow chain).run n = .ok (target, m)) : motive target m := by
  induction properties generalizing chain n with
  | nil =>
    obtain ⟨rfl, rfl⟩ := BindM.run_pure.1 h
    exact before
  | cons property rest ih =>
    simp only [List.foldlM_cons, BindM.run_bind, follow_ok] at h
    obtain ⟨_, _, ⟨rfl, rfl⟩, h⟩ := h
    exact ih (push _ _ _ _ _ before) h

/-- Navigations, if there are any, end in a bare resource that is reached through the leaf. -/
theorem followed_leaf {properties : List PropertyDef}
    (h : (properties.foldlM follow chain).run n = .ok (target, m)) :
    properties = [] ∧ target = chain ∨
      chain.leaf ∈ target.ancestors ∧
        ∃ id name ty collection, target.leaf = .ofNavigation id name ty collection := by
  cases properties with
  | nil =>
    obtain ⟨rfl, -⟩ := BindM.run_pure.1 h
    exact .inl ⟨rfl, rfl⟩
  | cons property rest =>
    simp only [List.foldlM_cons, BindM.run_bind, follow_ok] at h
    obtain ⟨_, _, ⟨rfl, rfl⟩, h⟩ := h
    refine .inr (followed_induction (motive := fun next _ => chain.leaf ∈ next.ancestors ∧
      ∃ id name ty collection, next.leaf = .ofNavigation id name ty collection) ?_ ?_ h)
    · rintro next k name ty collection ⟨hm, -⟩
      exact ⟨List.mem_cons_of_mem _ hm, k, name, ty, collection, rfl⟩
    · exact ⟨List.mem_cons_self, _, _, _, _, rfl⟩

end Binding

/-- Resources, nearest first, of which each has a greater number than the ones it is reached through.
A scope refers to one of these. -/
inductive Placed : List Resource → Prop
  | nil : Placed []
  | cons {resource : Resource} {ancestors : List Resource}
    (above : ∀ ancestor ∈ ancestors, ancestor.id < resource.id)
    (outer : ∀ scope ∈ resource.scope, ∀ outer ∈ scope.outer,
      ∃ ancestor ∈ ancestors, ancestor.id = outer.2)
    (rest : Placed ancestors) : Placed (resource :: ancestors)

/-- The resources of a chain have rising numbers below `n`, and scopes refer to earlier resources. -/
structure Chain.Numbered (chain : Chain) (n : ResourceId) : Prop where
  placed : Placed (chain.leaf :: chain.ancestors)
  below : chain.leaf.id < n

namespace Placed

variable {resource other : Resource} {ancestors : List Resource}

/-- Another resource may stand in the place of the nearest one. -/
theorem replace (h : Placed (resource :: ancestors)) (hid : resource.id ≤ other.id)
    (hs : other.scope = resource.scope) : Placed (other :: ancestors) := by
  cases h with
  | cons above outer rest =>
    refine .cons (fun ancestor hm => ?_) (by rw [hs]; exact outer) rest
    exact Nat.lt_of_lt_of_le (above ancestor hm) hid

theorem pairwise {resources : List Resource} (h : Placed resources) :
    (resources.reverse.map Resource.id).Pairwise (· < ·) := by
  induction h with
  | nil => exact .nil
  | cons above outer rest ih =>
    rw [List.reverse_cons, List.map_append, List.pairwise_append]
    refine ⟨ih, List.pairwise_singleton _ _, ?_⟩
    simpa using above

/-- A scope refers to a resource before its own. -/
theorem outer_mem {resources : List Resource} (h : Placed resources)
    {before after : List Resource} (hr : resources.reverse = before ++ resource :: after)
    {scope : TransparentScope} (hs : resource.scope = some scope) {outer : String × ResourceId}
    (ho : scope.outer = some outer) : ∃ ancestor ∈ before, ancestor.id = outer.2 := by
  induction h generalizing after with
  | nil => simp at hr
  | @cons nearest ancestors above houter rest ih =>
    rw [List.reverse_cons] at hr
    obtain rfl | ⟨rest, last, rfl⟩ := List.eq_nil_or_concat after
    · -- the resource is the nearest one
      obtain ⟨rfl, hlast⟩ := List.append_inj' hr rfl
      obtain rfl : nearest = resource := by simpa using hlast
      obtain ⟨ancestor, hm, hid⟩ := houter scope hs outer ho
      exact ⟨ancestor, List.mem_reverse.2 hm, hid⟩
    · have hr' : ancestors.reverse ++ [nearest] = (before ++ resource :: rest) ++ [last] := by
        rw [hr]
        simp
      exact ih (List.append_inj' hr' rfl).1

theorem outer_mem_tail {resources : List Resource} (h : Placed resources) :
    ∀ resource ∈ resources, ∀ scope ∈ resource.scope, ∀ outer ∈ scope.outer,
      ∃ ancestor ∈ resources.tail, ancestor.id = outer.2 := by
  induction h with
  | nil => simp
  | @cons nearest ancestors above outer rest ih =>
    intro resource hm scope hs found hf
    obtain rfl | hm := List.mem_cons.1 hm
    · exact outer scope hs found hf
    · obtain ⟨ancestor, ha, hid⟩ := ih resource hm scope hs found hf
      exact ⟨ancestor, List.mem_of_mem_tail ha, hid⟩

end Placed

namespace Chain.Numbered

variable {chain : Chain} {n : ResourceId} {f : Resource → Resource}

theorem lt_leaf (h : chain.Numbered n) : ∀ ancestor ∈ chain.ancestors,
    ancestor.id < chain.leaf.id := by
  cases h.placed with
  | cons above outer rest => exact above

/-- A change of the leaf that keeps its number and its scope. -/
theorem frame (h : chain.Numbered n) (hid : (f chain.leaf).id = chain.leaf.id)
    (hs : (f chain.leaf).scope = chain.leaf.scope) : (chain.mapLeaf f).Numbered n where
  placed := h.placed.replace (Nat.le_of_eq hid.symm) hs
  below := by
    have := h.below
    rwa [mapLeaf, hid]

theorem demoted (h : chain.Numbered n) : chain.demoted.Numbered n := by
  obtain ⟨hid, -, hs⟩ := Resource.face_eq.1 (Resource.face_demoteKey chain.leaf)
  exact h.frame hid hs

/-- The leaf may take the next number. -/
theorem renumber (h : chain.Numbered n) (hid : (f chain.leaf).id = n)
    (hs : (f chain.leaf).scope = chain.leaf.scope) : (chain.mapLeaf f).Numbered (n + 1) where
  placed := h.placed.replace (by rw [mapLeaf, hid]; exact Nat.le_of_lt h.below) hs
  below := by rw [mapLeaf, hid]; exact Nat.lt_succ_self n

theorem push (h : chain.Numbered n) (name : String) (ty : Ty) (collection : Bool) :
    (chain.push (.ofNavigation n name ty collection)).Numbered (n + 1) where
  placed := by
    refine .cons (fun ancestor hm => ?_) (by simp [Chain.push, Resource.ofNavigation]) h.placed
    have hbelow := h.below
    obtain rfl | hm := List.mem_cons.1 hm
    · exact hbelow
    · exact Nat.lt_trans (h.lt_leaf ancestor hm) hbelow
  below := Nat.lt_succ_self n

end Chain.Numbered

namespace Binding

variable {metadata : Metadata} {chain chain' : Chain} {n m : ResourceId} {asks : Bool}

theorem transparentScope?_outer {f : Lambda} {source : ResourceId} {scope : TransparentScope}
    (h : transparentScope? f source = some scope) {outer : String × ResourceId}
    (ho : scope.outer = some outer) : outer.2 = source := by
  unfold transparentScope? at h
  split at h
  · split at h
    · obtain ⟨name, -, rfl⟩ := Option.map_eq_some_iff.1 h
      obtain ⟨name, -, rfl⟩ := Option.map_eq_some_iff.1 ho
      rfl
    · cases h
  · cases h

/-- A scope that opens after navigations refers to the resource they start from. -/
theorem numbered_opened {target : Chain} (h : target.Numbered m)
    (hm : chain.leaf ∈ target.ancestors) (f : Lambda) :
    (target.mapLeaf fun leaf =>
      { leaf with scope := transparentScope? f chain.leaf.id }).Numbered m where
  placed := by
    cases h.placed with
    | cons above outer rest =>
      refine .cons above (fun scope hs outer ho => ?_) rest
      exact ⟨chain.leaf, hm, (transparentScope?_outer hs ho).symm⟩
  below := h.below

/-- What one operator does to the numbers of a chain. -/
theorem Moves.numbered (h : Moves metadata chain n asks chain' m) (hn : chain.Numbered n) :
    chain'.Numbered m := by
  cases h with
  | restrict sequence apply collection => exact hn.demoted.frame rfl rfl
  | count count asked collection => exact hn.demoted.frame rfl rfl
  | key key bound found =>
    obtain ⟨hs, -, ha⟩ := keyIn_some found
    exact hn.demoted.renumber rfl (by rw [Resource.renumber_withKeyFilter hs ha])
  | describe projection expand custom => exact hn.frame rfl rfl
  | aggregate apply grouped => exact hn.frame rfl rfl
  | navigate properties target scope m single bare followed opened =>
    have htarget : target.Numbered m :=
      followed_induction (motive := Chain.Numbered)
        (fun _ _ name ty collection h => h.push name ty collection) hn followed
    obtain rfl | ⟨hne, f, rfl⟩ := opened
    · exact htarget.frame rfl rfl
    · obtain ⟨hnil, -⟩ | ⟨hm, -⟩ := followed_leaf followed
      · exact absurd hnil hne
      · exact numbered_opened htarget hm f

/-- The resources of a bound chain are numbered. -/
theorem bind_numbered {expr : Expr} (h : (bind metadata expr).run n = .ok (chain, m)) :
    chain.Numbered m := by
  refine bind_induction (motive := fun _ chain m => chain.Numbered m) ?_ ?_ h
  · intro origin
    exact ⟨.cons (by simp) (by simp [Resource.ofRoot]) .nil, Nat.lt_succ_self n⟩
  · intro method source args ty chain operator chain' k m _ _ _ hstep hn
    exact (step_moves hstep).numbered hn

/-- No operator makes an action of a resource that is none. -/
theorem Moves.isAction {asks : Bool} (h : Moves metadata chain n asks chain' m)
    (ha : chain.leaf.isAction = false) : chain'.leaf.isAction = false := by
  have hdemoted : chain.demoted.leaf.isAction = false := by
    have horigin : chain.demoted.leaf.origin = chain.leaf.origin := chain.leaf.demoteKey_frame.1
    rw [Resource.isAction, horigin]
    exact ha
  cases h with
  | restrict sequence apply collection => exact hdemoted
  | count count asked collection => exact hdemoted
  | key key bound found =>
    obtain ⟨hs, -, happly⟩ := keyIn_some found
    rw [Chain.mapLeaf, Resource.renumber_withKeyFilter hs happly]
    exact hdemoted
  | describe projection expand custom => exact ha
  | aggregate apply grouped => exact ha
  | navigate properties target scope m single bare followed opened =>
    obtain ⟨-, rfl⟩ | ⟨-, id, name, ty, collection, hleaf⟩ := followed_leaf followed
    · exact ha
    · rw [Chain.mapLeaf, hleaf]
      rfl

/-- An action is a single element, and nothing follows it. -/
theorem bind_isAction {expr : Expr} (h : (bind metadata expr).run n = .ok (chain, m))
    (hc : chain.demoted.leaf.isSingle = false) : chain.leaf.isAction = false := by
  refine bind_induction (motive := fun _ chain _ => chain.demoted.leaf.isSingle = false →
    chain.leaf.isAction = false) ?_ ?_ h hc
  · -- of all roots only actions are at stake, and these are single
    rintro ⟨name, ty, kind⟩ hsingle
    cases kind with
    | action parameters => cases hsingle
    | _ => rfl
  · intro method source args ty chain operator chain' k m _ ha _ hstep _ _
    exact (step_moves hstep).isAction ha

end Binding

end ServiceQuery
