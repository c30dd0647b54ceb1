import ServiceQuery.Proofs.Binding.Step
import ServiceQuery.Proofs.Grouping
import ServiceQuery.Proofs.Target

/-!
# Predicates of a bound query

A predicate stands as the key of a resource, in its filter or under its grouping, and operators move
it from one place to another. None is lost, repeated or reordered on the way, and only the leaf of a
chain carries options.
-/

namespace ServiceQuery

/-- The predicates of a resource: the one its key was found in, those of its filter and those on the
elements that it groups. -/
def Resource.predicates (resource : Resource) : List Expr :=
  resource.keyFilter.toList ++ resource.filter?.getD [] ++
    (resource.apply.map Apply.predicates).getD []

/-- The predicates of a chain, root first. -/
def Chain.predicates (chain : Chain) : List Expr := chain.resources.flatMap Resource.predicates

/-- A chain whose resources before the leaf are single elements without options, whose leaf has no
two sequence options of one kind, and has no sequence option and no grouping beside a key that was
found in a predicate. -/
structure Chain.WellFormed (chain : Chain) : Prop where
  ancestors : ∀ resource ∈ chain.ancestors, resource.isSingle = true ∧ resource.applied = []
  kinds : (chain.leaf.sequence.map SequenceOption.methodName).Nodup
  key : chain.leaf.keyFilter.isSome = true → chain.leaf.sequence = [] ∧ chain.leaf.apply = none

/-- The bound body of a predicate over the elements of a chain. -/
def Chain.predicateBody (chain : Chain) : Expr → List Expr
  | .lambda [param] body => [chain.bindInput param.name body]
  | _ => []

namespace Grouping

/-- Steps that leave the predicates of a grouping as they are. -/
def Keeps {α : Type} (steps : ApplyM α) : Prop :=
  ∀ apply : Apply, (steps.run.run apply).2.predicates = apply.predicates

theorem keeps_iff {α : Type} {steps : ApplyM α} :
    Keeps steps ↔ ∀ predicates, Preserves (·.predicates = predicates) steps :=
  ⟨fun h _ apply ha => (h apply).trans ha, fun h apply => h _ apply rfl⟩

theorem predicates_addGrouping (apply : Apply) (expr : Expr) :
    (apply.addGrouping expr).predicates = apply.predicates := by
  rw [Apply.addGrouping]
  split <;> rfl

theorem keeps_addKeys (chain : Chain) (selector : Lambda) : Keeps (addKeys chain selector) := by
  refine keeps_iff.2 fun predicates => .bind_lift fun param _ => ?_
  split
  · refine .forM fun member _ => .bind_lift fun bound _ => .modify fun apply h => ?_
    exact (predicates_addGrouping _ bound).trans h
  · refine .bind_lift fun bound _ => .modify fun apply h => ?_
    exact (predicates_addGrouping apply bound).trans h

theorem keeps_addMembers (chain : Chain) (selector : Lambda) :
    Keeps (addMembers chain selector) := by
  refine keeps_iff.2 fun predicates => .bind_lift fun param _ => ?_
  exact .forM fun member _ => .bind_lift fun bound _ => .modify fun apply h => h

theorem keeps_addResult (chain : Chain) (result : Lambda) (group : String) :
    Keeps (addResult chain result group) := by
  refine keeps_iff.2 fun predicates => .bind_get fun _ _ => .bind_lift fun _ _ => ?_
  refine .bind (.forM fun call _ => .bind_get fun _ _ => .bind_lift fun found _ => ?_) fun _ => ?_
  · cases found with
    | some aggregation => exact .modify fun apply h => h
    | none => exact .pure ()
  · exact .modify fun apply h => h

/-- The selectors of a grouping add keys, members and aggregations, and no predicate. -/
theorem keeps_addGroups (chain : Chain) (key : Lambda) (element result : Option Lambda) :
    Keeps (Binding.addGroups chain key element result) := by
  refine keeps_iff.2 fun predicates => ?_
  refine .bind (keeps_iff.1 (keeps_addKeys chain key) predicates) fun _ => ?_
  refine .bind ?_ fun _ => ?_
  · cases element with
    | some element => exact keeps_iff.1 (keeps_addMembers chain element) predicates
    | none => exact .pure ()
  · cases result with
    | some result =>
      refine .bind_lift fun group _ => ?_
      exact keeps_iff.1 (keeps_addResult chain result group.name) predicates
    | none => exact .pure ()

end Grouping

namespace Resource

variable {resource : Resource}

theorem predicates_of_frame {other : Resource} (hk : other.keyFilter = resource.keyFilter)
    (hs : other.sequence = resource.sequence) (ha : other.apply = resource.apply) :
    other.predicates = resource.predicates := by
  rw [predicates, predicates, filter?_eq, filter?_eq, hk, hs, ha]

theorem demoteKey_of_none (h : resource.keyFilter = none) : resource.demoteKey = resource := by
  rw [demoteKey, h]

@[simp]
theorem face_demoteKey (resource : Resource) : resource.demoteKey.face = resource.face := by
  rw [demoteKey]
  split <;> rfl

@[simp]
theorem keyFilter_demoteKey (resource : Resource) : resource.demoteKey.keyFilter = none := by
  rw [demoteKey]
  split
  · next h => exact h
  · rfl

/-- A key that was found in a predicate gives the predicate back. -/
theorem predicates_demoteKey
    (h : resource.keyFilter.isSome = true → resource.sequence = [] ∧ resource.apply = none) :
    resource.demoteKey.predicates = resource.predicates := by
  cases hk : resource.keyFilter with
  | none => rw [demoteKey_of_none hk]
  | some predicate =>
    obtain ⟨hs, ha⟩ := h (by rw [hk]; rfl)
    simp [predicates, demoteKey, hk, ha, filter?_eq, addOption, hs, SequenceOption.insert,
      SequenceOption.predicates?]

theorem sequence_demoteKey_nodup (h : (resource.sequence.map SequenceOption.methodName).Nodup) :
    (resource.demoteKey.sequence.map SequenceOption.methodName).Nodup := by
  rw [demoteKey]
  split
  · exact h
  · exact SequenceOption.nodup_insert _ h

/-- A predicate joins the filter of a resource without key and grouping as the last one. -/
theorem predicates_addOption_filter (hk : resource.keyFilter = none) (ha : resource.apply = none)
    (predicate : Expr) :
    (resource.addOption (.filter [predicate])).predicates = resource.predicates ++ [predicate] := by
  rw [predicates, filter?_addOption, predicates]
  simp [addOption, hk, ha]

theorem predicates_addOption_of_ne {option : SequenceOption} (h : option.methodName ≠ "Where") :
    (resource.addOption option).predicates = resource.predicates := by
  rw [predicates, filter?_addOption_of_ne h]
  rfl

/-- Without two options of one kind there is no second filter. -/
theorem findSome?_eraseP_isFilter {options : List SequenceOption}
    (h : (options.map SequenceOption.methodName).Nodup) :
    (options.eraseP isFilter).findSome? SequenceOption.predicates? = none := by
  induction options with
  | nil => rfl
  | cons option rest ih =>
    rw [List.map_cons, List.nodup_cons] at h
    cases option with
    | filter predicates =>
      rw [List.eraseP_cons_of_pos rfl, List.findSome?_eq_none_iff]
      intro other hother
      cases other with
      | filter others => exact absurd (List.mem_map_of_mem hother) h.1
      | _ => rfl
    | _ =>
      rw [List.eraseP_cons_of_neg (by simp [isFilter])]
      exact ih h.2

/-- A key takes the place of a filter on a resource without options. -/
theorem predicates_withKeyFilter (hs : resource.sequence = []) (ha : resource.apply = none)
    (key : List (String × Value)) (predicate : Expr) (id : ResourceId) :
    ((resource.withKeyFilter key predicate).renumber id).predicates.map Expr.withoutTargets =
      [predicate.withoutTargets] := by
  rw [renumber_withKeyFilter hs ha]
  simp [predicates, filter?_eq, hs, ha]

theorem predicates_eq_nil (hs : resource.sequence = []) (ha : resource.apply = none)
    (hk : resource.keyFilter = none) : resource.predicates = [] := by
  simp [predicates, filter?_eq, hs, ha, hk]

end Resource

namespace Chain

variable {chain : Chain}

theorem predicates_eq (chain : Chain) :
    chain.predicates =
      chain.ancestors.reverse.flatMap Resource.predicates ++ chain.leaf.predicates := by
  simp [predicates, resources]

/-- Only the predicates of the leaf change with the leaf. -/
theorem predicates_mapLeaf (f : Resource → Resource) :
    (chain.mapLeaf f).predicates =
      chain.ancestors.reverse.flatMap Resource.predicates ++ (f chain.leaf).predicates :=
  predicates_eq _

@[simp]
theorem faces_demoted (chain : Chain) : chain.demoted.faces = chain.faces :=
  faces_mapLeaf (Resource.face_demoteKey _)

namespace WellFormed

/-- A resource that is kept where predicates and kinds of options are concerned. -/
theorem frame (wf : chain.WellFormed) {f : Resource → Resource}
    (hk : (f chain.leaf).keyFilter = chain.leaf.keyFilter)
    (hs : (f chain.leaf).sequence = chain.leaf.sequence)
    (ha : (f chain.leaf).apply = chain.leaf.apply) : (chain.mapLeaf f).WellFormed where
  ancestors := wf.ancestors
  kinds := by rw [mapLeaf, hs]; exact wf.kinds
  key := by rw [mapLeaf, hk, hs, ha]; exact wf.key

theorem predicates_demoted (wf : chain.WellFormed) :
    chain.demoted.predicates = chain.predicates := by
  rw [demoted, predicates_mapLeaf, Resource.predicates_demoteKey wf.key, ← predicates_eq]

theorem demoted (wf : chain.WellFormed) : chain.demoted.WellFormed where
  ancestors := wf.ancestors
  kinds := Resource.sequence_demoteKey_nodup wf.kinds
  key := by simp [Chain.demoted, mapLeaf]

/-- An option may be added to a leaf without a key that was found in a predicate. -/
theorem addOption (wf : chain.WellFormed) (hk : chain.leaf.keyFilter = none)
    (option : SequenceOption) : (chain.mapLeaf (·.addOption option)).WellFormed where
  ancestors := wf.ancestors
  kinds := SequenceOption.nodup_insert _ wf.kinds
  key := by simp [mapLeaf, Resource.addOption, hk]

/-- A leaf that is a single element without options may be navigated from. -/
theorem push (wf : chain.WellFormed) (hs : chain.leaf.isSingle = true)
    (ha : chain.leaf.applied = []) (id : ResourceId) (name : String) (ty : Ty) (collection : Bool) :
    (chain.push (.ofNavigation id name ty collection)).WellFormed where
  ancestors := by
    intro resource hr
    cases hr with
    | head => exact ⟨hs, ha⟩
    | tail _ hr => exact wf.ancestors resource hr
  kinds := .nil
  key := by simp [Chain.push, Resource.ofNavigation]

end WellFormed

theorem predicates_push (chain : Chain) (id : ResourceId) (name : String) (ty : Ty)
    (collection : Bool) :
    (chain.push (.ofNavigation id name ty collection)).predicates = chain.predicates := by
  rw [predicates_eq, predicates_eq]
  simp [push, Resource.predicates, Resource.ofNavigation, Resource.filter?]

end Chain

/-- The bound body of the predicate of a filter. -/
def Operator.predicateBodies (chain : Chain) : Operator → List Expr
  | .filter predicate => chain.predicateBody predicate
  | _ => []

namespace Binding

variable {metadata : Metadata} {chain chain' : Chain} {n m : ResourceId}

/-- A predicate gives a key only where nothing else has been asked of the resource. -/
theorem keyIn_some {resource : Resource} {predicate : Expr} {key : List (String × Value)}
    (h : resource.keyIn metadata predicate = .ok (some key)) :
    resource.sequence = [] ∧ resource.projection = none ∧ resource.apply = none := by
  rw [Resource.keyIn] at h
  split at h
  · split at h
    · next ha =>
      simp only [Resource.acceptsKey, Bool.and_eq_true, List.isEmpty_iff,
        Option.isNone_iff_eq_none] at ha
      exact ⟨ha.1.1.2, ha.1.2, ha.2⟩
    · cases h
  · cases h

theorem predicateBody_of_binds {argument bound : Expr} (h : chain.demoted.Binds argument bound) :
    chain.predicateBody argument = [bound] := by
  obtain ⟨param, body, rfl, -, rfl⟩ := h
  rw [Chain.predicateBody, Chain.bindInput_congr (Chain.faces_demoted chain)]

/-- What an operator does to the predicates of a chain, up to the numbers of resources. -/
def Adds (chain chain' : Chain) (bodies : List Expr) : Prop :=
  chain'.WellFormed ∧
    chain'.predicates.map Expr.withoutTargets =
      (chain.predicates ++ bodies).map Expr.withoutTargets

/-- A chain with the same predicates adds none. -/
theorem Adds.of_eq (wf : chain'.WellFormed) (h : chain'.predicates = chain.predicates) :
    Adds chain chain' [] :=
  ⟨wf, by rw [h, List.append_nil]⟩

theorem Adds.refl (wf : chain.WellFormed) : Adds chain chain [] := .of_eq wf rfl

theorem Adds.frame {target : Chain} {bodies : List Expr} (h : Adds chain target bodies)
    {f : Resource → Resource} (hk : (f target.leaf).keyFilter = target.leaf.keyFilter)
    (hs : (f target.leaf).sequence = target.leaf.sequence)
    (ha : (f target.leaf).apply = target.leaf.apply) : Adds chain (target.mapLeaf f) bodies := by
  refine ⟨h.1.frame hk hs ha, ?_⟩
  rw [Chain.predicates_mapLeaf, Resource.predicates_of_frame hk hs ha, ← Chain.predicates_eq, h.2]

/-- What is added to a chain after its key has become a filter again. -/
theorem Adds.of_demoted (wf : chain.WellFormed) {bodies : List Expr}
    (h : Adds chain.demoted chain' bodies) : Adds chain chain' bodies :=
  ⟨h.1, by rw [h.2, wf.predicates_demoted]⟩

theorem adds_addFilter (wf : chain.WellFormed) (hk : chain.leaf.keyFilter = none)
    (ha : chain.leaf.apply = none) (bound : Expr) :
    Adds chain (chain.mapLeaf (·.addOption (.filter [bound]))) [bound] := by
  refine ⟨wf.addOption hk _, ?_⟩
  rw [Chain.predicates_mapLeaf, Resource.predicates_addOption_filter hk ha, ← List.append_assoc,
    ← Chain.predicates_eq]

/-- An option that is no filter adds no predicate. -/
theorem adds_addOption (wf : chain.WellFormed) {option : SequenceOption}
    (h : option.methodName ≠ "Where") :
    Adds chain (chain.demoted.mapLeaf (·.addOption option)) [] := by
  have hkey : chain.demoted.leaf.keyFilter = none := Resource.keyFilter_demoteKey _
  refine .of_demoted wf (.of_eq (wf.demoted.addOption hkey option) ?_)
  rw [Chain.predicates_mapLeaf, Resource.predicates_addOption_of_ne h, ← Chain.predicates_eq]

theorem adds_withKeyFilter (wf : chain.WellFormed) (hs : chain.leaf.sequence = [])
    (ha : chain.leaf.apply = none) (hk : chain.leaf.keyFilter = none)
    (key : List (String × Value)) (bound : Expr) (id : ResourceId) :
    Adds chain (chain.mapLeaf fun leaf => (leaf.withKeyFilter key bound).renumber id) [bound] := by
  have hleaf := Resource.renumber_withKeyFilter hs ha key bound id
  refine ⟨⟨wf.ancestors, ?_, ?_⟩, ?_⟩
  · simp [Chain.mapLeaf, hleaf, hs]
  · simp [Chain.mapLeaf, hleaf, hs, ha]
  · rw [Chain.predicates_mapLeaf, List.map_append, Resource.predicates_withKeyFilter hs ha,
      Chain.predicates_eq chain, Resource.predicates_eq_nil hs ha hk, List.append_nil,
      List.map_append]
    rfl

/-- The predicates of the filter go under a grouping that takes its place. -/
theorem adds_group (wf : chain.WellFormed) (hk : chain.leaf.keyFilter = none)
    (ha : chain.leaf.apply = none) {apply : Apply}
    (h : apply.predicates = chain.leaf.filter?.getD []) :
    Adds chain (chain.mapLeaf fun leaf => { leaf.withoutFilter with apply := some apply }) [] := by
  refine .of_eq ⟨wf.ancestors, ?_, ?_⟩ ?_
  · exact wf.kinds.sublist (List.eraseP_sublist.map _)
  · simp [Chain.mapLeaf, Resource.withoutFilter, hk]
  · have hf : (chain.leaf.sequence.eraseP Resource.isFilter).findSome?
        SequenceOption.predicates? = none := Resource.findSome?_eraseP_isFilter wf.kinds
    rw [Chain.predicates_mapLeaf, Chain.predicates_eq chain]
    simp [Resource.predicates, Resource.filter?_eq, Resource.withoutFilter, hf, hk, ha, h]

/-- Navigations take the predicates along if all but the last of them lead to one element. -/
theorem adds_navigations {properties : List PropertyDef} (wf : chain.WellFormed)
    (hs : chain.leaf.isSingle = true) (ha : chain.leaf.applied = [])
    (hp : ∀ property ∈ properties.dropLast, isCollection property = false)
    (h : (properties.foldlM follow chain).run n = .ok (chain', m)) : Adds chain chain' [] := by
  suffices hw : chain'.WellFormed ∧ chain'.predicates = chain.predicates from .of_eq hw.1 hw.2
  induction properties generalizing chain n with
  | nil =>
    obtain ⟨rfl, -⟩ := BindM.run_pure.1 h
    exact ⟨wf, rfl⟩
  | cons property rest ih =>
    simp only [List.foldlM_cons, BindM.run_bind, follow_ok] at h
    obtain ⟨_, _, ⟨rfl, rfl⟩, h⟩ := h
    have hnext := wf.push hs ha n property.name
      (property.ty.elementType?.getD property.ty).nonNullable (isCollection property)
    rw [← Chain.predicates_push chain n property.name
      (property.ty.elementType?.getD property.ty).nonNullable (isCollection property)]
    cases rest with
    | nil =>
      obtain ⟨rfl, -⟩ := BindM.run_pure.1 h
      exact ⟨hnext, rfl⟩
    | cons second rest =>
      -- A navigation that another one follows leads to a single element without options.
      have hone : isCollection property = false := hp property List.mem_cons_self
      refine ih hnext ?_ rfl (fun other ho => hp other (List.mem_cons_of_mem _ ho)) h
      rw [hone]
      rfl

theorem adds_navigate {method : String} {properties : List PropertyDef} (wf : chain.WellFormed)
    (hp : ∀ property ∈ properties.dropLast, isCollection property = false)
    (h : (navigate method chain properties).run n = .ok (chain', m)) : Adds chain chain' [] := by
  obtain ⟨hs, ha, h⟩ := navigate_ok h
  exact adds_navigations wf hs ha hp h

theorem endsInCollection_dropLast {properties : List PropertyDef}
    (h : endsInCollection properties = true) :
    ∀ property ∈ properties.dropLast, isCollection property = false := by
  rw [endsInCollection] at h
  split at h
  · next last rest hr =>
    obtain rfl : properties = rest.reverse ++ [last] := by
      rw [← List.reverse_inj, hr]
      simp
    rw [Bool.and_eq_true, List.all_eq_true] at h
    intro property hm
    rw [List.dropLast_concat, List.mem_reverse] at hm
    simpa using h.2 property hm
  · cases h

theorem adds_filter {predicate : Expr} (wf : chain.WellFormed)
    (h : (bindFilter chain predicate).run n = .ok (chain', m)) :
    Adds chain chain' (chain.predicateBody predicate) := by
  obtain ⟨⟨-, ha⟩, bound, hb, rfl, rfl⟩ := bindFilter_ok.1 h
  rw [predicateBody_of_binds hb]
  have hnone := Resource.apply_eq_none (ha "GroupBy" (by simp))
  exact .of_demoted wf (adds_addFilter wf.demoted (Resource.keyFilter_demoteKey _) hnone bound)

theorem adds_where {predicate : Expr} (wf : chain.WellFormed)
    (h : (bindWhere metadata chain predicate).run n = .ok (chain', m)) :
    Adds chain chain' (chain.predicateBody predicate) := by
  obtain ⟨⟨-, ha⟩, bound, hb, h⟩ := bindWhere_ok.1 h
  rw [predicateBody_of_binds hb]
  have hnone := Resource.apply_eq_none (ha "GroupBy" (by simp))
  have hkey : chain.demoted.leaf.keyFilter = none := Resource.keyFilter_demoteKey _
  obtain ⟨key, hk, rfl, rfl⟩ | ⟨-, rfl, rfl⟩ := h
  · obtain ⟨hs, -⟩ := keyIn_some hk
    exact .of_demoted wf (adds_withKeyFilter wf.demoted hs hnone hkey key bound n)
  · exact .of_demoted wf (adds_addFilter wf.demoted hkey hnone bound)

theorem adds_select {selector : Expr} (wf : chain.WellFormed)
    (h : (bindSelect metadata chain selector).run n = .ok (chain', m)) : Adds chain chain' [] := by
  obtain ⟨apply, f, group, -, ha, hr, -⟩ | ⟨rfl, -⟩ | ⟨properties, hp, h⟩ | ⟨f, -, hp, -⟩ :=
    bindSelect_ok h
  · obtain rfl := withResult_ok hr
    -- A grouped leaf has no key that was found in a predicate.
    have hk : chain.leaf.keyFilter = none := by
      cases hk : chain.leaf.keyFilter with
      | none => rfl
      | some predicate => simp [(wf.key (by rw [hk]; rfl)).2] at ha
    refine .of_eq ⟨wf.ancestors, wf.kinds, by simp [Chain.mapLeaf, hk]⟩ ?_
    rw [Chain.predicates_mapLeaf, Chain.predicates_eq chain]
    simp [Resource.predicates, Resource.filter?_eq, ha,
      Grouping.keeps_addResult chain f group.name apply]
  · exact .refl wf
  · exact adds_navigate wf (fun property hm => hp property (List.dropLast_subset _ hm)) h
  · obtain ⟨projection, expand, rfl⟩ := project_ok hp
    obtain ⟨paths, he⟩ :=
      Resource.foldl_addExpand expand { chain.leaf with projection := some projection }
    exact .frame (.refl wf) (by rw [he]) (by rw [he]) (by rw [he])

theorem adds_groupBy {selectors : List Expr} (wf : chain.WellFormed)
    (h : (bindGroupBy chain selectors).run n = .ok (chain', m)) : Adds chain chain' [] := by
  obtain ⟨⟨-, ha⟩, key, element, result, -, rfl, rfl⟩ := bindGroupBy_ok h
  have hnone := Resource.apply_eq_none (ha "GroupBy" (by simp))
  refine .of_demoted wf (adds_group wf.demoted (Resource.keyFilter_demoteKey _) hnone ?_)
  exact Grouping.keeps_addGroups _ key element result _

/-- What one operator does to the predicates of a chain. -/
theorem step_adds {operator : Operator} (wf : chain.WellFormed)
    (h : (step metadata chain operator).run n = .ok (chain', m)) :
    Adds chain chain' (operator.predicateBodies chain) := by
  cases operator with
  | filter predicate => exact adds_where wf h
  | orderBy key descending =>
    obtain ⟨-, bound, -, rfl, -⟩ := bindOrderBy_ok.1 h
    exact adds_addOption wf (by simp)
  | thenBy key descending =>
    obtain ⟨-, bound, selectors, -, -, rfl, -⟩ := bindThenBy_ok.1 h
    exact adds_addOption wf (by simp)
  | skip count =>
    obtain ⟨-, k, -, rfl, -⟩ := bindSkip_ok.1 h
    exact adds_addOption wf (by simp)
  | take count =>
    obtain ⟨-, k, -, rfl, -⟩ := bindTake_ok.1 h
    exact adds_addOption wf (by simp)
  | select selector => exact adds_select wf h
  | selectMany selector result =>
    obtain ⟨properties, target, hc, ht, scope, -, rfl⟩ := bindSelectMany_ok h
    have hn := adds_navigate wf (endsInCollection_dropLast hc) ht
    exact hn.frame rfl rfl rfl
  | groupBy selectors => exact adds_groupBy wf h
  | expand path =>
    simp only [step, BindM.run_bind, BindM.run_lift, BindM.run_pure] at h
    obtain ⟨text, _, ⟨-, rfl⟩, rfl, rfl⟩ := h
    obtain ⟨paths, he⟩ := Resource.foldl_addExpand [text] chain.leaf
    rw [List.foldl_cons, List.foldl_nil] at he
    exact .frame (.refl wf) (by rw [he]) (by rw [he]) (by rw [he])
  | addOption name value =>
    obtain ⟨name, text, rfl, -⟩ := bindOption_ok h
    exact .frame (.refl wf) rfl rfl rfl
  | includeCount flag =>
    obtain ⟨-, count, -, rfl, -⟩ := bindIncludeCount_ok h
    exact .of_demoted wf (.frame (.refl wf.demoted) rfl rfl rfl)

/-- The methods that may be given a predicate after their source. -/
def predicateMethods : List String :=
  ["Where", "Count", "LongCount", "First", "FirstOrDefault", "Single", "SingleOrDefault"]

/-- The bound body of the predicate of a call on a chain, given its arguments after the source. -/
def callBodies (chain : Chain) (method : String) : List Expr → List Expr
  | [predicate] => if method ∈ predicateMethods then chain.predicateBody predicate else []
  | _ => []

variable (metadata n) in
/-- The bound bodies of the predicates that the calls of a query are given, innermost first. Each is
bound over the chain of the source of its call. -/
def predicateBodies : Expr → List Expr
  | .call method (source :: args) _ =>
    predicateBodies source ++
      match (bind metadata source).run n with
      | .ok (chain, _) => callBodies chain method args
      | .error _ => []
  | _ => []

theorem predicateBodies_call {method : String} {source : Expr} {args : List Expr} {ty : Ty}
    (h : (bind metadata source).run n = .ok (chain, m)) :
    predicateBodies metadata n (.call method (source :: args) ty) =
      predicateBodies metadata n source ++ callBodies chain method args := by
  rw [predicateBodies, h]

theorem callBodies_of_not_mem {method : String} (h : method ∉ predicateMethods) (chain : Chain)
    (args : List Expr) : callBodies chain method args = [] := by
  unfold callBodies
  split
  · exact if_neg h
  · rfl

theorem predicateBodies_ofCall? {method : String} {args : List Expr} {operator : Operator}
    (h : Operator.ofCall? method args = some operator) (chain : Chain) :
    operator.predicateBodies chain = callBodies chain method args := by
  obtain ⟨rfl, rfl⟩ := Operator.ofCall?_some h
  cases operator with
  | filter predicate => rfl
  | orderBy key descending | thenBy key descending =>
    refine (callBodies_of_not_mem ?_ chain _).symm
    cases descending <;> simp [Operator.method, predicateMethods]
  | _ =>
    refine (callBodies_of_not_mem ?_ chain _).symm
    simp [Operator.method, predicateMethods]

/-- What binding a chain of calls does to the predicates they are given. -/
theorem bind_predicates {expr : Expr} (h : (bind metadata expr).run n = .ok (chain, m)) :
    chain.WellFormed ∧
      chain.predicates.map Expr.withoutTargets =
        (predicateBodies metadata n expr).map Expr.withoutTargets := by
  refine bind_induction (motive := fun expr chain _ => chain.WellFormed ∧
    chain.predicates.map Expr.withoutTargets =
      (predicateBodies metadata n expr).map Expr.withoutTargets) ?_ ?_ h
  · intro origin
    refine ⟨⟨by simp, .nil, by simp [Resource.ofRoot]⟩, ?_⟩
    simp [Chain.predicates, Chain.resources, Resource.predicates, Resource.filter?_eq,
      Resource.ofRoot, predicateBodies]
  · rintro method source args ty chain operator chain' k m hs - ho hstep ⟨wf, hp⟩
    obtain ⟨wf', hp'⟩ := step_adds wf hstep
    refine ⟨wf', ?_⟩
    rw [hp', predicateBodies_call hs, predicateBodies_ofCall? ho, List.map_append, hp,
      List.map_append]

/-- The chain carries the given predicates, and options on its leaf only. -/
structure Carries (chain : Chain) (bodies : List Expr) : Prop where
  predicates : chain.predicates.map Expr.withoutTargets = bodies.map Expr.withoutTargets
  ancestors : ∀ resource ∈ chain.ancestors, resource.isSingle = true ∧ resource.applied = []

theorem Carries.mapLeaf {bodies : List Expr} (h : Carries chain bodies) {f : Resource → Resource}
    (hf : (f chain.leaf).predicates = chain.leaf.predicates) :
    Carries (chain.mapLeaf f) bodies where
  predicates := by rw [Chain.predicates_mapLeaf, hf, ← Chain.predicates_eq, h.predicates]
  ancestors := h.ancestors

/-- What a terminal operator adds to the chain of its source is carried after the predicates of the
source. -/
theorem carries_of_adds {method : String} {source : Expr} {args : List Expr} {ty : Ty}
    (hs : (bind metadata source).run n = .ok (chain, m))
    (h : chain.WellFormed → Adds chain chain' (callBodies chain method args)) :
    Carries chain' (predicateBodies metadata n (.call method (source :: args) ty)) := by
  obtain ⟨wf, hp⟩ := bind_predicates hs
  obtain ⟨wf', hp'⟩ := h wf
  refine ⟨?_, wf'.ancestors⟩
  rw [hp', predicateBodies_call hs, List.map_append, hp, List.map_append]

/-- Of the calls that end a query, all but aggregations may be given a predicate. -/
theorem mem_predicateMethods_iff {method : String} {terminal : Terminal}
    (h : Terminal.ofMethod? method = some terminal) :
    method ∈ predicateMethods ↔ terminal ≠ .aggregate := by
  unfold Terminal.ofMethod? at h
  split at h <;> cases h <;> simp [predicateMethods]

section Terminal

variable {method : String} {args : List Expr} {ty : Ty} {query : BoundQuery}

theorem carries_count (hm : method ∈ predicateMethods)
    (h : (bindCount metadata method args ty).run n = .ok (query, m)) :
    Carries query.chain (predicateBodies metadata n (.call method args ty)) := by
  obtain ⟨source, chain, k, target, hs, htarget, -, rfl⟩ := bindCount_ok.1 h
  dsimp only [finish]
  refine Carries.mapLeaf ?_ rfl
  obtain ⟨rfl, rfl, -⟩ | ⟨predicate, rfl, hf⟩ := htarget
  · refine carries_of_adds hs fun wf => ?_
    exact .of_demoted wf (.refl wf.demoted)
  · refine carries_of_adds hs fun wf => ?_
    rw [callBodies, if_pos hm]
    exact adds_filter wf hf

theorem carries_element {limit : Nat} (hm : method ∈ predicateMethods)
    (h : (bindElement metadata method limit args).run n = .ok (query, m)) :
    Carries query.chain (predicateBodies metadata n (.call method args ty)) := by
  obtain ⟨source, chain, k, target, hs, htarget, rfl⟩ := bindElement_ok.1 h
  have hcarries : Carries target (predicateBodies metadata n (.call method args ty)) := by
    obtain ⟨rfl, rfl, -⟩ | ⟨predicate, rfl, hw⟩ := htarget
    · exact carries_of_adds hs fun wf => .refl wf
    · refine carries_of_adds hs fun wf => ?_
      rw [callBodies, if_pos hm]
      exact adds_where wf hw
  dsimp only [finish]
  split
  · exact hcarries
  · exact hcarries.mapLeaf (Resource.predicates_addOption_of_ne (by simp))

theorem carries_aggregate (hm : method ∉ predicateMethods)
    (h : (bindAggregate metadata method args ty).run n = .ok (query, m)) :
    Carries query.chain (predicateBodies metadata n (.call method args ty)) := by
  obtain ⟨source, selector, chain, k, rfl, hs, ⟨-, ha⟩, _, aggregation, -, -, hq⟩ :=
    bindAggregate_ok h
  have hnone := Resource.apply_eq_none (ha "GroupBy" (by simp))
  rw [hq]
  refine carries_of_adds hs fun wf => ?_
  rw [callBodies, if_neg hm]
  exact .of_demoted wf (adds_group wf.demoted (Resource.keyFilter_demoteKey _) hnone rfl)

end Terminal

theorem carries_bind {expr : Expr} (h : (bind metadata expr).run n = .ok (chain, m)) :
    Carries chain (predicateBodies metadata n expr) := by
  obtain ⟨wf, hp⟩ := bind_predicates h
  exact ⟨hp, wf.ancestors⟩

theorem carries_query {expr : Expr} {query : BoundQuery}
    (h : (bindQuery metadata expr).run n = .ok (query, m)) :
    Carries query.chain (predicateBodies metadata n expr) := by
  obtain ⟨chain, hc, rfl⟩ | ⟨method, args, ty, rfl, ⟨ht, h⟩ | ⟨limit, ht, h⟩ | ⟨ht, h⟩⟩ :=
    bindQuery_ok h
  · exact carries_bind hc
  · exact carries_count ((mem_predicateMethods_iff ht).2 (by simp)) h
  · exact carries_element ((mem_predicateMethods_iff ht).2 (by simp)) h
  · exact carries_aggregate (fun hm => (mem_predicateMethods_iff ht).1 hm rfl) h

/-- A bound query carries the predicates of its calls, each once and in the order of the calls, and
no option on a resource that its leaf is reached through. -/
theorem bindQuery_predicates {expr : Expr} {query : BoundQuery}
    (h : (bindQuery metadata expr).run n = .ok (query, m)) :
    query.chain.predicates.map Expr.withoutTargets =
        (predicateBodies metadata n expr).map Expr.withoutTargets ∧
      ∀ resource ∈ query.chain.ancestors,
        resource.isSingle = true ∧ resource.sequence = [] ∧ resource.projection = none ∧
          resource.apply = none ∧ resource.expand = [] ∧ resource.count = .none ∧
          resource.custom.entries = [] := by
  obtain ⟨hp, ha⟩ := carries_query h
  refine ⟨hp, fun resource hr => ?_⟩
  obtain ⟨hs, hnil⟩ := ha resource hr
  exact ⟨hs, Resource.applied_eq_nil.1 hnil⟩

/-- A service with orders and their lines. -/
def orders : Metadata :=
  ({ entitySets := [("Orders", "Order")]
     types := [
       ("Order", ⟨["Id"], [⟨"Id", .int32, false⟩, ⟨"Lines", .collection (.entity "Line"), true⟩]⟩),
       ("Line", ⟨["Id"], [⟨"Open", .bool, false⟩, ⟨"Paid", .bool, false⟩]⟩)] } : Model).metadata

/-- A lambda that reads a member of its parameter. -/
def reading (entity name : String) (ty : Ty) : Expr :=
  .lambda [⟨"it", .entity entity⟩] (.member (.parameter ⟨"it", .entity entity⟩) name ty)

/-- The number of open lines of one order that are paid. -/
def paidLines : Expr :=
  let order := .call "Where" [.root ⟨"Orders", .entity "Order", .entitySet⟩,
    .lambda [⟨"it", .entity "Order"⟩] (.binary .equal
      (.member (.parameter ⟨"it", .entity "Order"⟩) "Id" .int32) (.constant (.int32 7)))] .object
  let lines := .call "SelectMany" [order,
    reading "Order" "Lines" (.collection (.entity "Line"))] .object
  .call "Count" [.call "Where" [lines, reading "Line" "Open" .bool] .object,
    reading "Line" "Paid" .bool] .int32

theorem bindQuery_predicates_paidLines : ∃ query m,
    (bindQuery orders paidLines).run 0 = .ok (query, m) ∧
      query.chain.predicates.length = 3 ∧ query.chain.ancestors.length = 1 ∧
      query.chain.predicates.map Expr.withoutTargets =
        (predicateBodies orders 0 paidLines).map Expr.withoutTargets ∧
      ∀ resource ∈ query.chain.ancestors,
        resource.isSingle = true ∧ resource.sequence = [] ∧ resource.projection = none ∧
          resource.apply = none ∧ resource.expand = [] ∧ resource.count = .none ∧
          resource.custom.entries = [] :=
  ⟨_, _, rfl, rfl, rfl, bindQuery_predicates rfl⟩

end Binding

end ServiceQuery
