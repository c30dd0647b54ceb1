import ServiceQuery.Binding.Guard
import ServiceQuery.Binding.Key

/-!
# Laws of resources and their options

What a resource carries after an option, a key or a path to expand is added, and what it means that
an operator is not there.
-/

namespace ServiceQuery

namespace SequenceOption

@[simp]
theorem methodName_filter (predicates : List Expr) : (filter predicates).methodName = "Where" := rfl

@[simp]
theorem methodName_orderBy (selectors : List OrderSelector) :
    (orderBy selectors).methodName = "OrderBy" := rfl

@[simp]
theorem methodName_skip (count : Nat) : (skip count).methodName = "Skip" := rfl

@[simp]
theorem methodName_take (count : Nat) : (take count).methodName = "Take" := rfl

theorem sameKind_iff {a b : SequenceOption} :
    a.sameKind b = true ↔ a.methodName = b.methodName := by
  cases a <;> cases b <;> simp [sameKind]

theorem methodName_compose (next previous : SequenceOption) :
    (next.compose previous).methodName = next.methodName := by
  cases next <;> cases previous <;> rfl

/-- An added option keeps the kinds that are there, in their order, and comes last if it is of none
of them. -/
theorem map_methodName_insert (option : SequenceOption) (options : List SequenceOption) :
    (option.insert options).map methodName =
      if option.methodName ∈ options.map methodName then options.map methodName
      else options.map methodName ++ [option.methodName] := by
  induction options with
  | nil => simp [insert]
  | cons existing rest ih =>
    rw [insert]
    by_cases h : existing.sameKind option = true
    · have hn : existing.methodName = option.methodName := sameKind_iff.1 h
      simp [h, hn, methodName_compose]
    · have hn : option.methodName ≠ existing.methodName := fun he => h (sameKind_iff.2 he.symm)
      simp only [h, Bool.false_eq_true, if_false, List.map_cons, ih, List.mem_cons, hn, false_or]
      split <;> rfl

/-- Options of pairwise different kinds stay so. -/
theorem nodup_insert (option : SequenceOption) {options : List SequenceOption}
    (h : (options.map methodName).Nodup) : ((option.insert options).map methodName).Nodup := by
  rw [map_methodName_insert]
  split
  · exact h
  · next hn =>
    rw [List.nodup_append]
    refine ⟨h, by simp, fun a ha b hb => ?_⟩
    rw [List.mem_singleton.1 hb]
    exact fun he => hn (he ▸ ha)

theorem insert_ne_nil (option : SequenceOption) (options : List SequenceOption) :
    option.insert options ≠ [] := by
  cases options with
  | nil => exact List.cons_ne_nil _ _
  | cons existing rest =>
    rw [insert]
    split <;> exact List.cons_ne_nil _ _

/-- Filters that are added one after the other are joined. -/
theorem insert_filter_insert_filter (first second : List Expr) (options : List SequenceOption) :
    (filter second).insert ((filter first).insert options) =
      (filter (first ++ second)).insert options := by
  induction options with
  | nil => rfl
  | cons existing rest ih =>
    cases existing with
    | filter predicates => simp [insert, sameKind, compose]
    | _ => simp [insert, sameKind, ih]

/-- The predicates of a filter. -/
def predicates? : SequenceOption → Option (List Expr)
  | filter predicates => some predicates
  | _ => none

/-- The selectors of an ordering. -/
def selectors? : SequenceOption → Option (List OrderSelector)
  | orderBy selectors => some selectors
  | _ => none

/-- The count of a skip. -/
def skipped? : SequenceOption → Option Nat
  | skip count => some count
  | _ => none

/-- The count of a take. -/
def taken? : SequenceOption → Option Nat
  | take count => some count
  | _ => none

/-- A view that shows options of one kind only. -/
def Shows {α : Type} (view : SequenceOption → Option α) (kind : String) : Prop :=
  ∀ option : SequenceOption, option.methodName ≠ kind → view option = none

theorem shows_predicates : Shows predicates? "Where" := by
  intro option h
  cases option with
  | filter predicates => exact absurd rfl h
  | _ => rfl

theorem shows_selectors : Shows selectors? "OrderBy" := by
  intro option h
  cases option with
  | orderBy selectors => exact absurd rfl h
  | _ => rfl

theorem shows_skipped : Shows skipped? "Skip" := by
  intro option h
  cases option with
  | skip count => exact absurd rfl h
  | _ => rfl

theorem shows_taken : Shows taken? "Take" := by
  intro option h
  cases option with
  | take count => exact absurd rfl h
  | _ => rfl

section Insert

variable {α : Type} {view : SequenceOption → Option α} {option : SequenceOption}

/-- An added option changes nothing about another kind. -/
theorem findSome?_insert_of_ne {kind : String} (hv : Shows view kind)
    (h : option.methodName ≠ kind) (options : List SequenceOption) :
    (option.insert options).findSome? view = options.findSome? view := by
  induction options with
  | nil => simp [insert, hv option h]
  | cons existing rest ih =>
    rw [insert]
    split
    · next hk =>
      -- the option takes the place of one of its own kind, and the view shows neither
      have hcompose : view (option.compose existing) = none :=
        hv _ (by rw [methodName_compose]; exact h)
      have hexisting : view existing = none := hv _ (by rw [sameKind_iff.1 hk]; exact h)
      simp [hcompose, hexisting]
    · simp only [List.findSome?_cons, ih]

/-- Of its own kind an added option leaves itself, or itself after the one that is there. -/
theorem findSome?_insert_of_some (value : α) (combine : α → α) (hv : view option = some value)
    (hk : ∀ other old, view other = some old →
      other.sameKind option = true ∧ view (option.compose other) = some (combine old))
    (hn : ∀ other, view other = none → other.sameKind option = false)
    (options : List SequenceOption) :
    (option.insert options).findSome? view =
      some (((options.findSome? view).map combine).getD value) := by
  induction options with
  | nil => simp [insert, hv]
  | cons existing rest ih =>
    rw [insert]
    cases he : view existing with
    | none => simp [hn existing he, he, ih]
    | some old =>
      obtain ⟨hs, hc⟩ := hk existing old he
      simp [hs, he, hc]

end Insert

end SequenceOption

namespace Resource

open SequenceOption

variable (resource : Resource)

theorem filter?_eq : resource.filter? = resource.sequence.findSome? predicates? := rfl

theorem orderBy?_eq : resource.orderBy? = resource.sequence.findSome? selectors? := rfl

theorem skip?_eq : resource.skip? = resource.sequence.findSome? skipped? := rfl

theorem take?_eq : resource.take? = resource.sequence.findSome? taken? := rfl

/-- Predicates are joined. -/
theorem filter?_addOption (predicates : List Expr) :
    (resource.addOption (.filter predicates)).filter? =
      some (resource.filter?.getD [] ++ predicates) := by
  have h := findSome?_insert_of_some predicates (· ++ predicates)
    (show predicates? (.filter predicates) = some predicates from rfl)
    (fun other old ho => by cases other <;> simp_all [predicates?, sameKind, compose])
    (fun other ho => by cases other <;> simp_all [predicates?, sameKind]) resource.sequence
  rw [filter?_eq, filter?_eq, addOption, h]
  cases resource.sequence.findSome? predicates? <;> rfl

/-- A later ordering replaces an earlier one. -/
theorem orderBy?_addOption (selectors : List OrderSelector) :
    (resource.addOption (.orderBy selectors)).orderBy? = some selectors := by
  have h := findSome?_insert_of_some selectors (fun _ => selectors)
    (show selectors? (.orderBy selectors) = some selectors from rfl)
    (fun other old ho => by cases other <;> simp_all [selectors?, sameKind, compose])
    (fun other ho => by cases other <;> simp_all [selectors?, sameKind]) resource.sequence
  rw [orderBy?_eq, addOption, h]
  cases resource.sequence.findSome? selectors? <;> rfl

/-- Skipped counts are added up to the largest count. -/
theorem skip?_addOption (count : Nat) :
    (resource.addOption (.skip count)).skip? =
      some ((resource.skip?.map fun old => min (old + count) maxCount).getD count) :=
  findSome?_insert_of_some count (fun old => min (old + count) maxCount)
    (show skipped? (.skip count) = some count from rfl)
    (fun other old ho => by cases other <;> simp_all [skipped?, sameKind, compose])
    (fun other ho => by cases other <;> simp_all [skipped?, sameKind]) resource.sequence

/-- The smaller of two taken counts stays. -/
theorem take?_addOption (count : Nat) :
    (resource.addOption (.take count)).take? =
      some ((resource.take?.map fun old => min old count).getD count) :=
  findSome?_insert_of_some count (fun old => min old count)
    (show taken? (.take count) = some count from rfl)
    (fun other old ho => by cases other <;> simp_all [taken?, sameKind, compose])
    (fun other ho => by cases other <;> simp_all [taken?, sameKind]) resource.sequence

section Other

variable {resource} {option : SequenceOption}

theorem filter?_addOption_of_ne (h : option.methodName ≠ "Where") :
    (resource.addOption option).filter? = resource.filter? :=
  findSome?_insert_of_ne shows_predicates h resource.sequence

theorem orderBy?_addOption_of_ne (h : option.methodName ≠ "OrderBy") :
    (resource.addOption option).orderBy? = resource.orderBy? :=
  findSome?_insert_of_ne shows_selectors h resource.sequence

theorem skip?_addOption_of_ne (h : option.methodName ≠ "Skip") :
    (resource.addOption option).skip? = resource.skip? :=
  findSome?_insert_of_ne shows_skipped h resource.sequence

theorem take?_addOption_of_ne (h : option.methodName ≠ "Take") :
    (resource.addOption option).take? = resource.take? :=
  findSome?_insert_of_ne shows_taken h resource.sequence

end Other

section Applied

variable {resource}

theorem methodName_mem_applied {option : SequenceOption} (h : option ∈ resource.sequence) :
    option.methodName ∈ resource.applied := by
  simp only [applied, List.mem_append, List.mem_map]
  exact .inl (.inl (.inl (.inl (.inl ⟨option, h, rfl⟩))))

/-- An operator that was not applied leaves no option. -/
theorem findSome?_eq_none {α : Type} {view : SequenceOption → Option α} {kind : String}
    (hv : Shows view kind) (h : kind ∉ resource.applied) :
    resource.sequence.findSome? view = none := by
  rw [List.findSome?_eq_none_iff]
  intro option ho
  exact hv option fun he => h (he ▸ methodName_mem_applied ho)

theorem skip?_eq_none (h : "Skip" ∉ resource.applied) : resource.skip? = none :=
  findSome?_eq_none shows_skipped h

theorem take?_eq_none (h : "Take" ∉ resource.applied) : resource.take? = none :=
  findSome?_eq_none shows_taken h

theorem apply_eq_none (h : "GroupBy" ∉ resource.applied) : resource.apply = none := by
  cases ha : resource.apply with
  | none => rfl
  | some apply => simp [applied, ha] at h

/-- A resource that carries no operator carries no option. -/
theorem applied_eq_nil : resource.applied = [] ↔
    resource.sequence = [] ∧ resource.projection = none ∧ resource.apply = none ∧
      resource.expand = [] ∧ resource.count = .none ∧ resource.custom.entries = [] := by
  simp only [applied, List.append_eq_nil_iff, List.map_eq_nil_iff]
  cases resource.projection <;> cases resource.apply <;> simp [and_assoc]

end Applied

/-- A key changes nothing but how the resource is addressed. -/
theorem withKey_eq (resource : Resource) (key : List (String × Value)) :
    ∃ kind, resource.withKey key = { resource with kind := kind } := by
  rw [withKey]
  split
  · exact ⟨_, rfl⟩
  · exact ⟨resource.kind, rfl⟩

/-- A key that takes the place of a filter: the resource gets another number, and the predicate of
the key follows. -/
theorem renumber_withKeyFilter {resource : Resource} (hs : resource.sequence = [])
    (ha : resource.apply = none) (key : List (String × Value)) (predicate : Expr)
    (id : ResourceId) :
    (resource.withKeyFilter key predicate).renumber id =
      { resource with
        id := id
        kind := (resource.withKey key).kind
        keyFilter := some (predicate.retarget resource.id id) } := by
  obtain ⟨kind, hw⟩ := resource.withKey_eq key
  simp [renumber, withKeyFilter, hw, hs, ha]

theorem demoteKey_frame (resource : Resource) :
    resource.demoteKey.origin = resource.origin ∧
      resource.demoteKey.countSegment = resource.countSegment ∧
      resource.demoteKey.count = resource.count := by
  rw [demoteKey]
  split <;> exact ⟨rfl, rfl, rfl⟩

/-- A key that took the place of a filter, turned back: the resource keeps the new number. -/
theorem demoteKey_renumber_withKeyFilter {resource : Resource} (hs : resource.sequence = [])
    (ha : resource.apply = none) (hk : resource.keyFilter = none)
    (hc : resource.isSingle = false) (key : List (String × Value)) (predicate : Expr)
    (id : ResourceId) :
    ((resource.withKeyFilter key predicate).renumber id).demoteKey =
      { resource with id := id, sequence := [.filter [predicate.retarget resource.id id]] } := by
  have hkind : resource.kind = .set none := by
    rw [isSingle] at hc
    split at hc
    · next other hother =>
      rw [hother]
      simpa using hc
    · cases hc
  rw [renumber_withKeyFilter hs ha, demoteKey, withKey, hkind]
  simp [addOption, hs, hk, SequenceOption.insert]

theorem expand_prefix_addExpand (resource : Resource) (path : String) :
    resource.expand <+: (resource.addExpand path).expand := by
  rw [addExpand]
  split
  · exact List.prefix_rfl
  · exact List.prefix_append _ _

theorem mem_expand_addExpand {resource : Resource} {path other : String} :
    other ∈ (resource.addExpand path).expand ↔ other ∈ resource.expand ∨ other = path := by
  rw [addExpand]
  split
  · next hm =>
    refine ⟨.inl, ?_⟩
    rintro (h | rfl)
    · exact h
    · exact List.contains_iff_mem.1 hm
  · exact List.mem_append.trans (or_congr_right List.mem_singleton)

theorem nodup_expand_addExpand {resource : Resource} (h : resource.expand.Nodup) (path : String) :
    (resource.addExpand path).expand.Nodup := by
  rw [addExpand]
  split
  · exact h
  · next hm =>
    refine List.nodup_append.2 ⟨h, List.pairwise_singleton _ _, ?_⟩
    rintro other ho _ hp rfl
    exact hm (List.contains_iff_mem.2 (List.mem_singleton.1 hp ▸ ho))

/-- Paths to expand change nothing else. -/
theorem foldl_addExpand (paths : List String) (resource : Resource) :
    ∃ expand, paths.foldl addExpand resource = { resource with expand := expand } := by
  induction paths generalizing resource with
  | nil => exact ⟨resource.expand, rfl⟩
  | cons path rest ih =>
    obtain ⟨expand, h⟩ := ih (resource.addExpand path)
    refine ⟨expand, ?_⟩
    rw [List.foldl_cons, h, addExpand]
    split <;> rfl

end Resource

end ServiceQuery
