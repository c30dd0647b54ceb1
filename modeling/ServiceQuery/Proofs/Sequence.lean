import Mathlib.Algebra.GroupWithZero.Nat
import Mathlib.Data.List.Induction
import ServiceQuery.Proofs.Resource

/-!
# Sequence options added one after another

A resource holds at most one option of a kind. What is added later is merged with the option of its
kind that is there, in the place where that one stands. So a list of options leaves, for each kind,
one option that depends only on the options of this kind and their order.
-/

namespace ServiceQuery

namespace SequenceOption

/-- The counts of an option are numbers of 64 bits. -/
def Fits : SequenceOption → Prop
  | skip count | take count => count ≤ maxCount
  | _ => True

instance : DecidablePred Fits
  | skip count | take count => inferInstanceAs (Decidable (count ≤ maxCount))
  | filter _ | orderBy _ => inferInstanceAs (Decidable True)

/-- What options leave that are added in their order. -/
def merged (options : List SequenceOption) : List SequenceOption :=
  options.foldl (fun sequence option => option.insert sequence) []

theorem merged_append_singleton (options : List SequenceOption) (option : SequenceOption) :
    merged (options ++ [option]) = option.insert (merged options) := by
  rw [merged, List.foldl_append]
  rfl

/-! ### Kinds -/

/-- The kinds stand in the order of their first options. -/
theorem map_methodName_merged (options : List SequenceOption) :
    (merged options).map methodName = (options.map methodName).eraseDups := by
  induction options using List.reverseRecOn with
  | nil => rfl
  | append_singleton options option ih =>
    rw [merged_append_singleton, map_methodName_insert, ih, List.map_append, List.eraseDups_append,
      List.map_singleton]
    generalize options.map methodName = kinds
    generalize option.methodName = kind
    -- the last kind counts only if it has not occurred before
    by_cases hm : kind ∈ kinds
    · simp [List.removeAll, hm, List.mem_eraseDups]
    · simp [List.removeAll, hm, List.mem_eraseDups, List.eraseDups_cons]

/-- No two options are of one kind. -/
theorem pairwise_merged (options : List SequenceOption) :
    (merged options).Pairwise fun a b => a.sameKind b = false := by
  have hnodup : ((merged options).map methodName).Nodup := by
    induction options using List.reverseRecOn with
    | nil => exact List.nodup_nil
    | append_singleton options option ih =>
      rw [merged_append_singleton]
      exact nodup_insert option ih
  refine (List.pairwise_map.1 hnodup).imp fun {a b} hne => ?_
  rw [Bool.eq_false_iff]
  exact fun hs => hne (sameKind_iff.1 hs)

/-! ### The option of a kind -/

/-- Values put together from left to right, if there are any. -/
def reduce? {α : Type} (combine : α → α → α) : List α → Option α
  | [] => none
  | value :: values => some (values.foldl combine value)

theorem reduce?_append_singleton {α : Type} (combine : α → α → α) (values : List α) (value : α) :
    reduce? combine (values ++ [value]) = (reduce? combine values).merge combine (some value) := by
  cases values with
  | nil => rfl
  | cons first rest =>
    simp only [reduce?, List.cons_append, List.foldl_append, List.foldl_cons, List.foldl_nil,
      Option.merge]

/-- What a view shows after an option is added: what it shows of the option, combined with what it
shows before. -/
def MergesBy {α : Type} (view : SequenceOption → Option α) (combine : α → α → α) : Prop :=
  ∀ (option : SequenceOption) (options : List SequenceOption),
    (option.insert options).findSome? view = (options.findSome? view).merge combine (view option)

section MergesBy

variable {α : Type} {view : SequenceOption → Option α} {combine : α → α → α}

/-- A view of one kind follows the composition of two options. -/
theorem mergesBy_of_compose {kind : String} (hv : Shows view kind)
    (hk : ∀ option, option.methodName = kind → (view option).isSome = true)
    (hc : ∀ next previous new old, view next = some new → view previous = some old →
      view (next.compose previous) = some (combine old new)) :
    MergesBy view combine := by
  intro option options
  cases ho : view option with
  | none =>
    have hne : option.methodName ≠ kind := fun he => by simpa [ho] using hk option he
    rw [findSome?_insert_of_ne hv hne, Option.merge_none_right]
  | some new =>
    have kind_of_some {other : SequenceOption} {old : α} (h : view other = some old) :
        other.methodName = kind := by
      cases hd : decide (other.methodName = kind) with
      | true => exact of_decide_eq_true hd
      | false => cases h.symm.trans (hv other (of_decide_eq_false hd))
    have hkind : option.methodName = kind := kind_of_some ho
    rw [findSome?_insert_of_some new (combine · new) ho]
    · cases options.findSome? view <;> rfl
    · intro other old hold
      refine ⟨sameKind_iff.2 ?_, hc option other new old ho hold⟩
      rw [hkind, kind_of_some hold]
    · intro other hnone
      rw [Bool.eq_false_iff]
      intro hs
      have hsome := hk other (by rw [sameKind_iff.1 hs, hkind])
      simp [hnone] at hsome

/-- What is left of a kind: what the options show of it, put together in their order. -/
theorem MergesBy.findSome?_merged (h : MergesBy view combine) (options : List SequenceOption) :
    (merged options).findSome? view = reduce? combine (options.filterMap view) := by
  induction options using List.reverseRecOn with
  | nil => rfl
  | append_singleton options option ih =>
    rw [merged_append_singleton, h, ih, List.filterMap_append]
    cases ho : view option with
    | none => simp [ho]
    | some value => simp [ho, reduce?_append_singleton]

end MergesBy

theorem mergesBy_predicates : MergesBy predicates? (· ++ ·) := by
  refine mergesBy_of_compose shows_predicates ?_ ?_
  · intro option h
    cases option <;> simp_all [predicates?]
  · intro next previous new old hnext hprevious
    cases next <;> cases previous <;> simp_all [predicates?, compose]

theorem mergesBy_selectors : MergesBy selectors? fun _ new => new := by
  refine mergesBy_of_compose shows_selectors ?_ ?_
  · intro option h
    cases option <;> simp_all [selectors?]
  · intro next previous new old hnext hprevious
    cases next <;> cases previous <;> simp_all [selectors?, compose]

theorem mergesBy_skipped : MergesBy skipped? fun old new => min (old + new) maxCount := by
  refine mergesBy_of_compose shows_skipped ?_ ?_
  · intro option h
    cases option <;> simp_all [skipped?]
  · intro next previous new old hnext hprevious
    cases next <;> cases previous <;> simp_all [skipped?, compose]

theorem mergesBy_taken : MergesBy taken? min := by
  refine mergesBy_of_compose shows_taken ?_ ?_
  · intro option h
    cases option <;> simp_all [taken?]
  · intro next previous new old hnext hprevious
    cases next <;> cases previous <;> simp_all [taken?, compose]

theorem reduce?_append (lists : List (List Expr)) :
    reduce? (· ++ ·) lists = if lists.isEmpty then none else some lists.flatten := by
  induction lists using List.reverseRecOn with
  | nil => rfl
  | append_singleton lists last ih =>
    rw [reduce?_append_singleton, ih]
    cases lists <;> simp [Option.merge]

theorem reduce?_last (orders : List (List OrderSelector)) :
    reduce? (fun _ new => new) orders = orders.getLast? := by
  induction orders using List.reverseRecOn with
  | nil => rfl
  | append_singleton orders last ih =>
    rw [reduce?_append_singleton, ih]
    cases orders.getLast? <;> simp [Option.merge]

/-- Sums that are cut at the largest count are the sum of all, cut there once. -/
theorem reduce?_saturating {counts : List Nat} (h : ∀ count ∈ counts, count ≤ maxCount) :
    reduce? (fun old new => min (old + new) maxCount) counts =
      if counts.isEmpty then none else some (min maxCount counts.sum) := by
  induction counts using List.reverseRecOn with
  | nil => rfl
  | append_singleton counts last ih =>
    rw [List.forall_mem_append, List.forall_mem_singleton] at h
    rw [reduce?_append_singleton, ih h.1]
    cases counts with
    | nil => simp [Option.merge, Nat.min_eq_right h.2]
    | cons first rest =>
      have hcut : min (min maxCount (first + rest.sum) + last) maxCount =
          min maxCount (first + (rest.sum + last)) := by omega
      simpa [Option.merge] using hcut

end SequenceOption

namespace Resource

open SequenceOption

/-- A resource with options added in their order. -/
def addOptions (resource : Resource) (options : List SequenceOption) : Resource :=
  options.foldl addOption resource

/-- Added options change nothing else. -/
theorem addOptions_eq {resource : Resource} (h : resource.sequence = [])
    (options : List SequenceOption) :
    resource.addOptions options = { resource with sequence := merged options } := by
  induction options using List.reverseRecOn with
  | nil =>
    cases resource
    cases h
    rfl
  | append_singleton options option ih =>
    rw [addOptions, List.foldl_append, merged_append_singleton]
    rw [addOptions] at ih
    rw [ih]
    rfl

namespace Sample

/-- A constant as a predicate. -/
def predicate (value : Bool) : Expr := .constant (.bool value)

/-- An ordering by one member. -/
def orderedBy (name : String) : SequenceOption :=
  .orderBy [⟨.member (.parameter ⟨"p", .entity "Product"⟩) name .string, false⟩]

/-- Options of every kind in turns, with counts that add up to more than the largest one. -/
def interleaved : List SequenceOption :=
  [.take 10, .skip maxCount, .filter [predicate true], orderedBy "Name", .skip 3,
    .filter [], .filter [predicate false], .take 4, orderedBy "Color", .take 7]

end Sample

/-- Options that are added to a resource without options leave one option of each kind, in the order
of the first of each: all predicates in their order, the last ordering, the sum of what is skipped up
to the largest count and the smallest of what is taken. -/
theorem sequence_addOptions {resource : Resource} (hs : resource.sequence = [])
    {options : List SequenceOption} (hf : ∀ option ∈ options, option.Fits) :
    resource.addOptions options =
        { resource with sequence := (resource.addOptions options).sequence } ∧
      ((resource.addOptions options).sequence.Pairwise fun a b => a.sameKind b = false) ∧
      (resource.addOptions options).sequence.map methodName =
        (options.map methodName).eraseDups ∧
      (resource.addOptions options).filter? =
        (if (options.filterMap predicates?).isEmpty then none
        else some (options.filterMap predicates?).flatten) ∧
      (resource.addOptions options).orderBy? = (options.filterMap selectors?).getLast? ∧
      (resource.addOptions options).skip? =
        (if (options.filterMap skipped?).isEmpty then none
        else some (min maxCount (options.filterMap skipped?).sum)) ∧
      (resource.addOptions options).take? = (options.filterMap taken?).min? := by
  have hskipped : ∀ count ∈ options.filterMap skipped?, count ≤ maxCount := by
    intro count hm
    obtain ⟨option, ho, hshown⟩ := List.mem_filterMap.1 hm
    have hfits := hf option ho
    cases option with
    | skip other =>
      cases hshown
      exact hfits
    | _ => cases hshown
  rw [addOptions_eq hs, filter?_eq, orderBy?_eq, skip?_eq, take?_eq,
    mergesBy_predicates.findSome?_merged, mergesBy_selectors.findSome?_merged,
    mergesBy_skipped.findSome?_merged, mergesBy_taken.findSome?_merged,
    reduce?_append, reduce?_last, reduce?_saturating hskipped]
  refine ⟨rfl, pairwise_merged options, map_methodName_merged options, rfl, rfl, rfl, ?_⟩
  cases options.filterMap taken? <;> rfl

theorem sequence_addOptions_interleaved :
    (ofRoot 0 ⟨"Products", .entity "Product", .entitySet⟩).sequence = [] ∧
      (∀ option ∈ Sample.interleaved, option.Fits) ∧
      ((ofRoot 0 ⟨"Products", .entity "Product", .entitySet⟩).addOptions
          Sample.interleaved).sequence =
        [.take 4, .skip maxCount, .filter [Sample.predicate true, Sample.predicate false],
          Sample.orderedBy "Color"] ∧
      ((ofRoot 0 ⟨"Products", .entity "Product", .entitySet⟩).addOptions
          Sample.interleaved).skip? = some (min maxCount [maxCount, 3].sum) ∧
      ((ofRoot 0 ⟨"Products", .entity "Product", .entitySet⟩).addOptions
          Sample.interleaved).take? = [10, 4, 7].min? := by
  have hs : (ofRoot 0 ⟨"Products", .entity "Product", .entitySet⟩).sequence = [] := rfl
  have hf : ∀ option ∈ Sample.interleaved, option.Fits := by decide
  obtain ⟨-, -, -, -, -, hskip, htake⟩ := sequence_addOptions hs hf
  exact ⟨hs, hf, rfl, hskip, htake⟩

end Resource

end ServiceQuery
