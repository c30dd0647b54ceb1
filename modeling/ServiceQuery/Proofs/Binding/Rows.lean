import Mathlib.Data.Nat.Basic
import ServiceQuery.Proofs.Binding.Predicates
import ServiceQuery.Proofs.Rows

/-!
# Rows of a bound query

Operators that filter, order and cut a set are folded into one resource, whose options are applied
in a fixed order. The rows are the ones that the operators give one after the other.
-/

namespace ServiceQuery

/-- The rows that the options of a resource leave: filtered, then sorted, then cut at the front,
then cut at the end. A key that was found in a predicate is read as that predicate. -/
def Resource.rows {Row Key : Type} [LinearOrder Key] (I : Interpretation Row Key)
    (resource : Resource) (rows : List Row) : List Row :=
  let filtered := rows.filter (I.all resource.predicates)
  let sorted := I.sort (resource.orderBy?.getD []) filtered
  let rest := sorted.drop (resource.skip?.getD 0)
  match resource.take? with
  | some count => rest.take count
  | none => rest

/-- The body of a lambda over the elements of a root. -/
def ResourceRoot.boundBody (root : ResourceRoot) (param : Param) (body : Expr) : Expr :=
  (⟨.ofRoot 0 root, []⟩ : Chain).bindInput param.name body

/-- The expression is a chain of calls on a set that filter, order or cut it, and the options are
those of the calls in call order. There is one ordering at most, and further keys follow it at once
and belong to it. -/
inductive OptionChain (root : ResourceRoot) : Expr → List SequenceOption → Prop
  | root : OptionChain root (.root root) []
  | filter {source options param body ty} (before : OptionChain root source options) :
    OptionChain root (.call "Where" [source, .lambda [param] body] ty)
      (options ++ [.filter [root.boundBody param body]])
  | orderBy {source options param body ty} (before : OptionChain root source options)
    (first : ∀ option ∈ options, option.methodName ≠ "OrderBy") (descending : Bool) :
    OptionChain root
      (.call (if descending then "OrderByDescending" else "OrderBy")
        [source, .lambda [param] body] ty)
      (options ++ [.orderBy [⟨root.boundBody param body, descending⟩]])
  | thenBy {source options selectors param body ty}
    (before : OptionChain root source (options ++ [.orderBy selectors])) (descending : Bool) :
    OptionChain root
      (.call (if descending then "ThenByDescending" else "ThenBy")
        [source, .lambda [param] body] ty)
      (options ++ [.orderBy (selectors ++ [⟨root.boundBody param body, descending⟩])])
  | skip {source options value ty} (before : OptionChain root source options) (count : Nat)
    (counts : value.integer? = some (count : Int)) :
    OptionChain root (.call "Skip" [source, .constant value] ty) (options ++ [.skip count])
  | take {source options value ty} (before : OptionChain root source options) (count : Nat)
    (counts : value.integer? = some (count : Int)) :
    OptionChain root (.call "Take" [source, .constant value] ty) (options ++ [.take count])

/-- Two resources with the same rows, to which the same operators may be applied. -/
structure Resource.Agrees (a b : Resource) : Prop where
  scope : a.scope = b.scope
  elementType : a.elementType = b.elementType
  apply : a.apply = b.apply
  projection : a.projection = b.projection
  predicates : a.predicates.map Expr.withoutTargets = b.predicates.map Expr.withoutTargets
  orderBy? : a.orderBy? = b.orderBy?
  skip? : a.skip? = b.skip?
  take? : a.take? = b.take?

namespace Resource

variable {resource : Resource}

/-- A key that became a filter again changes no other option. -/
theorem agrees_demoteKey
    (h : resource.keyFilter.isSome = true → resource.sequence = [] ∧ resource.apply = none) :
    resource.demoteKey.Agrees resource := by
  have hp := predicates_demoteKey h
  cases hk : resource.keyFilter with
  | none =>
    rw [demoteKey_of_none hk]
    exact ⟨rfl, rfl, rfl, rfl, rfl, rfl, rfl, rfl⟩
  | some predicate =>
    refine ⟨?_, ?_, ?_, ?_, by rw [hp], ?_, ?_, ?_⟩ <;> rw [demoteKey, hk]
    · rfl
    · rfl
    · rfl
    · rfl
    · exact orderBy?_addOption_of_ne (by simp)
    · exact skip?_addOption_of_ne (by simp)
    · exact take?_addOption_of_ne (by simp)

/-- A key in place of a filter on a resource without options. -/
theorem agrees_withKeyFilter (hs : resource.sequence = []) (ha : resource.apply = none)
    (hk : resource.keyFilter = none) (key : List (String × Value)) (predicate : Expr)
    (id : ResourceId) :
    ((resource.withKeyFilter key predicate).renumber id).Agrees
      (resource.addOption (.filter [predicate])) := by
  obtain ⟨kind, hw⟩ := resource.withKey_eq key
  have hadd : (resource.addOption (.filter [predicate])).sequence = [.filter [predicate]] := by
    rw [addOption, hs]
    rfl
  refine ⟨?_, ?_, ?_, ?_, ?_, ?_, ?_, ?_⟩
  · simp [renumber, withKeyFilter, hw, addOption]
  · simp [renumber, withKeyFilter, hw, addOption]
  · simp [renumber, withKeyFilter, hw, addOption, ha]
  · simp [renumber, withKeyFilter, hw, addOption]
  · rw [predicates_withKeyFilter hs ha, predicates_addOption_filter hk ha,
      predicates_eq_nil hs ha hk]
    rfl
  · simp [orderBy?_eq, hadd, renumber, withKeyFilter, hw, hs, SequenceOption.selectors?]
  · simp [skip?_eq, hadd, renumber, withKeyFilter, hw, hs, SequenceOption.skipped?]
  · simp [take?_eq, hadd, renumber, withKeyFilter, hw, hs, SequenceOption.taken?]

end Resource

namespace Interpretation

variable {Row Key : Type} [LinearOrder Key] {I : Interpretation Row Key}

variable (I) in
/-- What holds of a resource that a chain of calls with the given options is bound to. An ordering
that comes last sorts what the filters leave, and further keys may be added to it. -/
structure Reads (root : ResourceRoot) (rows : List Row) (options : List SequenceOption)
    (leaf : Resource) : Prop where
  scope : leaf.scope = none
  elementType : leaf.elementType = root.elementType
  apply : leaf.apply = none
  projection : leaf.projection = none
  rows_eq : leaf.rows I rows = I.run options rows
  unordered : (∀ option ∈ options, option.methodName ≠ "OrderBy") → leaf.orderBy? = none
  ordered : ∀ before selectors, options = before ++ [.orderBy selectors] →
    I.run before rows = rows.filter (I.all leaf.predicates) ∧
      ∃ found, leaf.orderBy? = some found ∧
        found.map OrderSelector.withoutTargets = selectors.map OrderSelector.withoutTargets

variable {root : ResourceRoot} {rows : List Row} {options : List SequenceOption}
  {leaf other : Resource}

/-- The rows of a resource that is not cut. -/
theorem rows_of_uncut (hskip : leaf.skip? = none) (htake : leaf.take? = none) :
    leaf.rows I rows =
      I.sort (leaf.orderBy?.getD []) (rows.filter (I.all leaf.predicates)) := by
  simp [Resource.rows, hskip, htake]

theorem uncut (h : leaf.Admits ["Skip", "Take", "Select", "GroupBy"]) :
    leaf.skip? = none ∧ leaf.take? = none :=
  ⟨Resource.skip?_eq_none (h.2 "Skip" (by simp)), Resource.take?_eq_none (h.2 "Take" (by simp))⟩

theorem uncut_addOption (h : leaf.Admits ["Skip", "Take", "Select", "GroupBy"])
    {option : SequenceOption} (hskip : option.methodName ≠ "Skip")
    (htake : option.methodName ≠ "Take") :
    (leaf.addOption option).skip? = none ∧ (leaf.addOption option).take? = none := by
  rw [Resource.skip?_addOption_of_ne hskip, Resource.take?_addOption_of_ne htake]
  exact uncut h

namespace Reads

theorem of_agrees (h : I.Reads root rows options leaf) (ha : other.Agrees leaf) :
    I.Reads root rows options other where
  scope := ha.scope.trans h.scope
  elementType := ha.elementType.trans h.elementType
  apply := ha.apply.trans h.apply
  projection := ha.projection.trans h.projection
  rows_eq := by
    rw [← h.rows_eq, Resource.rows, Resource.rows, I.all_congr ha.predicates, ha.orderBy?, ha.skip?,
      ha.take?]
  unordered := by rw [ha.orderBy?]; exact h.unordered
  ordered := by rw [I.all_congr ha.predicates, ha.orderBy?]; exact h.ordered

theorem ofRoot (id : ResourceId) : I.Reads root rows [] (.ofRoot id root) where
  scope := rfl
  elementType := rfl
  apply := rfl
  projection := rfl
  rows_eq := by
    rw [rows_of_uncut rfl rfl]
    exact (I.sort_nil _).trans (List.filter_eq_self.2 fun _ _ => rfl)
  unordered := fun _ => rfl
  ordered := fun before selectors h => by simp at h

/-- An option that is no ordering leaves the ordering as it is. -/
theorem addUnordered (h : I.Reads root rows options leaf) {option applied : SequenceOption}
    (hoption : option.methodName ≠ "OrderBy") (happlied : applied.methodName ≠ "OrderBy")
    (hrows : (leaf.addOption option).rows I rows = I.apply (leaf.rows I rows) applied) :
    I.Reads root rows (options ++ [applied]) (leaf.addOption option) where
  scope := h.scope
  elementType := h.elementType
  apply := h.apply
  projection := h.projection
  rows_eq := by rw [hrows, h.rows_eq, I.run_concat]
  unordered := by
    intro hall
    rw [Resource.orderBy?_addOption_of_ne hoption]
    exact h.unordered fun other ho => hall other (List.mem_append_left _ ho)
  ordered := by
    intro before selectors he
    obtain rfl : applied = .orderBy selectors := by simpa using List.append_inj_right' he rfl
    exact absurd rfl happlied

/-- A filter comes before the cuts, and it may be done before the ordering. -/
theorem addFilter (h : I.Reads root rows options leaf) (hk : leaf.keyFilter = none)
    (hl : leaf.Admits ["Skip", "Take", "Select", "GroupBy"]) {bound predicate : Expr}
    (hb : bound.withoutTargets = predicate.withoutTargets) :
    I.Reads root rows (options ++ [.filter [predicate]]) (leaf.addOption (.filter [bound])) := by
  obtain ⟨hskip, htake⟩ := uncut hl
  refine h.addUnordered (by simp) (by simp) ?_
  obtain ⟨hskip', htake'⟩ : (leaf.addOption (.filter [bound])).skip? = none ∧ _ :=
    uncut_addOption hl (by simp) (by simp)
  have hp : I.all [bound] = I.all [predicate] := I.all_congr (by simp [hb])
  have hall : I.all (leaf.predicates ++ [bound]) =
      fun row => I.all [predicate] row && I.all leaf.predicates row := by
    funext row
    rw [I.all_append, hp, Bool.and_comm]
  rw [rows_of_uncut hskip htake, rows_of_uncut hskip' htake',
    Resource.orderBy?_addOption_of_ne (by simp),
    Resource.predicates_addOption_filter hk h.apply, hall, ← List.filter_filter]
  exact (I.filter_sort _ _ _).symm

/-- Skipped counts are added. No more rows than the largest count can be skipped. -/
theorem addSkip (h : I.Reads root rows options leaf) (hl : leaf.Admits ["Take"])
    (hlen : rows.length < UInt64.size) (count : Nat) :
    I.Reads root rows (options ++ [.skip count]) (leaf.addOption (.skip count)) := by
  refine h.addUnordered (by simp) (by simp) ?_
  have htake := Resource.take?_eq_none (hl.2 "Take" (by simp))
  have htake' : (leaf.addOption (.skip count)).take? = none := by
    rwa [Resource.take?_addOption_of_ne (by simp)]
  rw [Resource.rows, Resource.rows, htake, htake', Interpretation.apply,
    Resource.predicates_addOption_of_ne (by simp),
    Resource.orderBy?_addOption_of_ne (by simp),
    Resource.skip?_addOption]
  have hsorted : (I.sort (leaf.orderBy?.getD []) (rows.filter (I.all leaf.predicates))).length ≤
      SequenceOption.maxCount := by
    rw [I.length_sort]
    have := List.length_filter_le (I.all leaf.predicates) rows
    unfold SequenceOption.maxCount
    omega
  cases leaf.skip? with
  | none => simp
  | some old =>
    simp only [Option.map_some, Option.getD_some, List.drop_drop]
    by_cases hmax : old + count ≤ SequenceOption.maxCount
    · rw [Nat.min_eq_left hmax]
    · rw [List.drop_eq_nil_of_le (by omega), List.drop_eq_nil_of_le (by omega)]

/-- The smaller of two taken counts decides. -/
theorem addTake (h : I.Reads root rows options leaf) (count : Nat) :
    I.Reads root rows (options ++ [.take count]) (leaf.addOption (.take count)) := by
  refine h.addUnordered (by simp) (by simp) ?_
  rw [Resource.rows, Resource.rows, Interpretation.apply,
    Resource.predicates_addOption_of_ne (by simp),
    Resource.orderBy?_addOption_of_ne (by simp),
    Resource.skip?_addOption_of_ne (by simp),
    Resource.take?_addOption]
  cases leaf.take? with
  | none => rfl
  | some old =>
    simp only [Option.map_some, Option.getD_some, List.take_take]
    rw [Nat.min_comm]

/-- An ordering sorts what the filters leave. -/
theorem sorted (h : I.Reads root rows options leaf)
    (hl : leaf.Admits ["Skip", "Take", "Select", "GroupBy"]) {before : List SequenceOption}
    (hbefore : I.run before rows = rows.filter (I.all leaf.predicates))
    {found selectors : List OrderSelector}
    (hs : found.map OrderSelector.withoutTargets = selectors.map OrderSelector.withoutTargets) :
    I.Reads root rows (before ++ [.orderBy selectors]) (leaf.addOption (.orderBy found)) where
  scope := h.scope
  elementType := h.elementType
  apply := h.apply
  projection := h.projection
  rows_eq := by
    obtain ⟨hskip, htake⟩ : (leaf.addOption (.orderBy found)).skip? = none ∧ _ :=
      uncut_addOption hl (by simp) (by simp)
    rw [I.run_concat, hbefore, rows_of_uncut hskip htake, Resource.orderBy?_addOption,
      Resource.predicates_addOption_of_ne (by simp), Option.getD_some]
    rw [sort, I.le_congr hs]
    rfl
  unordered := fun hall => absurd rfl (hall (.orderBy selectors) (by simp))
  ordered := by
    intro before' selectors' he
    obtain ⟨rfl, hlast⟩ := List.append_inj' he rfl
    obtain rfl : selectors = selectors' := by simpa using hlast
    rw [Resource.predicates_addOption_of_ne (by simp)]
    exact ⟨hbefore, found, Resource.orderBy?_addOption _ found, hs⟩

/-- A first ordering. -/
theorem addOrderBy (h : I.Reads root rows options leaf)
    (hl : leaf.Admits ["Skip", "Take", "Select", "GroupBy"])
    (first : ∀ option ∈ options, option.methodName ≠ "OrderBy") {bound key : Expr}
    {descending : Bool} (hb : bound.withoutTargets = key.withoutTargets) :
    I.Reads root rows (options ++ [.orderBy [⟨key, descending⟩]])
      (leaf.addOption (.orderBy [⟨bound, descending⟩])) := by
  obtain ⟨hskip, htake⟩ := uncut hl
  refine h.sorted hl ?_ (by simp [OrderSelector.withoutTargets, hb])
  rw [← h.rows_eq, rows_of_uncut hskip htake, h.unordered first, Option.getD_none, I.sort_nil]

/-- A further key of an ordering that comes last. -/
theorem addThenBy {selectors found : List OrderSelector}
    (h : I.Reads root rows (options ++ [.orderBy selectors]) leaf)
    (hl : leaf.Admits ["Skip", "Take", "Select", "GroupBy"]) (hf : leaf.orderBy? = some found)
    {bound key : Expr} {descending : Bool} (hb : bound.withoutTargets = key.withoutTargets) :
    I.Reads root rows (options ++ [.orderBy (selectors ++ [⟨key, descending⟩])])
      (leaf.addOption (.orderBy (found ++ [⟨bound, descending⟩]))) := by
  obtain ⟨hbefore, found', hf', hs⟩ := h.ordered options selectors rfl
  obtain rfl : found = found' := Option.some.inj (hf.symm.trans hf')
  refine h.sorted hl hbefore ?_
  rw [List.map_append, List.map_append, hs]
  simp [OrderSelector.withoutTargets, hb]

end Reads

end Interpretation

namespace Binding

variable {Row Key : Type} [LinearOrder Key] {metadata : Metadata} {root : ResourceRoot}
  {chain chain' : Chain} {n m : ResourceId}

/-- A body that is bound over a chain without scopes is bound as over the root. -/
theorem withoutTargets_of_binds {param : Param} {body bound : Expr} (hs : chain.leaf.scope = none)
    (ht : chain.leaf.elementType = root.elementType)
    (h : chain.Binds (.lambda [param] body) bound) :
    bound.withoutTargets = (root.boundBody param body).withoutTargets := by
  obtain ⟨param', body', he, -, rfl⟩ := h
  simp only [Expr.lambda.injEq, List.cons.injEq, and_true] at he
  obtain ⟨rfl, rfl⟩ := he
  exact (Chain.matches_of_scope_eq_none hs rfl ht).withoutTargets_bindInput param.name body

section Rows

variable {I : Interpretation Row Key} {rows : List Row} {options : List SequenceOption}

/-- A call is bound over the chain of its source with a key turned back into a filter. -/
theorem reads_source {method : String} {source : Expr} {args : List Expr} {ty : Ty}
    (operator : Operator)
    (ih : ∀ {chain : Chain} {m : ResourceId}, (bind metadata source).run n = .ok (chain, m) →
      chain.ancestors = [] ∧ I.Reads root rows options chain.leaf)
    (ho : Operator.ofCall? method args = some operator)
    (h : (bind metadata (.call method (source :: args) ty)).run n = .ok (chain', m)) :
    ∃ chain k, chain.demoted.ancestors = [] ∧ I.Reads root rows options chain.demoted.leaf ∧
      chain.demoted.leaf.keyFilter = none ∧
      (step metadata chain operator).run k = .ok (chain', m) := by
  obtain ⟨chain, k, operator', hs, -, ho', h⟩ := bind_call_ok h
  obtain rfl : operator = operator' := Option.some.inj (ho.symm.trans ho')
  obtain ⟨hnil, hreads⟩ := ih hs
  have wf := (bind_predicates hs).1
  exact ⟨chain, k, hnil, hreads.of_agrees (Resource.agrees_demoteKey wf.key),
    Resource.keyFilter_demoteKey _, h⟩

/-- A chain of calls is bound to one resource with its rows. -/
theorem bind_reads {expr : Expr} (hc : OptionChain root expr options)
    (hlen : rows.length < UInt64.size) (h : (bind metadata expr).run n = .ok (chain, m)) :
    chain.ancestors = [] ∧ I.Reads root rows options chain.leaf := by
  induction hc generalizing chain m with
  | root =>
    rw [bind] at h
    obtain ⟨rfl, -⟩ := bindRoot_ok h
    exact ⟨rfl, .ofRoot n⟩
  | filter before ih =>
    obtain ⟨source, k, hnil, hr, hk, h⟩ := reads_source _ ih rfl h
    obtain ⟨hl, bound, hb, h⟩ := bindWhere_ok.1 h
    have hadd := hr.addFilter hk hl (withoutTargets_of_binds hr.scope hr.elementType hb)
    obtain ⟨key, hkey, rfl, -⟩ | ⟨-, rfl, -⟩ := h
    · obtain ⟨hs, -, ha⟩ := keyIn_some hkey
      exact ⟨hnil, hadd.of_agrees (Resource.agrees_withKeyFilter hs ha hk key bound k)⟩
    · exact ⟨hnil, hadd⟩
  | orderBy before first descending ih =>
    obtain ⟨source, k, hnil, hr, hk, h⟩ :=
      reads_source (.orderBy _ descending) ih (by cases descending <;> rfl) h
    obtain ⟨hl, bound, hb, rfl, -⟩ := bindOrderBy_ok.1 h
    exact ⟨hnil, hr.addOrderBy hl first (withoutTargets_of_binds hr.scope hr.elementType hb)⟩
  | thenBy before descending ih =>
    obtain ⟨source, k, hnil, hr, hk, h⟩ :=
      reads_source (.thenBy _ descending) ih (by cases descending <;> rfl) h
    obtain ⟨hl, bound, found, hb, hf, rfl, -⟩ := bindThenBy_ok.1 h
    exact ⟨hnil, hr.addThenBy hl hf (withoutTargets_of_binds hr.scope hr.elementType hb)⟩
  | skip before count counts ih =>
    obtain ⟨source, k, hnil, hr, hk, h⟩ := reads_source _ ih rfl h
    obtain ⟨hl, bound, hcount, rfl, -⟩ := bindSkip_ok.1 h
    obtain rfl := Int.ofNat.inj (Option.some.inj (hcount.symm.trans counts))
    exact ⟨hnil, hr.addSkip hl hlen bound⟩
  | take before count counts ih =>
    obtain ⟨source, k, hnil, hr, hk, h⟩ := reads_source _ ih rfl h
    obtain ⟨-, bound, hcount, rfl, -⟩ := bindTake_ok.1 h
    obtain rfl := Int.ofNat.inj (Option.some.inj (hcount.symm.trans counts))
    exact ⟨hnil, hr.addTake bound⟩

/-- The one resource that a chain of calls on a set is bound to has the rows that the calls leave
one after the other. -/
theorem bind_rows (I : Interpretation Row Key) {expr : Expr} (hc : OptionChain root expr options)
    (h : (bind metadata expr).run n = .ok (chain, m)) (rows : List Row)
    (hlen : rows.length < UInt64.size) :
    chain.ancestors = [] ∧ chain.leaf.apply = none ∧ chain.leaf.projection = none ∧
      chain.leaf.rows I rows = I.run options rows := by
  obtain ⟨hnil, hr⟩ := bind_reads (I := I) hc hlen h
  exact ⟨hnil, hr.apply, hr.projection, hr.rows_eq⟩

end Rows

/-- Rows with numbers for the members of their elements. A comparison holds of the rows with that
number, and a member alone of the rows where it is not zero. -/
def byMember : Interpretation (List (String × Nat)) Nat where
  holds expr row :=
    match expr.withoutTargets with
    | .binary .equal (.member _ name _) (.constant (.int32 value)) =>
      row.lookup name == some value.toNatClampNeg
    | .member _ name _ => row.lookup name != some 0
    | _ => false
  key expr row :=
    match expr.withoutTargets with
    | .member _ name _ => (row.lookup name).getD 0
    | _ => 0
  holds_congr h := by rw [h]
  key_congr h := by rw [h]

/-- Rows of which some are no open orders with the number 7 and two are apart by their second key
only. -/
def orderRows : List (List (String × Nat)) := [
  [("Id", 7), ("Open", 1), ("Total", 3), ("Age", 1)],
  [("Id", 7), ("Open", 0), ("Total", 9), ("Age", 1)],
  [("Id", 7), ("Open", 1), ("Total", 8), ("Age", 2)],
  [("Id", 8), ("Open", 1), ("Total", 5), ("Age", 1)],
  [("Id", 7), ("Open", 1), ("Total", 8), ("Age", 0)],
  [("Id", 7), ("Open", 1), ("Total", 2), ("Age", 1)]]

/-- A predicate that gives a key, a second one, an ordering by two keys and two cuts. -/
def openOrders : Expr :=
  let byId := .lambda [⟨"it", .entity "Order"⟩] (.binary .equal
    (.member (.parameter ⟨"it", .entity "Order"⟩) "Id" .int32) (.constant (.int32 7)))
  let orders := .call "Where" [.root ⟨"Orders", .entity "Order", .entitySet⟩, byId] .object
  let opened := .call "Where" [orders, reading "Order" "Open" .bool] .object
  let ordered := .call "OrderByDescending" [opened, reading "Order" "Total" .int32] .object
  let ordered := .call "ThenBy" [ordered, reading "Order" "Age" .int32] .object
  let rest := .call "Skip" [ordered, .constant (.int32 1)] .object
  .call "Take" [rest, .constant (.int64 2)] .object

/-- The options of the calls of `openOrders`. -/
def openOptions : List SequenceOption :=
  let read (name : String) (ty : Ty) := Expr.member (.input ⟨0, .entity "Order"⟩) name ty
  [.filter [.binary .equal (read "Id" .int32) (.constant (.int32 7))],
    .filter [read "Open" .bool],
    .orderBy [⟨read "Total" .int32, true⟩, ⟨read "Age" .int32, false⟩],
    .skip 1, .take 2]

theorem optionChain_openOrders :
    OptionChain ⟨"Orders", .entity "Order", .entitySet⟩ openOrders openOptions := by
  have hc : OptionChain ⟨"Orders", .entity "Order", .entitySet⟩ openOrders _ :=
    .take (.skip (.thenBy (.orderBy (.filter (.filter .root)) (by simp) true) false) 1 rfl) 2 rfl
  exact hc

theorem bind_rows_openOrders : ∃ chain m,
    (bind orders openOrders).run 0 = .ok (chain, m) ∧
      chain.ancestors = [] ∧ chain.leaf.apply = none ∧ chain.leaf.projection = none ∧
      chain.leaf.rows byMember orderRows = byMember.run openOptions orderRows := by
  obtain ⟨chain, m, h⟩ : ∃ chain m, (bind orders openOrders).run 0 = .ok (chain, m) := ⟨_, _, rfl⟩
  exact ⟨chain, m, h, bind_rows byMember optionChain_openOrders h orderRows (by decide)⟩

example : (byMember.run openOptions orderRows).map (·.lookup "Total") = [some 8, some 3] := by
  cbv

end Binding

end ServiceQuery
