import Mathlib.Data.List.Nodup
import ServiceQuery.Proofs.Grouping

/-!
# The names of aggregations

A result selector adds one aggregation for each call over the group that can be lifted. A call that
is a member of the construction has the name of that member, and any other call has a label made of
its method and the property that it reads last. Labels tell these two apart, so that names are
shared only where the calls agree in them, where a member is called like a label, or where a member
is the same as two calls.
-/

namespace ServiceQuery.Grouping

/-! ### Steps that succeed -/

section Steps

variable {α β : Type} {apply added : Apply}

theorem run_bind_eq_ok {x : ApplyM α} {f : α → ApplyM β} {b : β} :
    (x >>= f).run.run apply = (.ok b, added) ↔
      ∃ a between, x.run.run apply = (.ok a, between) ∧
        (f a).run.run between = (.ok b, added) := by
  rw [ExceptT.run_bind, StateT.run_bind]
  cases hx : x.run.run apply with
  | mk outcome between =>
    cases outcome with
    | ok a =>
      constructor
      · intro h
        exact ⟨a, between, rfl, h⟩
      · rintro ⟨a, between, heq, h⟩
        cases heq
        exact h
    | error e =>
      constructor
      · intro h
        cases h
      · rintro ⟨a, between, heq, -⟩
        cases heq

theorem run_lift_eq_ok {x : Except CompileError α} {a : α} :
    (liftM x : ApplyM α).run.run apply = (.ok a, added) ↔ x = .ok a ∧ apply = added := by
  have hrun : (liftM x : ApplyM α).run.run apply = (x, apply) := by
    cases x <;> rfl
  rw [hrun, Prod.mk.injEq]

theorem run_get_eq_ok {between : Apply} :
    (get : ApplyM Apply).run.run apply = (.ok between, added) ↔
      apply = between ∧ apply = added := by
  have hrun : (get : ApplyM Apply).run.run apply = (.ok apply, apply) := rfl
  rw [hrun, Prod.mk.injEq, Except.ok.injEq]

theorem run_modify_eq_ok {f : Apply → Apply} :
    (modify f : ApplyM Unit).run.run apply = (.ok (), added) ↔ f apply = added := by
  have hrun : (modify f : ApplyM Unit).run.run apply = (.ok (), f apply) := rfl
  rw [hrun, Prod.mk.injEq, and_iff_right rfl]

/-- Steps of which each records something under a condition do so one after the other, if all of the
conditions hold. -/
theorem run_forM_iff {step : α → ApplyM Unit} {P : α → Prop} {record : Apply → α → Apply}
    (hstep : ∀ a apply added, (step a).run.run apply = (.ok (), added) ↔
      P a ∧ added = record apply a) {as : List α} :
    (as.forM step).run.run apply = (.ok (), added) ↔
      (∀ a ∈ as, P a) ∧ added = as.foldl record apply := by
  induction as generalizing apply with
  | nil =>
    have hrun : (([] : List α).forM step).run.run apply = (.ok (), apply) := rfl
    rw [hrun, Prod.mk.injEq, eq_comm (a := apply)]
    simp
  | cons a as ih =>
    have hcons : (a :: as).forM step = step a >>= fun _ => as.forM step := rfl
    rw [hcons, run_bind_eq_ok, List.forall_mem_cons, List.foldl_cons]
    constructor
    · rintro ⟨_, between, ha, has⟩
      obtain ⟨hp, rfl⟩ := (hstep a apply between).1 ha
      obtain ⟨hall, rfl⟩ := ih.1 has
      exact ⟨⟨hp, hall⟩, rfl⟩
    · rintro ⟨⟨hp, hall⟩, rfl⟩
      exact ⟨(), record apply a, (hstep a apply _).2 ⟨hp, rfl⟩, ih.2 ⟨hall, rfl⟩⟩

/-- Steps that add to the aggregations alone do so one after the other. -/
theorem run_forM {step : Expr → ApplyM Unit} (found : Expr → Option Aggregation)
    (hstep : ∀ call before added,
      (step call).run.run { apply with aggregations := before } = (.ok (), added) →
        added = { apply with aggregations := before ++ (found call).toList })
    {calls : List Expr} {before : List Aggregation}
    (h : (calls.forM step).run.run { apply with aggregations := before } = (.ok (), added)) :
    added = { apply with aggregations := before ++ calls.filterMap found } := by
  induction calls generalizing before with
  | nil =>
    cases h
    simp
  | cons call calls ih =>
    obtain ⟨_, between, hcall, hrest⟩ := run_bind_eq_ok.1 h
    obtain rfl := hstep call before between hcall
    rw [ih hrest, List.append_assoc]
    cases hfound : found call <;> simp [hfound]

end Steps

/-! ### Lifted calls -/

section Lifted

variable {chain : Chain} {apply added : Apply} {result : Lambda} {group : String}

/-- The calls over the group that are lifted, with the aggregations that they stand for, under names
that are derived from them. -/
def liftedCalls (chain : Chain) (apply : Apply) (group : String) (expr : Expr) :
    List (Expr × Aggregation) :=
  (groupCalls group expr).filterMap fun call =>
    (aggregationOf chain apply call none).toOption.join.map (call, ·)

/-- The aggregation of a call under the name of the member that is the call. -/
def named (members : List (String × Expr)) (lifted : Expr × Aggregation) : Aggregation :=
  { lifted.2 with name := (nameOf? members lifted.1).getD lifted.2.name }

theorem ofSelector_name (method : AggregationMethod) (selector : Lambda) (name : Option String)
    (derived : String) :
    ofSelector chain apply method selector (name.getD derived) =
      Option.map (fun found => { found with name := name.getD found.name }) <$>
        ofSelector chain apply method selector derived := by
  simp only [ofSelector]
  split
  · rfl
  · split
    · rfl
    · refine congrArg Except.ok ?_
      rw [Option.map_map]
      rfl

/-- A name that is given to an aggregation takes the place of the derived one and changes nothing
else. -/
theorem aggregationOf_name (call : Expr) (name : Option String) :
    aggregationOf chain apply call name =
      Option.map (fun found => { found with name := name.getD found.name }) <$>
        aggregationOf chain apply call none := by
  unfold aggregationOf
  split
  · split
    · rfl
    · split
      · split
        · exact ofSelector_name _ _ name _
        · rfl
      · split <;> rfl
  · rfl

theorem lifted_nameOf? (members : List (String × Expr)) (call : Expr) :
    (aggregationOf chain apply call (nameOf? members call)).toOption.join =
      ((aggregationOf chain apply call none).toOption.join.map (call, ·)).map (named members) := by
  rw [aggregationOf_name]
  cases aggregationOf chain apply call none with
  | error e => rfl
  | ok found => cases found <;> rfl

theorem mem_liftedCalls {expr call : Expr} {aggregation : Aggregation} :
    (call, aggregation) ∈ liftedCalls chain apply group expr ↔
      call ∈ groupCalls group expr ∧
        aggregationOf chain apply call none = .ok (some aggregation) := by
  have hjoin (call : Expr) : (aggregationOf chain apply call none).toOption.join =
      some aggregation ↔ aggregationOf chain apply call none = .ok (some aggregation) := by
    cases aggregationOf chain apply call none with
    | error e => simp [Except.toOption]
    | ok found => simp [Except.toOption]
  rw [liftedCalls, List.mem_filterMap]
  constructor
  · rintro ⟨other, hm, hlifted⟩
    obtain ⟨found, hfound, heq⟩ := Option.map_eq_some_iff.1 hlifted
    obtain ⟨rfl, rfl⟩ := Prod.mk.inj heq
    exact ⟨hm, (hjoin other).1 hfound⟩
  · rintro ⟨hm, hcall⟩
    exact ⟨call, hm, Option.map_eq_some_iff.2 ⟨aggregation, (hjoin call).2 hcall, rfl⟩⟩

/-- A call whose first argument is the group. -/
def OverGroup (group : String) : Expr → Prop
  | .call _ (.parameter param :: _) _ => param.name = group
  | _ => False

theorem groupCalls_of_overGroup {call : Expr} (h : OverGroup group call) :
    groupCalls group call = [call] := by
  unfold OverGroup at h
  split at h
  · rw [groupCalls, Expr.gather_eq]
    simp only [h, BEq.rfl, if_true, Option.getD_some]
  · exact h.elim

/-- The members of a construction that are calls over the group are among its calls. -/
theorem mem_groupCalls_of_member {body call : Expr} {name : String}
    (hm : (name, call) ∈ body.members?.getD []) (h : OverGroup group call) :
    call ∈ groupCalls group body := by
  have hchildren (hbody : groupCalls group body = body.children.flatMap (groupCalls group))
      (hc : call ∈ body.children) : call ∈ groupCalls group body := by
    rw [hbody]
    exact List.mem_flatMap.2 ⟨call, hc, by rw [groupCalls_of_overGroup h]; exact .head _⟩
  cases body with
  | newRecord ty members =>
    exact hchildren (Expr.gather_eq _ _) (List.mem_map.2 ⟨_, hm, rfl⟩)
  | newObject ty members =>
    exact hchildren (Expr.gather_eq _ _) (List.mem_map.2 ⟨_, hm, rfl⟩)
  | _ => cases hm

/-- What a result selector adds: the aggregations of the lifted calls, in order. -/
theorem run_addResult (h : (addResult chain result group).run.run apply = (.ok (), added)) :
    added = { apply with
      aggregations := apply.aggregations ++
        (liftedCalls chain apply group result.body).map (named (result.body.members?.getD []))
      result := some result } := by
  obtain ⟨_, _, hget, h⟩ := run_bind_eq_ok.1 h
  obtain ⟨rfl, rfl⟩ := run_get_eq_ok.1 hget
  obtain ⟨_, _, hkeys, h⟩ := run_bind_eq_ok.1 h
  obtain ⟨-, rfl⟩ := run_lift_eq_ok.1 hkeys
  obtain ⟨_, between, hcalls, h⟩ := run_bind_eq_ok.1 h
  obtain rfl := run_modify_eq_ok.1 h
  rw [run_forM (fun call =>
    (aggregationOf chain apply call (nameOf? (result.body.members?.getD []) call)).toOption.join)
    ?_ hcalls]
  · simp only [lifted_nameOf?, liftedCalls, List.map_filterMap]
  · intro call before added hstep
    obtain ⟨_, _, hget, hstep⟩ := run_bind_eq_ok.1 hstep
    obtain ⟨rfl, rfl⟩ := run_get_eq_ok.1 hget
    obtain ⟨found, _, hlift, hstep⟩ := run_bind_eq_ok.1 hstep
    obtain ⟨hfound, rfl⟩ := run_lift_eq_ok.1 hlift
    -- only the members of what was added before are read
    have hsame : aggregationOf chain apply call (nameOf? (result.body.members?.getD []) call) =
        .ok found := hfound
    rw [hsame]
    cases found with
    | none =>
      cases hstep
      simp [Except.toOption]
    | some aggregation => exact (run_modify_eq_ok.1 hstep).symm

end Lifted

/-! ### Derived names -/

/-- What a call aggregates: its method, and the property that is read last from each element. -/
structure Subject where
  method : AggregationMethod
  property : Option String
  deriving DecidableEq

/-- The name that tells the method and the property. -/
def Subject.label : Subject → String
  | ⟨method, none⟩ => method.name
  | ⟨method, some property⟩ => method.name ++ "Of" ++ property

/-- The property that is read last, if the expression reads one property after another. -/
def lastRead? (expr : Expr) : Option String :=
  match expr.withoutConversions with
  | .member source name _ => if source.memberChain?.isSome then some name else none
  | _ => none

/-- What a call over a group aggregates: the elements themselves, or what is selected from them. -/
def subject? : Expr → Option Subject
  | .call method [_] _ => (AggregationMethod.ofMethod? method).map (⟨·, none⟩)
  | .call method [_, .lambda _ body] _ =>
    (AggregationMethod.ofMethod? method).map (⟨·, lastRead? body⟩)
  | _ => none

/-- The only name of a method that begins with another one goes on with a `D`. -/
theorem name_append_inj {m n : AggregationMethod} {s t : List Char}
    (h : m.name.toList ++ s = n.name.toList ++ t) (hs : s.head? ≠ some 'D')
    (ht : t.head? ≠ some 'D') : m = n ∧ s = t := by
  cases m <;> cases n <;> simp_all [AggregationMethod.name]
  case countDistinct.count => exact ht (h ▸ rfl)

theorem Subject.toList_label (subject : Subject) :
    subject.label.toList = subject.method.name.toList ++
      subject.property.elim [] fun property => 'O' :: 'f' :: property.toList := by
  obtain ⟨method, property⟩ := subject
  cases property with
  | none => simp [label]
  | some property => simp [label]

/-- The method and the property can be read off a label. -/
theorem Subject.label_injective : Function.Injective label := by
  intro a b h
  have hlist := congrArg String.toList h
  rw [toList_label, toList_label] at hlist
  obtain ⟨m, p⟩ := a
  obtain ⟨n, q⟩ := b
  obtain ⟨rfl, hrest⟩ := name_append_inj hlist (by cases p <;> simp) (by cases q <;> simp)
  cases p with
  | none =>
    cases q with
    | none => rfl
    | some property => cases hrest
  | some property =>
    cases q with
    | none => cases hrest
    | some other =>
      have hproperty : property.toList = other.toList := by simpa using hrest
      rw [String.toList_inj.1 hproperty]

theorem memberChainOnto_append (expr : Expr) (names passed : List String) :
    expr.memberChainOnto (names ++ passed) =
      (expr.memberChainOnto names).map fun chain => (chain.1, chain.2 ++ passed) := by
  induction expr using Expr.induction_children generalizing names with | node expr ih =>
  cases expr with
  | member source name ty => exact ih source List.mem_cons_self (name :: names)
  | unary op operand ty =>
    cases op with
    | convert => exact ih operand List.mem_cons_self names
    | _ => rfl
  | _ => rfl

/-- The last name on a chain of members is that of the outermost one. -/
theorem getLast?_memberChain? (expr : Expr) :
    (expr.memberChain?.bind fun chain => chain.2.getLast?) = lastRead? expr := by
  induction expr using Expr.induction_children with | node expr ih =>
  cases expr with
  | member source name ty =>
    have hchain : (Expr.member source name ty).memberChain? =
        source.memberChain?.map fun chain => (chain.1, chain.2 ++ [name]) :=
      memberChainOnto_append source [] [name]
    rw [hchain, lastRead?]
    cases hs : source.memberChain? <;> simp [Expr.withoutConversions, hs]
  | unary op operand ty =>
    cases op with
    | convert => exact ih operand List.mem_cons_self
    | _ => rfl
  | _ => rfl

theorem defaultName_none (method : AggregationMethod) :
    defaultName method none = Subject.label ⟨method, none⟩ := rfl

theorem defaultName_some (method : AggregationMethod) (selector : Lambda) :
    defaultName method (some selector) = Subject.label ⟨method, lastRead? selector.body⟩ := by
  rw [defaultName, Option.bind_some, getLast?_memberChain?]
  cases lastRead? selector.body <;> rfl

theorem ofSelector_eq_some {chain : Chain} {apply : Apply} {method : AggregationMethod}
    {selector : Lambda} {name : String} {aggregation : Aggregation}
    (h : ofSelector chain apply method selector name = .ok (some aggregation)) :
    aggregation.name = name := by
  unfold ofSelector at h
  split at h
  · cases h
  · split at h
    · cases h
    · obtain ⟨expr, -, rfl⟩ := Option.map_eq_some_iff.1 (Except.ok.inj h)
      rfl

/-- The name derived from a call tells what it aggregates. -/
theorem name_eq_label {chain : Chain} {apply : Apply} {call : Expr} {aggregation : Aggregation}
    (h : aggregationOf chain apply call none = .ok (some aggregation)) :
    ∃ subject, subject? call = some subject ∧ aggregation.name = subject.label := by
  unfold aggregationOf at h
  split at h
  · split at h
    · cases h
    · next hmethod =>
      split at h
      · split at h
        · refine ⟨_, by rw [subject?, hmethod]; rfl, ?_⟩
          rw [ofSelector_eq_some h]
          exact defaultName_some _ _
        · cases h
      · split at h
        · cases h
          exact ⟨_, by rw [subject?, hmethod]; rfl, defaultName_none _⟩
        · cases h
  · cases h

/-! ### Shared names -/

section Names

variable {members : List (String × Expr)}

/-- The place of the first member that is the same as a call. -/
def place? (members : List (String × Expr)) (call : Expr) : Option Nat :=
  members.findIdx? fun member => member.2.same call

/-- Two calls come to have one name. Calls that are members do if one member is the first that is
the same as either. Calls that are no members do if they have one method and read the same property
last. A call that is a member and one that is not do if the member is called like the method and
the property of the other. -/
def NamedAlike (members : List (String × Expr)) (a b : Expr) : Prop :=
  match place? members a, place? members b with
  | some i, some j => i = j
  | some i, none => (members.map Prod.fst)[i]? = (subject? b).map Subject.label
  | none, some j => (subject? a).map Subject.label = (members.map Prod.fst)[j]?
  | none, none => subject? a = subject? b

instance (a b : Expr) : Decidable (NamedAlike members a b) := by
  unfold NamedAlike
  split <;> infer_instance

theorem find?_eq_place? (members : List (String × Expr)) (call : Expr) :
    members.find? (fun member => member.2.same call) =
      (place? members call).bind fun i => members[i]? := by
  induction members with
  | nil => rfl
  | cons member members ih =>
    rw [place?, List.find?_cons, List.findIdx?_cons]
    cases member.2.same call with
    | true => rfl
    | false =>
      change members.find? _ = ((place? members call).map (· + 1)).bind _
      rw [ih, Option.bind_map]
      rfl

theorem nameOf?_of_place?_eq_none {call : Expr} (h : place? members call = none) :
    nameOf? members call = none := by
  rw [nameOf?, find?_eq_place?, h]
  rfl

theorem nameOf?_of_place?_eq_some {call : Expr} {i : Nat} (h : place? members call = some i) :
    ∃ name, nameOf? members call = some name ∧ (members.map Prod.fst)[i]? = some name := by
  obtain ⟨hi, -⟩ := List.findIdx?_eq_some_iff_getElem.1 h
  refine ⟨members[i].1, ?_, ?_⟩
  · rw [nameOf?, find?_eq_place?, h, Option.bind_some, List.getElem?_eq_getElem hi]
    rfl
  · rw [List.getElem?_map, List.getElem?_eq_getElem hi]
    rfl

/-- Two calls are given one name exactly if they come to have it. -/
theorem named_name_eq_iff (hnames : (members.map Prod.fst).Nodup) {a b : Expr × Aggregation}
    {s t : Subject} (hs : subject? a.1 = some s) (ha : a.2.name = s.label)
    (ht : subject? b.1 = some t) (hb : b.2.name = t.label) :
    (named members a).name = (named members b).name ↔ NamedAlike members a.1 b.1 := by
  simp only [named, NamedAlike, ha, hb, hs, ht]
  cases hpa : place? members a.1 with
  | some i =>
    obtain ⟨x, hx, hi⟩ := nameOf?_of_place?_eq_some hpa
    rw [hx, Option.getD_some]
    cases hpb : place? members b.1 with
    | some j =>
      obtain ⟨y, hy, hj⟩ := nameOf?_of_place?_eq_some hpb
      rw [hy, Option.getD_some]
      -- as the names of members are distinct, one name stands at one place
      have hlt : i < (members.map Prod.fst).length := (List.getElem?_eq_some_iff.1 hi).1
      change x = y ↔ i = j
      rw [← List.getElem?_inj hlt hnames, hi, hj, Option.some_inj]
    | none =>
      rw [nameOf?_of_place?_eq_none hpb, Option.getD_none]
      change x = t.label ↔ (members.map Prod.fst)[i]? = some t.label
      rw [hi, Option.some_inj]
  | none =>
    rw [nameOf?_of_place?_eq_none hpa, Option.getD_none]
    cases hpb : place? members b.1 with
    | some j =>
      obtain ⟨y, hy, hj⟩ := nameOf?_of_place?_eq_some hpb
      rw [hy, Option.getD_some]
      change s.label = y ↔ some s.label = (members.map Prod.fst)[j]?
      rw [hj, Option.some_inj]
    | none =>
      rw [nameOf?_of_place?_eq_none hpb, Option.getD_none]
      change s.label = t.label ↔ some s = some t
      rw [Subject.label_injective.eq_iff, Option.some_inj]

theorem nodup_named_iff (hnames : (members.map Prod.fst).Nodup) {calls : List (Expr × Aggregation)}
    (hlabel : ∀ lifted ∈ calls,
      ∃ subject, subject? lifted.1 = some subject ∧ lifted.2.name = subject.label) :
    ((calls.map (named members)).map Aggregation.name).Nodup ↔
      (calls.map Prod.fst).Pairwise fun a b => ¬NamedAlike members a b := by
  rw [List.map_map, List.Nodup, List.pairwise_map, List.pairwise_map]
  refine List.Pairwise.iff_of_mem fun {a b} ha hb => not_congr ?_
  obtain ⟨s, hs, hsa⟩ := hlabel a ha
  obtain ⟨t, ht, htb⟩ := hlabel b hb
  exact named_name_eq_iff hnames hs hsa ht htb

theorem nameOf?_append {before after : List (String × Expr)} {name : String} {call : Expr}
    (hself : call.same call = true) (hbefore : ∀ member ∈ before, member.2.same call = false) :
    nameOf? (before ++ (name, call) :: after) call = some name := by
  have hnone : before.find? (fun member => member.2.same call) = none := by
    simpa [List.find?_eq_none] using hbefore
  rw [nameOf?, List.find?_append, hnone, Option.none_or, List.find?_cons, hself]
  rfl

end Names

/-- The aggregations of a result selector have distinct names if and only if no two of the lifted
calls come to have one name. A member that is a call over the group with an aggregation has it under
its own name, provided that the member is the same as itself and no member before it is. It is not
the same as itself if it holds a constant that differs from itself. -/
theorem addResult_names {chain : Chain} {result : Lambda} {group : String} {apply added : Apply}
    (h : (addResult chain result group).run.run apply = (.ok (), added))
    (hempty : apply.aggregations = [])
    (hnames : ((result.body.members?.getD []).map Prod.fst).Nodup) :
    ((added.aggregations.map Aggregation.name).Nodup ↔
        ((liftedCalls chain apply group result.body).map Prod.fst).Pairwise fun a b =>
          ¬NamedAlike (result.body.members?.getD []) a b) ∧
      ∀ before name call after aggregation,
        result.body.members?.getD [] = before ++ (name, call) :: after → OverGroup group call →
        aggregationOf chain apply call none = .ok (some aggregation) →
        call.same call = true → (∀ member ∈ before, member.2.same call = false) →
          { aggregation with name := name } ∈ added.aggregations := by
  rw [run_addResult h, hempty, List.nil_append]
  refine ⟨nodup_named_iff hnames fun lifted hm => name_eq_label (mem_liftedCalls.1 hm).2, ?_⟩
  intro before name call after aggregation hmembers hover hcall hself hbefore
  have hm : (name, call) ∈ result.body.members?.getD [] :=
    hmembers ▸ List.mem_append_right before List.mem_cons_self
  refine List.mem_map.2
    ⟨_, mem_liftedCalls.2 ⟨mem_groupCalls_of_member hm hover, hcall⟩, ?_⟩
  rw [hmembers, named, nameOf?_append hself hbefore, Option.getD_some]

namespace Sample

def orders : Chain := ⟨.ofRoot 0 ⟨"Orders", .entity "Order", .entitySet⟩, []⟩

def k : Param := ⟨"k", .string⟩

def g : Param := ⟨"g", .collection (.entity "Order")⟩

def s : Param := ⟨"s", .entity "Order"⟩

/-- The sum of what is read of the orders of a group. -/
def sumOf (read : Expr) : Expr := .call "Sum" [g.toExpr, .lambda [s] read] .double

def amount (name : String) : Expr := .member s.toExpr name .double

def customerAmount (name : String) : Expr :=
  .member (.member s.toExpr "Customer" (.entity "Customer")) name .double

/-- One sum as a member, and the difference of two others. -/
def balance : Lambda :=
  ⟨[k, g], .newRecord .object
    [("Total", sumOf (amount "Total")),
      ("Open", .binary .subtract (sumOf (amount "Price")) (sumOf (amount "Paid")))]⟩

/-- The same sum as two members. -/
def twice : Lambda :=
  ⟨[k, g], .newRecord .object
    [("First", sumOf (amount "Total")), ("Second", sumOf (amount "Total"))]⟩

/-- The difference of two sums over properties of the same name. -/
def excess : Lambda :=
  ⟨[k, g], .newRecord .object
    [("Excess",
      .binary .subtract (sumOf (amount "Limit")) (sumOf (customerAmount "Limit")))]⟩

/-- What a result selector adds to a grouping without aggregations. -/
def adding (result : Lambda) : Apply := ((addResult orders result "g").run.run {}).2

end Sample

theorem addResult_names_balance :
    (addResult Sample.orders Sample.balance "g").run.run {} =
        (.ok (), Sample.adding Sample.balance) ∧
      (Sample.adding Sample.balance).aggregations.map Aggregation.name =
        ["Total", "SumOfPrice", "SumOfPaid"] ∧
      ((Sample.adding Sample.balance).aggregations.map Aggregation.name).Nodup ∧
      ⟨some (.member (.input ⟨0, .entity "Order"⟩) "Total" .double), .sum, "Total"⟩ ∈
        (Sample.adding Sample.balance).aggregations := by
  have hadds : (addResult Sample.orders Sample.balance "g").run.run {} =
      (.ok (), Sample.adding Sample.balance) := rfl
  have hapart : ((liftedCalls Sample.orders {} "g" Sample.balance.body).map Prod.fst).Pairwise
      fun a b => ¬NamedAlike (Sample.balance.body.members?.getD []) a b := by decide
  obtain ⟨hnodup, hmembers⟩ := addResult_names hadds rfl (by decide)
  exact ⟨hadds, rfl, hnodup.2 hapart,
    hmembers [] _ _ _ _ rfl rfl rfl (by decide) (List.forall_mem_nil _)⟩

/-- Two members that are the same call share the name of the first, and so do two calls of which the
same name is derived. -/
theorem addResult_shared_names :
    ((Sample.twice.body.members?.getD []).map Prod.fst).Nodup ∧
      (addResult Sample.orders Sample.twice "g").run.run {} = (.ok (), Sample.adding Sample.twice) ∧
      (Sample.adding Sample.twice).aggregations.map Aggregation.name = ["First", "First"] ∧
      ((Sample.excess.body.members?.getD []).map Prod.fst).Nodup ∧
      (addResult Sample.orders Sample.excess "g").run.run {} =
        (.ok (), Sample.adding Sample.excess) ∧
      (Sample.adding Sample.excess).aggregations.map Aggregation.name =
        ["SumOfLimit", "SumOfLimit"] :=
  ⟨by decide, rfl, rfl, by decide, rfl, rfl⟩

end ServiceQuery.Grouping
