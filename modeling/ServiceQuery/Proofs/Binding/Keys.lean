import Mathlib.Data.List.Perm.Basic
import ServiceQuery.Proofs.Binding.Where
import ServiceQuery.Proofs.Equality
import ServiceQuery.Proofs.Lookup
import ServiceQuery.Proofs.Normal

/-!
# Predicates that are keys

A filter on a set of entities becomes a key exactly where its predicate equates every key of the
entity with a constant, once each, in any order and however the equations are joined. The key then
stands for the same rows as the predicate.
-/

namespace ServiceQuery

namespace Expr

/-! ### Conjunctions of equations -/

/-- A conjunction of equations, in either order of the sides, of a member of the element of `target`
and a constant other than null. The members and constants are listed from left to right. -/
inductive Equates (target : ResourceId) : Expr → List (String × Value) → Prop where
  | member {ref : InputRef} {name : String} {ty : Ty} {value : Value} (own : ref.target = target)
      (nonNull : value.isNull = false) :
      Equates target (binary .equal (.member (input ref) name ty) (constant value)) [(name, value)]
  | constant {ref : InputRef} {name : String} {ty : Ty} {value : Value} (own : ref.target = target)
      (nonNull : value.isNull = false) :
      Equates target (binary .equal (constant value) (.member (input ref) name ty)) [(name, value)]
  | and {left right : Expr} {first second : List (String × Value)}
      (before : Equates target left first) (after : Equates target right second) :
      Equates target (binary .andAlso left right) (first ++ second)

/-- No node of the expression is a conversion. -/
def HasNoConversion (expr : Expr) : Prop :=
  ∀ node ∈ expr.nodes, ∀ operand ty, node ≠ unary .convert operand ty

theorem HasNoConversion.below {expr child : Expr} (h : expr.HasNoConversion)
    (hm : child ∈ expr.children) : child.HasNoConversion :=
  fun node hn => h node (nodes_subset hm hn)

/-- The members that are passed on the way down come before those already passed. -/
theorem memberChainOnto_input {expr : Expr} {names all : List String} {ref : InputRef}
    (hc : expr.HasNoConversion) (h : expr.memberChainOnto names = some (input ref, all)) :
    expr = input ref ∧ all = names ∨ names.length < all.length := by
  fun_induction memberChainOnto names expr with
  | case1 names source name ty ih =>
    obtain ⟨-, rfl⟩ | hlt := ih (hc.below List.mem_cons_self) h
    · exact .inr (Nat.lt_succ_self _)
    · exact .inr (Nat.lt_of_succ_lt hlt)
  | case2 names operand ty ih => exact absurd rfl (hc _ (self_mem_nodes _) operand ty)
  | case3 names param => cases h
  | case4 names other =>
    cases h
    exact .inl ⟨rfl, rfl⟩
  | case5 => cases h

/-- Without conversions, a chain of one member is that member of the element. -/
theorem memberChain?_input {expr : Expr} {ref : InputRef} {name : String}
    (hc : expr.HasNoConversion) :
    expr.memberChain? = some (input ref, [name]) ↔ ∃ ty, expr = member (input ref) name ty := by
  constructor
  · intro h
    cases expr with
    | member source other ty =>
      have hsource : source.memberChainOnto [other] = some (input ref, [name]) := h
      obtain ⟨rfl, heq⟩ | hlt := memberChainOnto_input (hc.below List.mem_cons_self) hsource
      · obtain rfl := List.singleton_inj.1 heq
        exact ⟨ty, rfl⟩
      · exact absurd hlt (Nat.lt_irrefl _)
    | unary op operand ty =>
      cases op with
      | convert => exact absurd rfl (hc _ (self_mem_nodes _) operand ty)
      | _ => cases h
    | _ => cases h
  · rintro ⟨ty, rfl⟩
    rfl

theorem constant?_eq_some {expr : Expr} {value : Value} :
    expr.constant? = some value ↔ expr = constant value := by
  cases expr <;> simp [constant?]

/-- Without conversions, an equation that is compared with a key is one of a member of the element
and a constant, in either order. -/
theorem keyComparison?_eq_some {target : ResourceId} {expr : Expr} {name : String} {value : Value}
    (hc : expr.HasNoConversion) :
    expr.keyComparison? target = some (name, value) ↔
      ∃ ref ty, ref.target = target ∧ value.isNull = false ∧
        (expr = binary .equal (member (input ref) name ty) (constant value) ∨
          expr = binary .equal (constant value) (member (input ref) name ty)) := by
  constructor
  · intro h
    unfold keyComparison? at h
    split at h
    · next left right =>
      dsimp only at h
      split at h
      · cases h
      · cases h
      · next operand constant hnull hcompared =>
        split at h
        · next ref chained hchain =>
          split at h
          · next hown =>
            obtain ⟨rfl, rfl⟩ := Prod.mk.inj (Option.some.inj h)
            have hvalue : constant.isNull = false := by
              cases constant with
              | null => exact absurd rfl hnull
              | _ => rfl
            refine ⟨ref, ?_⟩
            split at hcompared
            · next hconstant =>
              cases hcompared
              obtain rfl := constant?_eq_some.1 hconstant
              obtain ⟨ty, rfl⟩ := (memberChain?_input (hc.below List.mem_cons_self)).1 hchain
              exact ⟨ty, beq_iff_eq.1 hown, hvalue, .inl rfl⟩
            · next hconstant _ =>
              cases hcompared
              obtain rfl := constant?_eq_some.1 hconstant
              have hright := hc.below (List.mem_cons_of_mem _ List.mem_cons_self)
              obtain ⟨ty, rfl⟩ := (memberChain?_input hright).1 hchain
              exact ⟨ty, beq_iff_eq.1 hown, hvalue, .inr rfl⟩
            · cases hcompared
          · cases h
        · cases h
    · cases h
  · rintro ⟨ref, ty, rfl, hnull, rfl | rfl⟩
    · cases value with
      | null => cases hnull
      | _ => simp [keyComparison?, constant?, memberChain?, memberChainOnto]
    · cases value with
      | null => cases hnull
      | _ => simp [keyComparison?, constant?, memberChain?, memberChainOnto]

/-- A conjunction of equations is one whose conjuncts all are compared with keys. -/
theorem equates_iff {target : ResourceId} {expr : Expr} {pairs : List (String × Value)}
    (hc : expr.HasNoConversion) :
    expr.Equates target pairs ↔ expr.conjuncts.mapM (keyComparison? target) = some pairs := by
  fun_induction conjuncts expr generalizing pairs with
  | case1 left right ihl ihr =>
    have hleft := hc.below List.mem_cons_self
    have hright := hc.below (List.mem_cons_of_mem _ List.mem_cons_self)
    simp only [List.mapM_append, Option.bind_eq_bind, Option.bind_eq_some_iff, Option.pure_def,
      Option.some.injEq]
    constructor
    · intro h
      cases h with
      | and before after =>
        exact ⟨_, (ihl hleft).1 before, _, (ihr hright).1 after, rfl⟩
    · rintro ⟨first, hf, second, hs, rfl⟩
      exact .and ((ihl hleft).2 hf) ((ihr hright).2 hs)
  | case2 expr hne =>
    simp only [List.mapM_cons, List.mapM_nil, Option.bind_eq_bind, Option.bind_eq_some_iff,
      Option.pure_def, Option.some.injEq, exists_eq_left']
    constructor
    · intro h
      cases h with
      | member own nonNull =>
        exact ⟨_, (keyComparison?_eq_some hc).2 ⟨_, _, own, nonNull, .inl rfl⟩, rfl⟩
      | constant own nonNull =>
        exact ⟨_, (keyComparison?_eq_some hc).2 ⟨_, _, own, nonNull, .inr rfl⟩, rfl⟩
      | and before after => exact absurd rfl (hne _ _)
    · rintro ⟨pair, hp, rfl⟩
      obtain ⟨ref, ty, own, nonNull, rfl | rfl⟩ := (keyComparison?_eq_some hc).1 hp
      · exact .member own nonNull
      · exact .constant own nonNull

theorem Equates.unique {target : ResourceId} {expr : Expr} {first second : List (String × Value)}
    (hf : expr.Equates target first) (hc : expr.HasNoConversion)
    (hs : expr.Equates target second) : first = second :=
  Option.some.inj (((equates_iff hc).1 hf).symm.trans ((equates_iff hc).1 hs))

end Expr

/-! ### The search for a key -/

section Search

variable {keys : List String} {found : List (String × Value)}

/-- The comparisons that are found are those of all predicates, of keys that differ. -/
theorem keyComparisons?_eq_some {target : ResourceId} {predicates : List Expr}
    {result : List (String × Value)} (hf : (found.map Prod.fst).Nodup) :
    keyComparisons? keys target found predicates = some result ↔
      ∃ pairs, predicates.mapM (Expr.keyComparison? target) = some pairs ∧
        result = found ++ pairs ∧ pairs.map Prod.fst ⊆ keys ∧ (result.map Prod.fst).Nodup := by
  induction predicates generalizing found with
  | nil =>
    constructor
    · intro h
      obtain rfl := Option.some.inj h
      exact ⟨[], rfl, (List.append_nil _).symm, List.nil_subset _, hf⟩
    · rintro ⟨pairs, hp, rfl, -⟩
      obtain rfl := Option.some.inj hp
      exact congrArg some (List.append_nil _).symm
  | cons predicate rest ih =>
    rw [keyComparisons?, List.mapM_cons]
    cases hp : predicate.keyComparison? target with
    | none => simp
    | some pair =>
      obtain ⟨name, value⟩ := pair
      simp only [Option.bind_eq_bind, Option.bind_some, Option.bind_eq_some_iff, Option.pure_def,
        Option.some.injEq]
      by_cases hname : name ∈ keys ∧ name ∉ found.map Prod.fst
      · have hnext : ((found ++ [(name, value)]).map Prod.fst).Nodup := by
          rw [List.map_append, List.nodup_append]
          refine ⟨hf, List.pairwise_singleton _ _, ?_⟩
          rintro other ho _ hs rfl
          obtain rfl := List.mem_singleton.1 hs
          exact hname.2 ho
        rw [if_pos (by simpa using hname), ih hnext]
        constructor
        · rintro ⟨pairs, hm, rfl, hk, hn⟩
          exact ⟨_, ⟨pairs, hm, rfl⟩, List.append_cons .. |>.symm,
            List.cons_subset.2 ⟨hname.1, hk⟩, hn⟩
        · rintro ⟨_, ⟨pairs, hm, rfl⟩, rfl, hk, hn⟩
          exact ⟨pairs, hm, List.append_cons .., (List.cons_subset.1 hk).2, hn⟩
      · -- a name that is no key, or was found before, ends the search
        rw [if_neg (by simpa using hname)]
        refine iff_of_false (by simp) ?_
        rintro ⟨_, ⟨pairs, hm, rfl⟩, rfl, hk, hn⟩
        refine hname ⟨(List.cons_subset.1 hk).1, fun hmem => ?_⟩
        rw [List.map_append, List.nodup_append] at hn
        exact hn.2.2 name hmem name List.mem_cons_self rfl

theorem mapM_lookup_eq_some {key : List (String × Value)} :
    (keys.mapM fun name => (found.lookup name).map fun value => (name, value)) = some key ↔
      key.map Prod.fst = keys ∧ ∀ pair ∈ key, found.lookup pair.1 = some pair.2 := by
  induction keys generalizing key with
  | nil => cases key <;> simp
  | cons name rest ih =>
    simp only [List.mapM_cons, Option.bind_eq_bind, Option.bind_eq_some_iff, Option.pure_def,
      Option.some.injEq, Option.map_eq_some_iff, ih]
    constructor
    · rintro ⟨_, ⟨value, hv, rfl⟩, key, ⟨rfl, hk⟩, rfl⟩
      exact ⟨rfl, List.forall_mem_cons.2 ⟨hv, hk⟩⟩
    · rintro ⟨hn, hk⟩
      cases key with
      | nil => cases hn
      | cons pair key =>
        obtain ⟨rfl, rfl⟩ := List.cons.inj hn
        obtain ⟨hv, hk⟩ := List.forall_mem_cons.1 hk
        exact ⟨_, ⟨pair.2, hv, rfl⟩, key, ⟨rfl, hk⟩, rfl⟩

/-- What is put into the order of the keys is all that was found. -/
theorem inKeyOrder?_eq_some {key : List (String × Value)} (hkeys : keys.Nodup)
    (hf : (found.map Prod.fst).Nodup) :
    inKeyOrder? keys found = some key ↔ key.map Prod.fst = keys ∧ key.Perm found := by
  rw [inKeyOrder?, Option.ite_none_right_eq_some, mapM_lookup_eq_some]
  constructor
  · rintro ⟨hlen, rfl, hk⟩
    refine ⟨rfl, ?_⟩
    -- the entries were all found, differ and are as many as what was found
    have hsub : key ⊆ found := by
      intro pair hp
      obtain ⟨before, after, rfl, -⟩ := List.lookup_eq_some_iff.1 (hk pair hp)
      exact List.mem_append_right _ List.mem_cons_self
    have hnodup : key.Nodup := List.Pairwise.of_map _ (fun _ _ hne => mt (congrArg _) hne) hkeys
    have hle : found.length ≤ key.length := Nat.le_of_eq (hlen.trans (List.length_map _))
    exact (List.subperm_of_subset hnodup hsub).perm_of_length_le hle
  · rintro ⟨rfl, hp⟩
    refine ⟨by rw [List.length_map, hp.length_eq], rfl, fun pair hm => ?_⟩
    exact lookup_eq_some_of_mem hf (hp.subset hm)

/-- What is found of all keys can be put into their order. -/
theorem exists_inKeyOrder (h : (found.map Prod.fst).Perm keys) :
    ∃ key : List (String × Value), key.map Prod.fst = keys ∧ key.Perm found := by
  have hsame : List.Forall₂ (fun name pair => name = Prod.fst pair) (found.map Prod.fst) found := by
    rw [List.forall₂_map_left_iff]
    exact List.forall₂_same.2 fun _ _ => rfl
  obtain ⟨key, hnames, hp⟩ := List.perm_comp_forall₂ h.symm hsame
  refine ⟨key, ?_, hp⟩
  rw [← List.forall₂_eq_eq_eq, List.forall₂_map_left_iff]
  exact hnames.flip.imp fun _ _ he => he.symm

end Search

/-! ### The value of a conjunction of equations -/

namespace Expr

/-- The expression with `element` in place of the element of `target`. -/
def withElement (target : ResourceId) (element : Value) (expr : Expr) : Expr :=
  expr.replace fun
    | input ref => if ref.target = target then some (constant element) else none
    | _ => none

theorem withElement_binary (target : ResourceId) (element : Value) (op : BinaryOp)
    (left right : Expr) :
    (binary op left right).withElement target element =
      binary op (left.withElement target element) (right.withElement target element) := by
  rw [withElement, replace_eq]
  rfl

theorem withElement_constant (target : ResourceId) (element value : Value) :
    (constant value).withElement target element = constant value := by
  rw [withElement, replace_eq]
  rfl

theorem withElement_member {target : ResourceId} {ref : InputRef} (own : ref.target = target)
    (element : Value) (name : String) (ty : Ty) :
    (member (input ref) name ty).withElement target element =
      member (constant element) name ty := by
  have hinput : (input ref).withElement target element = constant element := by
    rw [withElement, replace_eq]
    simp [own]
  rw [← hinput, withElement, replace_eq]
  rfl

theorem evaluate_member_record {fields : List (String × Value)} {name : String} {field : Value}
    (hf : fields.lookup name = some field) (ty : Ty) :
    (member (constant (.record fields)) name ty).evaluate = .ok field := by
  simp only [evaluate, Value.readMember, Except.bind_eq_ok, Except.ok.injEq, exists_eq_left', hf]

theorem evaluate_andAlso {left right : Expr} {l r : Bool} (hl : left.evaluate = .ok (.bool l))
    (hr : right.evaluate = .ok (.bool r)) :
    (binary .andAlso left right).evaluate = .ok (.bool (l && r)) := by
  rw [evaluate, hl, hr]
  cases l <;> rfl

/-- A conjunction of equations holds of a record if all of them do. -/
theorem Equates.evaluate {target : ResourceId} {expr : Expr} {pairs : List (String × Value)}
    (h : expr.Equates target pairs) {fields : List (String × Value)}
    (hf : ∀ name ∈ pairs.map Prod.fst, (fields.lookup name).isSome = true) :
    (expr.withElement target (.record fields)).evaluate =
      .ok (.bool (pairs.all fun pair => (fields.lookup pair.1).any (·.equal pair.2))) := by
  induction h with
  | member own nonNull =>
    obtain ⟨field, hl⟩ := Option.isSome_iff_exists.1 (hf _ List.mem_cons_self)
    rw [withElement_binary, withElement_member own, withElement_constant,
      evaluate_binary rfl]
    refine ⟨field, _, evaluate_member_record hl _, rfl, ?_⟩
    simp [Value.binary, hl]
  | constant own nonNull =>
    obtain ⟨field, hl⟩ := Option.isSome_iff_exists.1 (hf _ List.mem_cons_self)
    rw [withElement_binary, withElement_member own, withElement_constant,
      evaluate_binary rfl]
    refine ⟨_, field, rfl, evaluate_member_record hl _, ?_⟩
    simp [Value.binary, hl, Value.equal_comm field]
  | and before after ihl ihr =>
    rw [List.map_append, List.forall_mem_append] at hf
    rw [withElement_binary, List.all_append]
    exact evaluate_andAlso (ihl hf.1) (ihr hf.2)

end Expr

namespace Resource

/-- A set of entities of which nothing has been asked that keeps it from having a key. -/
structure IsOpenSet (resource : Resource) (entity : String) : Prop where
  kind : resource.kind = .set none
  elementType : resource.elementType = .entity entity
  sequence : resource.sequence = []
  projection : resource.projection = none
  apply : resource.apply = none
  keyFilter : resource.keyFilter = none

namespace IsOpenSet

variable {resource : Resource} {entity : String} {metadata : Metadata} {keys : List String}

theorem acceptsKey (h : resource.IsOpenSet entity) : resource.acceptsKey = true := by
  simp [Resource.acceptsKey, isSet, h.kind, h.sequence, h.projection, h.apply]

theorem admits (h : resource.IsOpenSet entity) :
    resource.Admits ["Skip", "Take", "Select", "GroupBy"] := by
  refine ⟨by simp [isSingle, h.kind], ?_⟩
  simp only [applied, h.sequence, h.projection, h.apply]
  grind

theorem keyIn_eq (h : resource.IsOpenSet entity) (hk : metadata.keyProperties entity = .ok keys)
    (predicate : Expr) :
    resource.keyIn metadata predicate =
      .ok ((keyComparisons? keys resource.id [] predicate.conjuncts).bind (inKeyOrder? keys)) := by
  simp only [keyIn, h.elementType, h.acceptsKey, if_true, hk]
  rfl

/-- A predicate gives a key if it equates all keys, and then gives it in their order. -/
theorem keyIn_eq_some (h : resource.IsOpenSet entity)
    (hk : metadata.keyProperties entity = .ok keys) (hkeys : keys.Nodup) {predicate : Expr}
    (hc : predicate.HasNoConversion) {key : List (String × Value)} :
    resource.keyIn metadata predicate = .ok (some key) ↔
      ∃ found, predicate.Equates resource.id found ∧ key.map Prod.fst = keys ∧
        key.Perm found := by
  have hnil : (([] : List (String × Value)).map Prod.fst).Nodup := List.nodup_nil
  rw [h.keyIn_eq hk, Except.ok.injEq, Option.bind_eq_some_iff]
  simp only [keyComparisons?_eq_some hnil, List.nil_append]
  constructor
  · rintro ⟨_, ⟨found, hm, rfl, -, hn⟩, ho⟩
    exact ⟨_, (Expr.equates_iff hc).2 hm, (inKeyOrder?_eq_some hkeys hn).1 ho⟩
  · rintro ⟨found, he, rfl, hp⟩
    have hnames := hp.map Prod.fst
    have hn := hnames.nodup_iff.1 hkeys
    exact ⟨found, ⟨found, (Expr.equates_iff hc).1 he, rfl, hnames.symm.subset, hn⟩,
      (inKeyOrder?_eq_some hkeys hn).2 ⟨rfl, hp⟩⟩

theorem key?_renumber_withKeyFilter (h : resource.IsOpenSet entity) (key : List (String × Value))
    (predicate : Expr) (id : ResourceId) :
    ((resource.withKeyFilter key predicate).renumber id).key? = some key := by
  rw [renumber_withKeyFilter h.sequence h.apply]
  simp [key?, withKey, h.kind]

theorem key?_addOption (h : resource.IsOpenSet entity) (option : SequenceOption) :
    (resource.addOption option).key? = none := by
  simp [addOption, key?, h.kind]

end IsOpenSet

end Resource

namespace Binding

variable {metadata : Metadata} {chain : Chain} {entity : String} {keys : List String}
  {predicate bound : Expr}

theorem demoted_of_isOpenSet (ho : chain.leaf.IsOpenSet entity) : chain.demoted = chain := by
  rw [Chain.demoted, Chain.mapLeaf, Resource.demoteKey_of_none ho.keyFilter]

theorem bindWhere_of_key (ho : chain.leaf.IsOpenSet entity) (hb : chain.Binds predicate bound)
    {key : List (String × Value)} (hin : chain.leaf.keyIn metadata bound = .ok (some key))
    (n : ResourceId) :
    (bindWhere metadata chain predicate).run n =
      .ok (chain.mapLeaf fun leaf => (leaf.withKeyFilter key bound).renumber n, n + 1) := by
  rw [bindWhere_ok, demoted_of_isOpenSet ho]
  exact ⟨ho.admits, bound, hb, .inl ⟨key, hin, rfl, rfl⟩⟩

theorem bindWhere_of_filter (ho : chain.leaf.IsOpenSet entity) (hb : chain.Binds predicate bound)
    (hin : chain.leaf.keyIn metadata bound = .ok none) (n : ResourceId) :
    (bindWhere metadata chain predicate).run n =
      .ok (chain.mapLeaf (·.addOption (.filter [bound])), n) := by
  rw [bindWhere_ok, demoted_of_isOpenSet ho]
  exact ⟨ho.admits, bound, hb, .inr ⟨hin, rfl, rfl⟩⟩

/-- A filter on a set of entities becomes a key exactly where its predicate equates every key with a
constant, once each. The key lists the constants in the order of the keys, and the predicate holds
of the records that have them. Any other predicate stays a filter. -/
theorem bindWhere_key (ho : chain.leaf.IsOpenSet entity)
    (hk : metadata.keyProperties entity = .ok keys) (hkeys : keys.Nodup)
    (hb : chain.Binds predicate bound) (hc : bound.HasNoConversion) (n : ResourceId) :
    ∃ chain' m, (bindWhere metadata chain predicate).run n = .ok (chain', m) ∧
      (chain'.leaf.key?.isSome = true ↔
        ∃ found, bound.Equates chain.leaf.id found ∧ (found.map Prod.fst).Perm keys) ∧
      (chain'.leaf.key? = none → chain' = chain.mapLeaf (·.addOption (.filter [bound]))) ∧
      ∀ key, chain'.leaf.key? = some key →
        chain'.leaf.sequence = [] ∧ key.map Prod.fst = keys ∧
          (∀ found, bound.Equates chain.leaf.id found → key.Perm found) ∧
          ∀ fields : List (String × Value),
            (∀ name ∈ keys, (fields.lookup name).isSome = true) →
              (bound.withElement chain.leaf.id (.record fields)).evaluate =
                .ok (.bool (key.all fun pair =>
                  (fields.lookup pair.1).any (·.equal pair.2))) := by
  cases hin : (keyComparisons? keys chain.leaf.id [] bound.conjuncts).bind (inKeyOrder? keys) with
  | some key =>
    have hkeyIn : chain.leaf.keyIn metadata bound = .ok (some key) := by
      rw [ho.keyIn_eq hk, hin]
    obtain ⟨found, he, hnames, hp⟩ := (ho.keyIn_eq_some hk hkeys hc).1 hkeyIn
    have hleaf := Resource.renumber_withKeyFilter ho.sequence ho.apply key bound n
    have hkey := ho.key?_renumber_withKeyFilter key bound n
    refine ⟨_, _, bindWhere_of_key ho hb hkeyIn n, ?_, ?_, ?_⟩
    · refine iff_of_true (by rw [Chain.mapLeaf, hkey]; rfl) ⟨found, he, ?_⟩
      rw [← hnames]
      exact (hp.map Prod.fst).symm
    · intro hnone
      cases hkey.symm.trans hnone
    · intro other hother
      cases hkey.symm.trans hother
      refine ⟨?_, hnames, fun found' he' => he.unique hc he' ▸ hp, fun fields hf => ?_⟩
      · rw [Chain.mapLeaf, hleaf]
        exact ho.sequence
      · rw [hp.all_eq]
        refine he.evaluate fun name hname => hf name ?_
        rw [← hnames]
        exact (hp.map Prod.fst).symm.subset hname
  | none =>
    have hkeyIn : chain.leaf.keyIn metadata bound = .ok none := by rw [ho.keyIn_eq hk, hin]
    have hkey := ho.key?_addOption (.filter [bound])
    refine ⟨_, _, bindWhere_of_filter ho hb hkeyIn n, ?_, fun _ => rfl, ?_⟩
    · refine iff_of_false (by rw [Chain.mapLeaf, hkey]; exact Bool.false_ne_true) ?_
      -- a predicate that equates every key would have given one
      rintro ⟨found, he, hnames⟩
      obtain ⟨key, hk', hp⟩ := exists_inKeyOrder hnames
      cases hkeyIn.symm.trans ((ho.keyIn_eq_some hk hkeys hc).2 ⟨found, he, hk', hp⟩)
    · intro key hsome
      cases hkey.symm.trans hsome

/-- A service with the lines of orders. -/
def orderLines : Metadata :=
  ({ entitySets := [("Lines", "Line")]
     types := [("Line", ⟨["Order", "Number"],
       [⟨"Order", .int32, false⟩, ⟨"Number", .int32, false⟩]⟩)] } : Model).metadata

/-- All lines. -/
def allLines : Chain where
  leaf := .ofRoot 0 ⟨"Lines", .entity "Line", .entitySet⟩

/-- The condition that a line is the second one of an order. The number comes before the order, and
its constant before the property. -/
def isSecond (line : Expr) : Expr :=
  .binary .andAlso (.binary .equal (.constant (.int32 2)) (.member line "Number" .int32))
    (.binary .equal (.member line "Order" .int32) (.constant (.int32 7)))

/-- The second lines of an order. -/
def secondLine : Expr :=
  .lambda [⟨"l", .entity "Line"⟩] (isSecond (.parameter ⟨"l", .entity "Line"⟩))

theorem bindWhere_key_secondLine :
    allLines.leaf.IsOpenSet "Line" ∧
      allLines.Binds secondLine (isSecond (.input allLines.leaf.inputRef)) ∧
      (isSecond (.input allLines.leaf.inputRef)).HasNoConversion ∧
      ∃ chain m, (bindWhere orderLines allLines secondLine).run 1 = .ok (chain, m) ∧
        chain.leaf.key? = some [("Order", .int32 7), ("Number", .int32 2)] ∧
        ((isSecond (.input allLines.leaf.inputRef)).withElement 0
          (.record [("Number", .int64 2), ("Order", .int32 7)])).evaluate = .ok (.bool true) := by
  have ho : allLines.leaf.IsOpenSet "Line" := ⟨rfl, rfl, rfl, rfl, rfl, rfl⟩
  have hb : allLines.Binds secondLine (isSecond (.input allLines.leaf.inputRef)) :=
    ⟨_, _, rfl, by decide, rfl⟩
  have hc : (isSecond (.input allLines.leaf.inputRef)).HasNoConversion := by
    simp [Expr.HasNoConversion, isSecond, Expr.nodes_eq, Expr.children]
  have hkeys : orderLines.keyProperties "Line" = .ok ["Order", "Number"] := rfl
  obtain ⟨chain, m, hrun, -, -, hall⟩ := bindWhere_key ho hkeys (by decide) hb hc 1
  have hkey : chain.leaf.key? = some [("Order", .int32 7), ("Number", .int32 2)] := by
    cases hrun
    rfl
  obtain ⟨-, -, -, hevaluate⟩ := hall _ hkey
  exact ⟨ho, hb, hc, chain, m, hrun, hkey, hevaluate _ (by decide)⟩

end Binding

end ServiceQuery
