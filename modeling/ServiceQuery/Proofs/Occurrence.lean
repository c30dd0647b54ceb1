import ServiceQuery.Proofs.Alpha

/-!
# The scope of a parameter

A parameter has its meaning in an expression except under the lambdas there that declare its name
again. What a pass over the expression does with a parameter is stated for the nodes in this scope.
-/

namespace ServiceQuery.Expr

/-- Whether the node is a lambda that declares the name. -/
def rebinds (name : String) : Expr → Bool
  | lambda params _ => Param.declares params name
  | _ => false

theorem rebinds_of_isNameless {expr : Expr} (h : expr.isNameless = true) (name : String) :
    expr.rebinds name = false := by
  cases expr with
  | lambda => cases h
  | _ => rfl

/-- The node stands in an expression under no lambda that declares the name again. -/
inductive InScope (name : String) (node : Expr) : Expr → Prop where
  | here : InScope name node node
  | inside {expr child : Expr} (passes : expr.rebinds name = false) (mem : child ∈ expr.children)
      (inner : InScope name node child) : InScope name node expr

theorem inScope_iff {name : String} {node expr : Expr} :
    InScope name node expr ↔
      node = expr ∨
        expr.rebinds name = false ∧ ∃ child ∈ expr.children, InScope name node child := by
  constructor
  · intro h
    cases h with
    | here => exact .inl rfl
    | inside passes mem inner => exact .inr ⟨passes, _, mem, inner⟩
  · rintro (rfl | ⟨passes, child, mem, inner⟩)
    · exact .here
    · exact .inside passes mem inner

/-- A parameter is used where it stands in the scope of its own name. -/
theorem references_iff_inScope {name : String} {expr : Expr} :
    expr.references name = true ↔
      ∃ param, param.name = name ∧ InScope name (parameter param) expr := by
  induction expr using induction_children with
  | node expr ih =>
    by_cases hn : expr.isNameless = true
    · constructor
      · intro h
        obtain ⟨child, hc, hr⟩ := (references_of_isNameless hn).1 h
        obtain ⟨param, hp, hs⟩ := (ih child hc).1 hr
        exact ⟨param, hp, .inside (rebinds_of_isNameless hn name) hc hs⟩
      · rintro ⟨param, hp, hs⟩
        obtain rfl | ⟨-, child, hc, hs⟩ := inScope_iff.1 hs
        · cases hn
        · exact (references_of_isNameless hn).2 ⟨child, hc, (ih child hc).2 ⟨param, hp, hs⟩⟩
    · cases expr with
      | parameter other =>
        rw [references_parameter]
        constructor
        · exact fun h => ⟨other, h, .here⟩
        · rintro ⟨param, hp, hs⟩
          obtain heq | ⟨-, child, hc, -⟩ := inScope_iff.1 hs
          · cases heq
            exact hp
          · cases hc
      | lambda params body =>
        have hbody := ih body List.mem_cons_self
        rw [references_lambda, hbody, ← Param.declares_iff, Bool.not_eq_true]
        constructor
        · rintro ⟨hd, param, hp, hs⟩
          exact ⟨param, hp, .inside hd List.mem_cons_self hs⟩
        · rintro ⟨param, hp, hs⟩
          obtain heq | ⟨hd, child, hc, hinner⟩ := inScope_iff.1 hs
          · cases heq
          · rw [List.mem_singleton.1 hc] at hinner
            exact ⟨hd, param, hp, hinner⟩
      | _ => exact absurd rfl hn

/-! ### Chains of members -/

/-- The members are read from the parameter one after the other; conversions in between do not
count. -/
inductive Reads (name : String) : List String → Expr → Prop where
  | parameter {param : Param} (same : param.name = name) : Reads name [] (parameter param)
  | member {names : List String} {source : Expr} {field : String} {ty : Ty}
      (inner : Reads name names source) : Reads name (names ++ [field]) (member source field ty)
  | convert {names : List String} {operand : Expr} {ty : Ty} (inner : Reads name names operand) :
      Reads name names (unary .convert operand ty)

section Chains

variable {name : String} {names : List String}

theorem reads_of_memberChainOnto {passed : List String} {param : Param} {expr : Expr}
    (h : expr.memberChainOnto passed = some (parameter param, names)) (hp : param.name = name) :
    ∃ read, Reads name read expr ∧ names = read ++ passed := by
  induction expr using induction_children generalizing passed with
  | node expr ih =>
    cases expr with
    | member source field ty =>
      obtain ⟨read, hr, rfl⟩ := ih source List.mem_cons_self h
      exact ⟨read ++ [field], .member hr, by simp⟩
    | unary op operand ty =>
      cases op with
      | convert =>
        obtain ⟨read, hr, rfl⟩ := ih operand List.mem_cons_self h
        exact ⟨read, .convert hr, rfl⟩
      | _ => cases h
    | parameter other =>
      cases h
      exact ⟨[], .parameter hp, rfl⟩
    | _ => cases h

theorem Reads.memberChainOnto {expr : Expr} (h : Reads name names expr) (passed : List String) :
    ∃ param : Param, param.name = name ∧
      expr.memberChainOnto passed = some (Expr.parameter param, names ++ passed) := by
  induction h generalizing passed with
  | parameter same => exact ⟨_, same, rfl⟩
  | @member names source field ty inner ih =>
    obtain ⟨param, hp, hchain⟩ := ih (field :: passed)
    refine ⟨param, hp, ?_⟩
    rw [Expr.memberChainOnto, hchain, List.append_assoc, List.singleton_append]
  | convert inner ih => exact ih passed

theorem chainFrom?_eq_some {expr : Expr} :
    expr.chainFrom? name = some names ↔ Reads name names expr := by
  constructor
  · intro h
    unfold chainFrom? at h
    split at h
    · next param read hchain =>
      split at h
      · next hp =>
        cases h
        obtain ⟨own, hr, rfl⟩ := reads_of_memberChainOnto hchain (beq_iff_eq.1 hp)
        rwa [List.append_nil]
      · cases h
    · cases h
  · intro h
    obtain ⟨param, hp, hchain⟩ := h.memberChainOnto []
    rw [chainFrom?, memberChain?, hchain, List.append_nil]
    exact if_pos (beq_iff_eq.2 hp)

/-- The members are read from the parameter somewhere in its scope, and no member is read from the
last of them. -/
def ReadsLongest (name : String) (names : List String) (expr : Expr) : Prop :=
  Reads name names expr ∨
    ∃ outer, InScope name outer expr ∧ outer.rebinds name = false ∧
      (∀ longer, ¬Reads name longer outer) ∧ ∃ node ∈ outer.children, Reads name names node

theorem chainFrom?_eq_none {expr : Expr} :
    expr.chainFrom? name = none ↔ ∀ names, ¬Reads name names expr := by
  simp only [Option.eq_none_iff_forall_ne_some, ne_eq, chainFrom?_eq_some]

/-- The nodes of a chain are chains. -/
theorem Reads.exists_of_inScope {expr node : Expr} (h : Reads name names expr)
    (hs : InScope name node expr) : ∃ read, Reads name read node := by
  induction h with
  | parameter same =>
    obtain rfl | ⟨-, child, hc, -⟩ := inScope_iff.1 hs
    · exact ⟨[], .parameter same⟩
    · cases hc
  | member inner ih =>
    obtain rfl | ⟨-, child, hc, hs⟩ := inScope_iff.1 hs
    · exact ⟨_, .member inner⟩
    · rw [List.mem_singleton.1 hc] at hs
      exact ih hs
  | convert inner ih =>
    obtain rfl | ⟨-, child, hc, hs⟩ := inScope_iff.1 hs
    · exact ⟨_, .convert inner⟩
    · rw [List.mem_singleton.1 hc] at hs
      exact ih hs

/-- Below a node that is no chain itself, the longest chains are those of its subexpressions. -/
theorem readsLongest_iff {expr : Expr} (hn : ∀ longer, ¬Reads name longer expr) :
    ReadsLongest name names expr ↔
      expr.rebinds name = false ∧ ∃ child ∈ expr.children, ReadsLongest name names child := by
  constructor
  · rintro (h | ⟨outer, hs, hr, hlonger, node, hm, h⟩)
    · exact absurd h (hn names)
    · obtain rfl | ⟨passes, child, hc, hs⟩ := inScope_iff.1 hs
      · exact ⟨hr, node, hm, .inl h⟩
      · exact ⟨passes, child, hc, .inr ⟨outer, hs, hr, hlonger, node, hm, h⟩⟩
  · rintro ⟨hr, child, hc, h | ⟨outer, hs, ho, hlonger, h⟩⟩
    · exact .inr ⟨expr, .here, hr, hn, child, hc, h⟩
    · exact .inr ⟨outer, .inside hr hc hs, ho, hlonger, h⟩

theorem chainsFrom_of_some {expr : Expr} (h : expr.chainFrom? name = some names) :
    expr.chainsFrom name = [names] := by
  rw [chainsFrom, gather_eq]
  simp only [h, Option.getD_some]

theorem chainsFrom_of_none {expr : Expr} (h : expr.chainFrom? name = none) :
    expr.chainsFrom name =
      if expr.rebinds name then [] else expr.children.flatMap (chainsFrom name) := by
  rw [chainsFrom, gather_eq]
  cases expr with
  | lambda params body =>
    by_cases hd : Param.declares params name = true
    · simp only [h, rebinds, hd, if_true, Option.getD_some]
    · simp only [h, rebinds, hd, Bool.false_eq_true, if_false]
      rfl
  | _ =>
    simp only [h]
    rfl

/-- The chains that are collected are the longest ones. -/
theorem mem_chainsFrom {expr : Expr} :
    names ∈ expr.chainsFrom name ↔ ReadsLongest name names expr := by
  induction expr using induction_children with
  | node expr ih =>
    cases hchain : expr.chainFrom? name with
    | some read =>
      have hread := chainFrom?_eq_some.1 hchain
      rw [chainsFrom_of_some hchain, List.mem_singleton]
      constructor
      · rintro rfl
        exact .inl hread
      · rintro (h | ⟨outer, hs, -, hlonger, -⟩)
        · exact Option.some.inj ((chainFrom?_eq_some.2 h).symm.trans hchain)
        · obtain ⟨longer, h⟩ := hread.exists_of_inScope hs
          exact absurd h (hlonger longer)
    | none =>
      rw [chainsFrom_of_none hchain, readsLongest_iff (chainFrom?_eq_none.1 hchain)]
      cases expr.rebinds name with
      | true => simp
      | false =>
        simp only [Bool.false_eq_true, if_false, List.mem_flatMap, true_and]
        exact exists_congr fun child => and_congr_right fun hc => ih child hc

end Chains

end ServiceQuery.Expr
