import ServiceQuery.Proofs.Alpha

/-!
# Free parameters

A parameter is free in an expression if it occurs where no lambda on the way to it declares its
name. There are two tests for that. One looks for a given name and turns back at a lambda that
declares it, the other goes everywhere with the names that are declared on the way.
-/

namespace ServiceQuery.Expr

/-- The names that a node declares in its subexpressions. -/
def declares : Expr → List String
  | lambda params _ => params.map Param.name
  | _ => []

/-- The parameter occurs where no lambda on the way to it declares its name. -/
inductive FreeIn (name : String) : Expr → Prop where
  | here {param : Param} (h : param.name = name) : FreeIn name (parameter param)
  | under {expr child : Expr} (hm : child ∈ expr.children) (hd : name ∉ expr.declares)
    (h : FreeIn name child) : FreeIn name expr

theorem declares_of_isNameless {expr : Expr} (h : expr.isNameless = true) : expr.declares = [] := by
  cases expr with
  | lambda => cases h
  | _ => rfl

/-- The test for a given name at one node. -/
theorem references_node {name : String} (expr : Expr) :
    expr.references name = true ↔ (∃ param, expr = parameter param ∧ param.name = name) ∨
      name ∉ expr.declares ∧ ∃ child ∈ expr.children, child.references name = true := by
  by_cases hn : expr.isNameless = true
  · rw [references_of_isNameless hn, declares_of_isNameless hn]
    constructor
    · intro h
      exact .inr ⟨List.not_mem_nil, h⟩
    · rintro (⟨param, rfl, -⟩ | ⟨-, h⟩)
      · cases hn
      · exact h
  · cases expr with
    | parameter param => simp [references_parameter, children]
    | lambda params body => simp [references_lambda, children, declares]
    | _ => exact absurd rfl hn

/-- The test for any name at one node. -/
theorem hasFreeParameterIn_node {declared : List String} (expr : Expr) :
    expr.hasFreeParameterIn declared = true ↔
      (∃ param, expr = parameter param ∧ param.name ∉ declared) ∨
        ∃ child ∈ expr.children, child.hasFreeParameterIn (expr.declares ++ declared) = true := by
  by_cases hn : expr.isNameless = true
  · rw [hasFreeParameterIn_of_isNameless hn, declares_of_isNameless hn, List.any_eq_true]
    constructor
    · exact .inr
    · rintro (⟨param, rfl, -⟩ | h)
      · cases hn
      · exact h
  · cases expr with
    | parameter param => simp [hasFreeParameterIn, children]
    | lambda params body => simp [hasFreeParameterIn, children, declares]
    | _ => exact absurd rfl hn

/-- The test for a given name finds the parameter where it is free. -/
theorem references_iff_freeIn {name : String} (expr : Expr) :
    expr.references name = true ↔ expr.FreeIn name := by
  constructor
  · intro h
    induction expr using induction_children with
    | node expr ih =>
      obtain ⟨param, rfl, hname⟩ | ⟨hd, child, hm, hchild⟩ := (references_node expr).1 h
      · exact .here hname
      · exact .under hm hd (ih child hm hchild)
  · intro h
    induction h with
    | here hname => exact (references_node _).2 (.inl ⟨_, rfl, hname⟩)
    | under hm hd _ ih => exact (references_node _).2 (.inr ⟨hd, _, hm, ih⟩)

/-- The test for any name finds the parameters that are free and not declared around the
expression. -/
theorem hasFreeParameterIn_iff_freeIn (declared : List String) (expr : Expr) :
    expr.hasFreeParameterIn declared = true ↔ ∃ name, name ∉ declared ∧ expr.FreeIn name := by
  constructor
  · intro h
    induction expr using induction_children generalizing declared with
    | node expr ih =>
      obtain ⟨param, rfl, hd⟩ | ⟨child, hm, hchild⟩ := (hasFreeParameterIn_node expr).1 h
      · exact ⟨param.name, hd, .here rfl⟩
      · -- below a lambda its names are declared too
        obtain ⟨name, hd, hfree⟩ := ih child hm _ hchild
        rw [List.mem_append, not_or] at hd
        exact ⟨name, hd.2, .under hm hd.1 hfree⟩
  · rintro ⟨name, hd, hfree⟩
    induction hfree generalizing declared with
    | here hname => exact (hasFreeParameterIn_node _).2 (.inl ⟨_, rfl, hname ▸ hd⟩)
    | @under expr child hm hdeclares _ ih =>
      have hboth : name ∉ expr.declares ++ declared := by
        rw [List.mem_append, not_or]
        exact ⟨hdeclares, hd⟩
      exact (hasFreeParameterIn_node expr).2 (.inr ⟨child, hm, ih _ hboth⟩)

/-- Some parameter is free exactly if the test for some name finds one, and that test finds the
parameters that are free. -/
theorem hasFreeParameter_iff_references (expr : Expr) :
    (expr.hasFreeParameter = true ↔ ∃ name, expr.references name = true) ∧
      ∀ name, expr.references name = true ↔ expr.FreeIn name := by
  refine ⟨?_, fun name => references_iff_freeIn expr⟩
  rw [hasFreeParameter, hasFreeParameterIn_iff_freeIn]
  refine exists_congr fun name => ?_
  rw [references_iff_freeIn, and_iff_right List.not_mem_nil]

end ServiceQuery.Expr
