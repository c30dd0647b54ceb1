import Mathlib.Data.List.Zip
import ServiceQuery.Proofs.Projection

/-!
# Names of bound parameters

Two expressions are alike up to the names of the parameters that their lambdas declare if they have
the same nodes and their parameters are declared at the same places. A parameter that no lambda
declares keeps its name.
-/

namespace ServiceQuery

/-! ### Names -/

/-- Two names stand for the same parameter under lambdas that declare the given pairs of names, the
innermost ones first. -/
def Corresponds : List (String × String) → String → String → Prop
  | [], a, b => a = b
  | (x, y) :: outer, a, b => a = x ∧ b = y ∨ a ≠ x ∧ b ≠ y ∧ Corresponds outer a b

instance Corresponds.decidable :
    (scope : List (String × String)) → (a b : String) → Decidable (Corresponds scope a b)
  | [], a, b => inferInstanceAs (Decidable (a = b))
  | (x, y) :: outer, a, b =>
    have := Corresponds.decidable outer a b
    inferInstanceAs (Decidable (a = x ∧ b = y ∨ a ≠ x ∧ b ≠ y ∧ Corresponds outer a b))

section Corresponds

variable {scope inner outer : List (String × String)} {a b : String}

/-- A name is declared by the inner lambdas or, if they do not declare it, by the outer ones. -/
theorem corresponds_append :
    Corresponds (inner ++ outer) a b ↔
      a ∈ inner.map Prod.fst ∧ b ∈ inner.map Prod.snd ∧ Corresponds inner a b ∨
        a ∉ inner.map Prod.fst ∧ b ∉ inner.map Prod.snd ∧ Corresponds outer a b := by
  induction inner with
  | nil => simp
  | cons pair rest ih =>
    obtain ⟨x, y⟩ := pair
    simp only [List.cons_append, Corresponds, ih, List.map_cons, List.mem_cons]
    by_cases ha : a = x <;> by_cases hb : b = y <;> simp [ha, hb]

theorem corresponds_of_notMem (ha : a ∉ scope.map Prod.fst) (hb : a ∉ scope.map Prod.snd) :
    Corresponds scope a a := by
  have h := corresponds_append.2 (.inr ⟨ha, hb, show Corresponds [] a a from rfl⟩)
  rwa [List.append_nil] at h

theorem Corresponds.symm (h : Corresponds scope a b) : Corresponds (scope.map Prod.swap) b a := by
  induction scope with
  | nil => exact Eq.symm h
  | cons pair rest ih =>
    obtain ⟨x, y⟩ := pair
    obtain ⟨rfl, rfl⟩ | ⟨ha, hb, h⟩ := h
    · exact .inl ⟨rfl, rfl⟩
    · exact .inr ⟨hb, ha, ih h⟩

/-- A pair of names around a scope that declares one of them again is not used. -/
theorem Corresponds.of_append {x y : String} (h : Corresponds (scope ++ [(x, y)]) a b)
    (hs : x ∈ scope.map Prod.fst ∨ y ∈ scope.map Prod.snd) : Corresponds scope a b := by
  obtain ⟨-, -, h⟩ | ⟨ha, hb, ⟨rfl, rfl⟩ | ⟨-, -, rfl⟩⟩ := corresponds_append.1 h
  · exact h
  · exact absurd hs (not_or_intro ha hb)
  · exact corresponds_of_notMem ha hb

/-- A pair of names around a scope that declares neither of them, and all other names. -/
theorem Corresponds.eq_or_inner {x y : String} (h : Corresponds (scope ++ [(x, y)]) a b)
    (hx : x ∉ scope.map Prod.fst) (hy : y ∉ scope.map Prod.snd) :
    a = x ∧ b = y ∨ a ≠ x ∧ b ≠ y ∧ Corresponds scope a b := by
  obtain ⟨ha, hb, h⟩ | ⟨ha, hb, ⟨rfl, rfl⟩ | ⟨hax, hby, rfl⟩⟩ := corresponds_append.1 h
  · refine .inr ⟨?_, ?_, h⟩
    · rintro rfl
      exact hx ha
    · rintro rfl
      exact hy hb
  · exact .inl ⟨rfl, rfl⟩
  · exact .inr ⟨hax, hby, corresponds_of_notMem ha hb⟩

/-- A name that is declared around a scope and not in it corresponds to the one declared with it. -/
theorem Corresponds.eq_of_notMem {x y : String} (h : Corresponds (scope ++ [(x, y)]) x b)
    (hx : x ∉ scope.map Prod.fst) : b = y ∧ b ∉ scope.map Prod.snd := by
  obtain ⟨hm, -⟩ | ⟨-, hb, ⟨-, rfl⟩ | ⟨hne, -⟩⟩ := corresponds_append.1 h
  · exact absurd hm hx
  · exact ⟨rfl, hb⟩
  · exact absurd rfl hne

end Corresponds

/-- The names that two lists of parameters declare at the same places. -/
def Param.pairs (params others : List Param) : List (String × String) :=
  (params.map Param.name).zip (others.map Param.name)

namespace Param

variable {params others : List Param}

theorem declares_iff {name : String} :
    declares params name = true ↔ name ∈ params.map Param.name := by
  simp [declares]

theorem length_eq_of_types (h : params.map Param.ty = others.map Param.ty) :
    params.length = others.length := by
  have hlen := congrArg List.length h
  rwa [List.length_map, List.length_map] at hlen

theorem map_fst_pairs (h : params.map Param.ty = others.map Param.ty) :
    (pairs params others).map Prod.fst = params.map Param.name := by
  have hlen := length_eq_of_types h
  exact List.map_fst_zip (by simp [hlen])

theorem map_snd_pairs (h : params.map Param.ty = others.map Param.ty) :
    (pairs params others).map Prod.snd = others.map Param.name := by
  have hlen := length_eq_of_types h
  exact List.map_snd_zip (by simp [hlen])

theorem map_swap_pairs (params others : List Param) :
    (pairs params others).map Prod.swap = pairs others params := List.zip_swap _ _

theorem corresponds_pairs_self (params : List Param) (name : String) :
    Corresponds (pairs params params) name name := by
  induction params with
  | nil => rfl
  | cons param rest ih =>
    by_cases hname : name = param.name
    · exact .inl ⟨hname, hname⟩
    · exact .inr ⟨hname, hname, ih⟩

end Param

namespace Expr

/-! ### Uses of a parameter -/

section References

/-- Whether a node is a use of the parameter, if that is decided without its subexpressions. -/
def isUse? (name : String) : Expr → Option Bool
  | parameter param => some (param.name == name)
  | lambda params _ => if Param.declares params name then some false else none
  | _ => none

theorem references_eq (name : String) (expr : Expr) :
    expr.references name = expr.anyTopmost (isUse? name) := by
  refine congrArg (fun find? => !(expr.gather find?).isEmpty) (funext fun node => ?_)
  cases node with
  | lambda params body =>
    simp only [isUse?]
    cases Param.declares params name <;> rfl
  | _ => rfl

variable {name : String}

theorem references_parameter (param : Param) :
    (parameter param).references name = true ↔ param.name = name := by
  rw [references_eq, anyTopmost_eq, isUse?]
  exact beq_iff_eq

theorem references_lambda (params : List Param) (body : Expr) :
    (lambda params body).references name = true ↔
      name ∉ params.map Param.name ∧ body.references name = true := by
  rw [references_eq, anyTopmost_eq, isUse?, references_eq, ← Param.declares_iff]
  cases Param.declares params name <;> simp [children]

theorem references_of_isNameless {expr : Expr} (h : expr.isNameless = true) :
    expr.references name = true ↔ ∃ child ∈ expr.children, child.references name = true := by
  have hgo : isUse? name expr = none := by
    cases expr with
    | parameter | lambda => cases h
    | _ => rfl
  rw [references_eq, anyTopmost_eq, hgo]
  simp [references_eq]

theorem hasFreeParameterInList_eq (declared : List String) (exprs : List Expr) :
    hasFreeParameterInList declared exprs = exprs.any (hasFreeParameterIn declared) := by
  induction exprs with
  | nil => rfl
  | cons expr rest ih => rw [hasFreeParameterInList, ih, List.any_cons]

theorem hasFreeParameterInMembers_eq (declared : List String) (members : List (String × Expr)) :
    hasFreeParameterInMembers declared members =
      (members.map Prod.snd).any (hasFreeParameterIn declared) := by
  induction members with
  | nil => rfl
  | cons member rest ih => rw [hasFreeParameterInMembers, ih, List.map_cons, List.any_cons]

/-- A node that is no parameter and declares none has the free parameters of its subexpressions. -/
theorem hasFreeParameterIn_of_isNameless {declared : List String} {expr : Expr}
    (h : expr.isNameless = true) :
    expr.hasFreeParameterIn declared = expr.children.any (hasFreeParameterIn declared) := by
  cases expr with
  | parameter | lambda => cases h
  | _ =>
    simp [hasFreeParameterIn, children, hasFreeParameterInList_eq, hasFreeParameterInMembers_eq,
      Bool.or_assoc]

end References

/-! ### Expressions -/

/-- The node without its subexpressions. -/
def shape (expr : Expr) : Expr := expr.mapChildren fun _ => constant .null

theorem shape_mapChildren (f : Expr → Expr) (expr : Expr) :
    (expr.mapChildren f).shape = expr.shape := mapChildren_mapChildren f _ expr

theorem nameless_of_shape {expr other : Expr} (h : expr.shape = other.shape)
    (hn : expr.isNameless = true) : other.isNameless = true := by
  have hsame := congrArg isNameless h
  rwa [shape, shape, isNameless_mapChildren, isNameless_mapChildren, hn, eq_comm] at hsame

theorem length_children_of_shape {expr other : Expr} (h : expr.shape = other.shape) :
    expr.children.length = other.children.length := by
  have hlen := congrArg (fun shape => shape.children.length) h
  simpa [shape, children_mapChildren] using hlen

theorem children_of_members? {expr : Expr} {members : List (String × Expr)}
    (h : expr.members? = some members) : expr.children = members.map Prod.snd := by
  cases expr with
  | newRecord | newObject =>
    cases h
    rfl
  | _ => cases h

theorem map_fst_mapMembers (f : Expr → Expr) (members : List (String × Expr)) :
    (mapMembers f members).map Prod.fst = members.map Prod.fst := by
  rw [mapMembers, List.map_map]
  rfl

theorem shorten_of_not_member {expr : Expr} (h : ¬∃ source name ty, expr = member source name ty) :
    expr.shorten = expr := by
  cases expr with
  | member => exact absurd ⟨_, _, _, rfl⟩ h
  | _ => rfl

/-- Expressions that are alike up to the names of the parameters that their lambdas declare, under
lambdas that declare the given pairs of names, the innermost ones first. -/
inductive AlphaEq : List (String × String) → Expr → Expr → Prop where
  | parameter {scope : List (String × String)} {param other : Param}
      (names : Corresponds scope param.name other.name) (types : param.ty = other.ty) :
      AlphaEq scope (parameter param) (parameter other)
  | lambda {scope : List (String × String)} {params others : List Param} {body inner : Expr}
      (types : params.map Param.ty = others.map Param.ty)
      (bodies : AlphaEq (Param.pairs params others ++ scope) body inner) :
      AlphaEq scope (lambda params body) (lambda others inner)
  | node {scope : List (String × String)} {expr other : Expr} (nameless : expr.isNameless = true)
      (shapes : expr.shape = other.shape)
      (below : ∀ pair ∈ expr.children.zip other.children, AlphaEq scope pair.1 pair.2) :
      AlphaEq scope expr other

section Zip

variable {α β : Type} {first : List α} {second : List β}

theorem exists_mem_zip_left (h : first.length = second.length) {a : α} (ha : a ∈ first) :
    ∃ b, (a, b) ∈ first.zip second := by
  rw [← List.map_fst_zip (Nat.le_of_eq h)] at ha
  obtain ⟨pair, hp, rfl⟩ := List.mem_map.1 ha
  exact ⟨pair.2, hp⟩

theorem exists_mem_zip_right (h : first.length = second.length) {b : β} (hb : b ∈ second) :
    ∃ a, (a, b) ∈ first.zip second := by
  rw [← List.map_snd_zip (Nat.le_of_eq h.symm)] at hb
  obtain ⟨pair, hp, rfl⟩ := List.mem_map.1 hb
  exact ⟨pair.1, hp⟩

theorem mem_zip_self {pair : α × α} (h : pair ∈ first.zip first) :
    ∃ item ∈ first, (item, item) = pair := by
  have hzip : first.zip first = first.map fun item => (item, item) := by
    simpa using List.zip_map' (f := id) (g := id) (l := first)
  rw [hzip] at h
  exact List.mem_map.1 h

end Zip

namespace AlphaEq

variable {scope : List (String × String)} {expr other : Expr}

/-- An expression is like itself where the parameters that it uses keep their names. -/
theorem of_references (expr : Expr) (scope : List (String × String))
    (h : ∀ name, expr.references name = true → Corresponds scope name name) :
    AlphaEq scope expr expr := by
  induction expr using induction_children generalizing scope with
  | node expr ih =>
    by_cases hn : expr.isNameless = true
    · refine .node hn rfl fun pair hp => ?_
      obtain ⟨child, hm, rfl⟩ := mem_zip_self hp
      exact ih child hm scope fun name hname => h name ((references_of_isNameless hn).2
        ⟨child, hm, hname⟩)
    · cases expr with
      | parameter param => exact .parameter (h _ ((references_parameter param).2 rfl)) rfl
      | lambda params body =>
        refine .lambda rfl (ih body List.mem_cons_self _ fun name hname => ?_)
        -- the names that the lambda declares come before those declared around it
        by_cases hd : name ∈ params.map Param.name
        · refine corresponds_append.2 (.inl ⟨?_, ?_, Param.corresponds_pairs_self params name⟩)
          · rwa [Param.map_fst_pairs rfl]
          · rwa [Param.map_snd_pairs rfl]
        · have houter := h name ((references_lambda params body).2 ⟨hd, hname⟩)
          refine corresponds_append.2 (.inr ⟨?_, ?_, houter⟩)
          · rwa [Param.map_fst_pairs rfl]
          · rwa [Param.map_snd_pairs rfl]
      | _ => exact absurd rfl hn

protected theorem symm (h : AlphaEq scope expr other) :
    AlphaEq (scope.map Prod.swap) other expr := by
  induction h with
  | parameter names types => exact .parameter names.symm types.symm
  | lambda types bodies ih =>
    rw [List.map_append, Param.map_swap_pairs] at ih
    exact .lambda types.symm ih
  | node nameless shapes below ih =>
    refine .node (nameless_of_shape shapes nameless) shapes.symm fun pair hp => ?_
    rw [← List.zip_swap] at hp
    obtain ⟨swapped, hs, rfl⟩ := List.mem_map.1 hp
    exact ih swapped hs

/-- Each parameter that one expression uses corresponds to one that the other uses. -/
theorem references (h : AlphaEq scope expr other) {a : String} (ha : expr.references a = true) :
    ∃ b, Corresponds scope a b ∧ other.references b = true := by
  induction h with
  | parameter names types =>
    obtain rfl := (references_parameter _).1 ha
    exact ⟨_, names, (references_parameter _).2 rfl⟩
  | lambda types bodies ih =>
    obtain ⟨hd, ha⟩ := (references_lambda _ _).1 ha
    obtain ⟨b, hc, hb⟩ := ih ha
    rw [corresponds_append, Param.map_fst_pairs types, Param.map_snd_pairs types] at hc
    obtain ⟨hm, -⟩ | ⟨-, hn, hc⟩ := hc
    · exact absurd hm hd
    · exact ⟨b, hc, (references_lambda _ _).2 ⟨hn, hb⟩⟩
  | node nameless shapes below ih =>
    obtain ⟨child, hm, ha⟩ := (references_of_isNameless nameless).1 ha
    obtain ⟨partner, hp⟩ := exists_mem_zip_left (length_children_of_shape shapes) hm
    obtain ⟨b, hc, hb⟩ := ih _ hp ha
    have hother := nameless_of_shape shapes nameless
    exact ⟨b, hc, (references_of_isNameless hother).2 ⟨partner, (List.of_mem_zip hp).2, hb⟩⟩

/-- Other lambdas around two expressions, under which names that corresponded still do. -/
theorem mono (h : AlphaEq scope expr other) {scope' : List (String × String)}
    (hs : ∀ a b, Corresponds scope a b → Corresponds scope' a b) : AlphaEq scope' expr other := by
  induction h generalizing scope' with
  | parameter names types => exact .parameter (hs _ _ names) types
  | lambda types bodies ih =>
    refine .lambda types (ih fun a b hc => ?_)
    rw [corresponds_append] at hc ⊢
    obtain hc | ⟨ha, hb, hc⟩ := hc
    · exact .inl hc
    · exact .inr ⟨ha, hb, hs a b hc⟩
  | node nameless shapes below ih => exact .node nameless shapes fun pair hp => ih pair hp hs

/-- Nodes of the same shape are alike if what functions make of their subexpressions is. -/
theorem mapChildren {f g : Expr → Expr} (nameless : expr.isNameless = true)
    (shapes : expr.shape = other.shape)
    (h : ∀ pair ∈ expr.children.zip other.children, AlphaEq scope (f pair.1) (g pair.2)) :
    AlphaEq scope (expr.mapChildren f) (other.mapChildren g) := by
  refine .node ?_ ?_ fun pair hp => ?_
  · rw [isNameless_mapChildren, nameless]
  · rw [shape_mapChildren, shape_mapChildren, shapes]
  · rw [children_mapChildren, children_mapChildren, List.zip_map] at hp
    obtain ⟨source, hm, rfl⟩ := List.mem_map.1 hp
    exact h source hm

/-- The same for functions that may have no result. -/
theorem mapChildrenM {f g : Expr → Option Expr} (nameless : expr.isNameless = true)
    (shapes : expr.shape = other.shape)
    (h : ∀ pair ∈ expr.children.zip other.children, ∀ result, f pair.1 = some result →
      ∃ result', g pair.2 = some result' ∧ AlphaEq scope result result')
    {result : Expr} (hresult : expr.mapChildrenM f = some result) :
    ∃ result', other.mapChildrenM g = some result' ∧ AlphaEq scope result result' := by
  obtain ⟨f', rfl, hf⟩ := mapChildrenM_gives .option hresult
  obtain ⟨g', hg⟩ := Outcome.option.exists_function (f := g)
  have hpair : ∀ pair ∈ expr.children.zip other.children,
      g pair.2 = some (g' pair.2) ∧ AlphaEq scope (f' pair.1) (g' pair.2) := by
    intro pair hp
    obtain ⟨result, hr, hrel⟩ := h pair hp _ (hf pair.1 (List.of_mem_zip hp).1)
    obtain rfl := hg pair.2 result hr
    exact ⟨hr, hrel⟩
  have hchildren : ∀ child ∈ other.children, g child = some (g' child) := by
    intro child hc
    obtain ⟨partner, hp⟩ := exists_mem_zip_right (length_children_of_shape shapes) hc
    exact (hpair _ hp).1
  exact ⟨other.mapChildren g', mapChildrenM_reaches (.withoutEffect Option) hchildren,
    mapChildren nameless shapes fun pair hp => (hpair pair hp).2⟩

theorem of_mem_zip (h : AlphaEq scope expr other) (hn : expr.isNameless = true) {pair : Expr × Expr}
    (hp : pair ∈ expr.children.zip other.children) : AlphaEq scope pair.1 pair.2 := by
  cases h with
  | parameter | lambda => cases hn
  | node nameless shapes below => exact below pair hp

/-! ### Members of constructions -/

theorem parameter_left {param : Param} (h : AlphaEq scope (.parameter param) other) :
    ∃ partner, other = .parameter partner ∧ Corresponds scope param.name partner.name := by
  cases h with
  | parameter names types => exact ⟨_, rfl, names⟩
  | node nameless => cases nameless

theorem member_left {source : Expr} {name : String} {ty : Ty}
    (h : AlphaEq scope (member source name ty) other) :
    ∃ partner, other = member partner name ty ∧ AlphaEq scope source partner := by
  cases h with
  | node nameless shapes below =>
    cases other with
    | member partner =>
      cases shapes
      exact ⟨partner, rfl, below _ List.mem_cons_self⟩
    | _ => cases shapes

theorem member_iff {source partner : Expr} {name : String} {ty : Ty} :
    AlphaEq scope (member source name ty) (member partner name ty) ↔
      AlphaEq scope source partner := by
  constructor
  · intro h
    obtain ⟨_, heq, hs⟩ := h.member_left
    cases heq
    exact hs
  · exact fun h => .node rfl rfl (List.forall_mem_singleton.2 h)

theorem lambda_iff {params others : List Param} {body inner : Expr} :
    AlphaEq scope (.lambda params body) (.lambda others inner) ↔
      params.map Param.ty = others.map Param.ty ∧
        AlphaEq (Param.pairs params others ++ scope) body inner := by
  constructor
  · intro h
    cases h with
    | lambda types bodies => exact ⟨types, bodies⟩
    | node nameless => cases nameless
  · exact fun h => .lambda h.1 h.2

theorem lookup_related {members others : List (String × Expr)}
    (hn : members.map Prod.fst = others.map Prod.fst)
    (h : ∀ pair ∈ (members.map Prod.snd).zip (others.map Prod.snd), AlphaEq scope pair.1 pair.2)
    (name : String) : Option.Rel (AlphaEq scope) (members.lookup name) (others.lookup name) := by
  induction members generalizing others with
  | nil =>
    obtain rfl := List.map_eq_nil_iff.1 hn.symm
    exact .none
  | cons member rest ih =>
    cases others with
    | nil => cases hn
    | cons partner others =>
      obtain ⟨hname, hn⟩ := List.cons.inj hn
      rw [List.map_cons, List.map_cons, List.zip_cons_cons, List.forall_mem_cons] at h
      rw [List.lookup_cons, List.lookup_cons, hname]
      cases name == partner.1 with
      | true => exact .some h.1
      | false => exact ih hn h.2

/-- What is assigned to a member of a construction. -/
theorem constructed? (h : AlphaEq scope expr other) (name : String) :
    Option.Rel (AlphaEq scope) (expr.constructed? name) (other.constructed? name) := by
  cases h with
  | parameter names types => exact .none
  | lambda types bodies => exact .none
  | node nameless shapes below =>
    -- constructions of the same shape assign to the same names in the same order
    have hmembers := congrArg members? shapes
    rw [shape, shape, members?_mapChildren, members?_mapChildren] at hmembers
    rw [Expr.constructed?, Expr.constructed?]
    cases he : expr.members? with
    | none =>
      rw [he, Option.map_none, eq_comm, Option.map_eq_none_iff] at hmembers
      rw [hmembers]
      exact .none
    | some members =>
      rw [he, Option.map_some, eq_comm, Option.map_eq_some_iff] at hmembers
      obtain ⟨others, ho, hsame⟩ := hmembers
      rw [children_of_members? he, children_of_members? ho] at below
      have hnames := congrArg (List.map Prod.fst) hsame
      rw [map_fst_mapMembers, map_fst_mapMembers] at hnames
      rw [ho]
      exact lookup_related hnames.symm below name

/-- A member that is read from a construction is so in both expressions. -/
theorem shorten (h : AlphaEq scope expr other) : AlphaEq scope expr.shorten other.shorten := by
  by_cases hm : ∃ source name ty, expr = member source name ty
  · obtain ⟨source, name, ty, rfl⟩ := hm
    obtain ⟨partner, rfl, hp⟩ := member_left h
    have hassigned := hp.constructed? name
    rw [Expr.shorten, Expr.shorten]
    generalize source.constructed? name = first at hassigned ⊢
    generalize partner.constructed? name = second at hassigned ⊢
    cases hassigned with
    | some hassigned => exact hassigned
    | none => exact h
  · have ho : ¬∃ source name ty, other = member source name ty := by
      rintro ⟨source, name, ty, rfl⟩
      obtain ⟨partner, rfl, -⟩ := member_left h.symm
      exact hm ⟨_, _, _, rfl⟩
    rwa [shorten_of_not_member hm, shorten_of_not_member ho]

end AlphaEq

end Expr

/-- Lambdas that are alike up to the names of their parameters and of those in their bodies. -/
def Lambda.AlphaEq (f g : Lambda) : Prop := Expr.AlphaEq [] f.toExpr g.toExpr

end ServiceQuery
