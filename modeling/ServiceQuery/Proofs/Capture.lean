import ServiceQuery.Proofs.Alpha
import ServiceQuery.Proofs.Binding.Step

/-!
# Capture of parameters by projections

What stands for the parameter of a projection is put under the lambdas in its body as it is. Where
one of them declares a name that it uses, that lambda takes the use over. Where none does, the
result does not depend on the names that the lambdas give to their parameters.
-/

namespace ServiceQuery

namespace Expr

/-! ### Members that are read from constructions -/

/-- Whether the node is a member that is read from a construction. -/
def readsConstruction : Expr → Bool
  | member source name _ => (source.constructed? name).isSome
  | _ => false

/-- Whether no member is read from a construction. -/
def isShort (expr : Expr) : Bool := expr.nodes.all fun node => !node.readsConstruction

theorem isShort_iff {expr : Expr} :
    expr.isShort = true ↔
      expr.readsConstruction = false ∧ ∀ child ∈ expr.children, child.isShort = true := by
  simp only [isShort, List.all_eq_true, Bool.not_eq_true']
  exact forall_nodes

theorem shorten_eq_self {expr : Expr} (h : expr.readsConstruction = false) :
    expr.shorten = expr := by
  cases expr with
  | member source name ty =>
    rw [readsConstruction, Option.isSome_eq_false_iff, Option.isNone_iff_eq_none] at h
    rw [shorten, h, Option.getD_none]
  | _ => rfl

theorem AlphaEq.readsConstruction {scope : List (String × String)} {expr other : Expr}
    (h : AlphaEq scope expr other) (hr : other.readsConstruction = true) :
    expr.readsConstruction = true := by
  cases other with
  | member source name ty =>
    obtain ⟨partner, rfl, hp⟩ := h.symm.member_left
    have hassigned := hp.constructed? name
    rw [Expr.readsConstruction] at hr ⊢
    generalize source.constructed? name = first at hassigned hr
    generalize partner.constructed? name = second at hassigned ⊢
    cases hassigned with
    | some => rfl
    | none => cases hr
  | _ => cases hr

theorem AlphaEq.isShort {scope : List (String × String)} {expr other : Expr}
    (h : AlphaEq scope expr other) (hs : expr.isShort = true) : other.isShort = true := by
  induction h with
  | parameter names types => rfl
  | lambda types bodies ih =>
    obtain ⟨-, hbody⟩ := isShort_iff.1 hs
    exact isShort_iff.2 ⟨rfl, List.forall_mem_singleton.2 (ih (hbody _ List.mem_cons_self))⟩
  | node nameless shapes below ih =>
    obtain ⟨hreads, hchildren⟩ := isShort_iff.1 hs
    refine isShort_iff.2 ⟨?_, fun child hm => ?_⟩
    · refine Bool.eq_false_iff.2 fun hr => Bool.eq_false_iff.1 hreads ?_
      exact (AlphaEq.node nameless shapes below).readsConstruction hr
    · obtain ⟨partner, hp⟩ := exists_mem_zip_right (length_children_of_shape shapes) hm
      exact ih _ hp (hchildren partner (List.of_mem_zip hp).1)

/-! ### Lambdas around a parameter -/

/-- Whether a node takes a use of the inserted expression over, if that is decided without its
subexpressions. -/
def isCapture? (name : String) (inserted : Expr) : Expr → Option Bool
  | lambda params body =>
    if Param.declares params name then some false
    else if body.references name && params.any fun param => inserted.references param.name then
      some true
    else none
  | _ => none

/-- Whether a lambda around a use of the parameter declares a name that the inserted expression
uses. -/
def captures (expr : Expr) (name : String) (inserted : Expr) : Bool :=
  expr.anyTopmost (isCapture? name inserted)

/-- Whether a node hides a construction, if that is decided without its subexpressions. -/
def isHidden? (name : String) : Expr → Option Bool
  | lambda params body => if Param.declares params name then some (!body.isShort) else none
  | _ => none

/-- Whether a lambda that rebinds the parameter reads a member from a construction. -/
def hidesConstruction (expr : Expr) (name : String) : Bool := expr.anyTopmost (isHidden? name)

section Conditions

variable {expr inserted body child : Expr} {name : String} {params : List Param}

theorem captures_child (h : expr.captures name inserted = false) (hn : expr.isNameless = true)
    (hc : child ∈ expr.children) : child.captures name inserted = false := by
  refine anyTopmost_child h ?_ hc
  cases expr with
  | parameter | lambda => cases hn
  | _ => rfl

theorem captures_body (h : (lambda params body).captures name inserted = false)
    (hn : name ∉ params.map Param.name) :
    body.captures name inserted = false ∧
      (body.references name = true →
        ∀ other, inserted.references other = true → other ∉ params.map Param.name) := by
  have hd : Param.declares params name = false := by
    rwa [Bool.eq_false_iff, ne_eq, Param.declares_iff]
  have hfree : (body.references name &&
      params.any fun param => inserted.references param.name) = false := by
    refine Bool.eq_false_iff.2 fun hcapture => ?_
    simp [captures, anyTopmost_eq, isCapture?, hd, hcapture] at h
  constructor
  · refine anyTopmost_child h ?_ List.mem_cons_self
    simp [isCapture?, hd, hfree]
  · intro hbody other ho hm
    obtain ⟨param, hp, rfl⟩ := List.mem_map.1 hm
    rw [hbody, Bool.true_and, List.any_eq_false] at hfree
    exact hfree param hp ho

theorem hidesConstruction_child (h : expr.hidesConstruction name = false)
    (hn : expr.isNameless = true) (hc : child ∈ expr.children) :
    child.hidesConstruction name = false := by
  refine anyTopmost_child h ?_ hc
  cases expr with
  | parameter | lambda => cases hn
  | _ => rfl

theorem hidesConstruction_body (h : (lambda params body).hidesConstruction name = false)
    (hn : name ∉ params.map Param.name) : body.hidesConstruction name = false := by
  refine anyTopmost_child h ?_ List.mem_cons_self
  rw [isHidden?, if_neg (mt Param.declares_iff.1 hn)]

theorem isShort_of_hidesConstruction (h : (lambda params body).hidesConstruction name = false)
    (hn : name ∈ params.map Param.name) : body.isShort = true := by
  rw [hidesConstruction, anyTopmost_eq, isHidden?, if_pos (Param.declares_iff.2 hn)] at h
  simpa using h

end Conditions

/-- An expression can be inserted for the parameter under lambdas that declare the `bound` names:
none of them rebinds the parameter or declares a name that the expression uses, and no lambda below
takes a use over. -/
structure Receives (bound : List String) (name : String) (inserted expr : Expr) : Prop where
  notMem : name ∉ bound
  fresh : expr.references name = true → ∀ other, inserted.references other = true → other ∉ bound
  below : expr.captures name inserted = false

namespace Receives

variable {bound : List String} {name : String} {inserted expr : Expr}

theorem of_captures (h : expr.captures name inserted = false) : Receives [] name inserted expr :=
  ⟨List.not_mem_nil, fun _ _ _ => List.not_mem_nil, h⟩

theorem child (h : Receives bound name inserted expr) (hn : expr.isNameless = true) {child : Expr}
    (hc : child ∈ expr.children) : Receives bound name inserted child where
  notMem := h.notMem
  fresh hr := h.fresh ((references_of_isNameless hn).2 ⟨child, hc, hr⟩)
  below := captures_child h.below hn hc

theorem body {params : List Param} {body : Expr}
    (h : Receives bound name inserted (lambda params body)) (hn : name ∉ params.map Param.name) :
    Receives (params.map Param.name ++ bound) name inserted body where
  notMem := fun hm => (List.mem_append.1 hm).elim hn h.notMem
  fresh hr other ho hm := by
    obtain ⟨-, hfree⟩ := captures_body h.below hn
    obtain hm | hm := List.mem_append.1 hm
    · exact hfree hr other ho hm
    · exact h.fresh ((references_lambda params body).2 ⟨hn, hr⟩) other ho hm
  below := (captures_body h.below hn).1

/-- What is inserted on both sides is like itself there. -/
theorem alphaEq {scope : List (String × String)} {name' : String} {other : Expr}
    (hl : Receives (scope.map Prod.fst) name inserted expr)
    (hr : Receives (scope.map Prod.snd) name' inserted other)
    (hn : expr.references name = true) (hn' : other.references name' = true) :
    AlphaEq scope inserted inserted :=
  .of_references inserted scope fun used hu =>
    corresponds_of_notMem (hl.fresh hn used hu) (hr.fresh hn' used hu)

end Receives

/-! ### Substitution -/

section Substitute

variable {name : String} {replacement : Expr}

theorem substitute_parameter_self (param : Param) :
    (parameter param).substitute param.name replacement = replacement := by
  rw [substitute_eq, substituted?, if_pos (beq_self_eq_true _), Option.getD_some]

theorem substitute_parameter_of_ne {param : Param} (h : param.name ≠ name) :
    (parameter param).substitute name replacement = parameter param := by
  rw [substitute_eq, substituted?, if_neg (mt beq_iff_eq.1 h)]
  rfl

theorem substitute_lambda_of_mem {params : List Param} {body : Expr}
    (h : name ∈ params.map Param.name) :
    (lambda params body).substitute name replacement = lambda params body := by
  rw [substitute_eq, substituted?, if_pos (Param.declares_iff.2 h), Option.getD_some]

theorem substitute_lambda_of_notMem {params : List Param} {body : Expr}
    (h : name ∉ params.map Param.name) :
    (lambda params body).substitute name replacement =
      lambda params (body.substitute name replacement) := by
  rw [substitute_eq, substituted?, if_neg (mt Param.declares_iff.1 h)]
  rfl

/-- A parameter that is not used is not replaced. -/
theorem substitute_of_not_references (expr : Expr) (hr : ¬expr.references name = true)
    (hs : expr.isShort = true) : expr.substitute name replacement = expr := by
  induction expr using induction_children with
  | node expr ih =>
    obtain ⟨hreads, hchildren⟩ := isShort_iff.1 hs
    by_cases hn : expr.isNameless = true
    · have hsame : expr.mapChildren (fun child => child.substitute name replacement) = expr := by
        refine (mapChildren_congr fun child hc => ?_).trans (mapChildren_id expr)
        have hchild : ¬child.references name = true := fun h =>
          hr ((references_of_isNameless hn).2 ⟨child, hc, h⟩)
        exact ih child hc hchild (hchildren child hc)
      rw [substitute_of_isNameless hn, hsame, shorten_eq_self hreads]
    · cases expr with
      | parameter param =>
        exact substitute_parameter_of_ne (mt (references_parameter param).2 hr)
      | lambda params body =>
        by_cases hd : name ∈ params.map Param.name
        · exact substitute_lambda_of_mem hd
        · have hbody : ¬body.references name = true := fun h =>
            hr ((references_lambda params body).2 ⟨hd, h⟩)
          rw [substitute_lambda_of_notMem hd, ih body List.mem_cons_self hbody
            (hchildren body List.mem_cons_self)]
      | _ => exact absurd rfl hn

end Substitute

/-! ### Access to a field -/

/-- Whether the node is the field that is read from the parameter. -/
def accesses (expr : Expr) (old accessor : String) : Bool :=
  match expr with
  | member source name _ => name == accessor && source.isParameter old
  | _ => false

section Accessor

variable {old accessor : String} {new : Param}

theorem accesses_iff {expr : Expr} :
    expr.accesses old accessor = true ↔
      ∃ param ty, expr = member (parameter param) accessor ty ∧ param.name = old := by
  constructor
  · intro h
    cases expr with
    | member source name ty =>
      rw [accesses, Bool.and_eq_true, beq_iff_eq] at h
      obtain ⟨rfl, hs⟩ := h
      cases source with
      | parameter param => exact ⟨param, ty, rfl, beq_iff_eq.1 hs⟩
      | _ => cases hs
    | _ => cases h
  · rintro ⟨param, ty, rfl, rfl⟩
    simp [accesses, isParameter]

theorem references_of_accesses {expr : Expr} (h : expr.accesses old accessor = true) :
    expr.references old = true := by
  obtain ⟨param, ty, rfl, hname⟩ := accesses_iff.1 h
  exact (references_of_isNameless rfl).2
    ⟨_, List.mem_cons_self, (references_parameter param).2 hname⟩

theorem replaceAccessor?_parameter_of_ne {param : Param} (h : param.name ≠ old) :
    (parameter param).replaceAccessor? old accessor new = some (parameter param) := by
  rw [replaceAccessor?, replaceM_of_none _ (by simp [h])]
  rfl

theorem replaceAccessor?_parameter_self (param : Param) :
    (parameter param).replaceAccessor? param.name accessor new = none :=
  replaceM_of_some _ (by simp)

theorem replaceAccessor?_lambda_of_mem {params : List Param} {body : Expr}
    (h : old ∈ params.map Param.name) :
    (lambda params body).replaceAccessor? old accessor new = some (lambda params body) :=
  replaceM_of_some _ (by simp [Param.declares_iff.2 h])

theorem replaceAccessor?_lambda_of_notMem {params : List Param} {body : Expr}
    (h : old ∉ params.map Param.name) :
    (lambda params body).replaceAccessor? old accessor new =
      (body.replaceAccessor? old accessor new).map (lambda params) := by
  rw [replaceAccessor?, replaceM_of_none _ (by simp [mt Param.declares_iff.1 h])]
  exact Option.map_eq_bind.symm

theorem replaceAccessor?_of_accesses {expr : Expr} (h : expr.accesses old accessor = true) :
    expr.replaceAccessor? old accessor new = some new.toExpr := by
  obtain ⟨param, ty, rfl, rfl⟩ := accesses_iff.1 h
  exact replaceM_of_some _ (by simp [isParameter])

theorem replaceAccessor?_of_isNameless {expr : Expr} (hn : expr.isNameless = true)
    (h : expr.accesses old accessor = false) :
    expr.replaceAccessor? old accessor new =
      expr.mapChildrenM fun child => child.replaceAccessor? old accessor new := by
  refine replaceM_of_none _ ?_
  cases expr with
  | parameter | lambda => cases hn
  | member source name ty =>
    rw [accesses] at h
    simp [h]
  | _ => rfl

/-- A parameter that is not used has no field to replace. -/
theorem replaceAccessor?_of_not_references (expr : Expr) (hr : ¬expr.references old = true) :
    expr.replaceAccessor? old accessor new = some expr := by
  induction expr using induction_children with
  | node expr ih =>
    by_cases hn : expr.isNameless = true
    · have ha : expr.accesses old accessor = false :=
        Bool.eq_false_iff.2 fun h => hr (references_of_accesses h)
      have hchildren : ∀ child ∈ expr.children,
          child.replaceAccessor? old accessor new = some child := fun child hc =>
        ih child hc fun h => hr ((references_of_isNameless hn).2 ⟨child, hc, h⟩)
      rw [replaceAccessor?_of_isNameless hn ha]
      exact (mapChildrenM_reaches (.withoutEffect Option) hchildren).trans
        (congrArg some (mapChildren_id expr))
    · cases expr with
      | parameter param =>
        exact replaceAccessor?_parameter_of_ne (mt (references_parameter param).2 hr)
      | lambda params body =>
        by_cases hd : old ∈ params.map Param.name
        · exact replaceAccessor?_lambda_of_mem hd
        · have hbody : ¬body.references old = true := fun h =>
            hr ((references_lambda params body).2 ⟨hd, h⟩)
          rw [replaceAccessor?_lambda_of_notMem hd, ih body List.mem_cons_self hbody]
          rfl
      | _ => exact absurd rfl hn

end Accessor

namespace AlphaEq

variable {scope : List (String × String)} {expr other inserted : Expr} {x y : String}

/-- An expression under lambdas that declare one of two names again does not use the other one. -/
theorem not_references (h : AlphaEq (scope ++ [(x, y)]) expr other) (hx : x ∉ scope.map Prod.fst)
    (hy : y ∈ scope.map Prod.snd) : ¬expr.references x = true := by
  intro hr
  obtain ⟨b, hc, -⟩ := h.references hr
  obtain ⟨rfl, hb⟩ := hc.eq_of_notMem hx
  exact hb hy

section Shadowed

variable {params others : List Param} {body inner : Expr}

/-- A pair of names around two lambdas of which one declares its name again is not used in their
bodies. -/
theorem bodies_of_shadowed (types : params.map Param.ty = others.map Param.ty)
    (h : AlphaEq (Param.pairs params others ++ (scope ++ [(x, y)])) body inner)
    (hd : x ∈ params.map Param.name ∨ y ∈ others.map Param.name) :
    AlphaEq (Param.pairs params others ++ scope) body inner := by
  rw [← List.append_assoc] at h
  refine h.mono fun a b hc => hc.of_append ?_
  simp only [List.map_append, List.mem_append, Param.map_fst_pairs types,
    Param.map_snd_pairs types]
  exact hd.imp .inl .inl

theorem not_references_of_shadowed (types : params.map Param.ty = others.map Param.ty)
    (h : AlphaEq (Param.pairs params others ++ (scope ++ [(x, y)])) body inner)
    (hx : x ∉ scope.map Prod.fst) (hp : x ∉ params.map Param.name)
    (ho : y ∈ others.map Param.name) : ¬body.references x = true := by
  rw [← List.append_assoc] at h
  refine h.not_references ?_ ?_
  · rw [List.map_append, Param.map_fst_pairs types]
    exact fun hm => (List.mem_append.1 hm).elim hp hx
  · rw [List.map_append, Param.map_snd_pairs types]
    exact List.mem_append_left _ ho

/-- The lambda on one side stays as it is if the one on the other side rebinds the parameter. -/
theorem substitute_of_shadowed (types : params.map Param.ty = others.map Param.ty)
    (h : AlphaEq (Param.pairs params others ++ (scope ++ [(x, y)])) body inner)
    (hx : x ∉ scope.map Prod.fst) (hd : x ∈ params.map Param.name ∨ y ∈ others.map Param.name)
    (hs : (Expr.lambda others inner).hidesConstruction y = false) :
    (Expr.lambda params body).substitute x inserted = .lambda params body := by
  by_cases hp : x ∈ params.map Param.name
  · exact substitute_lambda_of_mem hp
  · -- the body is visited, but has no use of the parameter and nothing to shorten
    have ho := hd.resolve_left hp
    have hshort := h.symm.isShort (isShort_of_hidesConstruction hs ho)
    have hr := h.not_references_of_shadowed types hx hp ho
    rw [substitute_lambda_of_notMem hp, substitute_of_not_references body hr hshort]

theorem replaceAccessor?_of_shadowed (types : params.map Param.ty = others.map Param.ty)
    (h : AlphaEq (Param.pairs params others ++ (scope ++ [(x, y)])) body inner)
    (hx : x ∉ scope.map Prod.fst) (hd : x ∈ params.map Param.name ∨ y ∈ others.map Param.name)
    {accessor : String} {element : Param} :
    (Expr.lambda params body).replaceAccessor? x accessor element = some (.lambda params body) := by
  by_cases hp : x ∈ params.map Param.name
  · exact replaceAccessor?_lambda_of_mem hp
  · have hr := h.not_references_of_shadowed types hx hp (hd.resolve_left hp)
    rw [replaceAccessor?_lambda_of_notMem hp, replaceAccessor?_of_not_references body hr]
    rfl

theorem symm_append (h : AlphaEq (Param.pairs params others ++ (scope ++ [(x, y)])) body inner) :
    AlphaEq (Param.pairs others params ++ (scope.map Prod.swap ++ [(y, x)])) inner body := by
  have hsymm := h.symm
  rwa [List.map_append, Param.map_swap_pairs, List.map_append] at hsymm

end Shadowed

theorem notMem_map_swap (h : y ∉ scope.map Prod.snd) : y ∉ (scope.map Prod.swap).map Prod.fst := by
  rwa [List.map_map]

/-- An expression that is inserted into two that are alike gives two that are alike, if it is not
captured. -/
theorem substitute (h : AlphaEq (scope ++ [(x, y)]) expr other)
    (hl : Receives (scope.map Prod.fst) x inserted expr)
    (hr : Receives (scope.map Prod.snd) y inserted other)
    (hle : expr.hidesConstruction x = false) (hre : other.hidesConstruction y = false) :
    AlphaEq scope (expr.substitute x inserted) (other.substitute y inserted) := by
  generalize hwhole : scope ++ [(x, y)] = whole at h
  induction h generalizing scope with
  | @parameter _ param partner names types =>
    subst hwhole
    obtain ⟨rfl, rfl⟩ | ⟨hx, hy, hc⟩ := names.eq_or_inner hl.notMem hr.notMem
    · rw [substitute_parameter_self, substitute_parameter_self]
      have hparam := (references_parameter param).2 rfl
      have hpartner := (references_parameter partner).2 rfl
      exact hl.alphaEq hr hparam hpartner
    · rw [substitute_parameter_of_ne hx, substitute_parameter_of_ne hy]
      exact .parameter hc types
  | @lambda _ params others body inner types bodies ih =>
    subst hwhole
    -- a lambda that rebinds the parameter stays, and then the one on the other side does too
    by_cases hd : x ∈ params.map Param.name ∨ y ∈ others.map Param.name
    · have hy := notMem_map_swap hr.notMem
      rw [bodies.substitute_of_shadowed types hl.notMem hd hre,
        bodies.symm_append.substitute_of_shadowed types.symm hy hd.symm hle]
      exact .lambda types (bodies_of_shadowed types bodies hd)
    · obtain ⟨hx, hy⟩ := not_or.1 hd
      rw [substitute_lambda_of_notMem hx, substitute_lambda_of_notMem hy]
      refine .lambda types (ih ?_ ?_ (hidesConstruction_body hle hx) (hidesConstruction_body hre hy)
        (List.append_assoc ..))
      · rw [List.map_append, Param.map_fst_pairs types]
        exact hl.body hx
      · rw [List.map_append, Param.map_snd_pairs types]
        exact hr.body hy
  | node nameless shapes below ih =>
    have hother := nameless_of_shape shapes nameless
    rw [substitute_of_isNameless nameless, substitute_of_isNameless hother]
    -- the rebuilt nodes are alike, and so are the members that are read from them
    refine AlphaEq.shorten (mapChildren nameless shapes fun pair hp => ?_)
    obtain ⟨hfirst, hsecond⟩ := List.of_mem_zip hp
    exact ih pair hp (hl.child nameless hfirst) (hr.child hother hsecond)
      (hidesConstruction_child hle nameless hfirst) (hidesConstruction_child hre hother hsecond)
      hwhole

theorem accesses (h : AlphaEq (scope ++ [(x, y)]) expr other) (hx : x ∉ scope.map Prod.fst)
    {accessor : String} (ha : expr.accesses x accessor = true) :
    other.accesses y accessor = true := by
  obtain ⟨param, ty, rfl, rfl⟩ := accesses_iff.1 ha
  obtain ⟨source, rfl, hs⟩ := h.member_left
  obtain ⟨partner, rfl, hc⟩ := hs.parameter_left
  exact accesses_iff.2 ⟨partner, ty, rfl, (hc.eq_of_notMem hx).1⟩

/-- The element in place of the field that is read from the parameters gives two expressions that
are alike, if it is not captured. -/
theorem replaceAccessor? (h : AlphaEq (scope ++ [(x, y)]) expr other) {accessor : String}
    {element : Param} (hl : Receives (scope.map Prod.fst) x element.toExpr expr)
    (hr : Receives (scope.map Prod.snd) y element.toExpr other) {result : Expr}
    (hresult : expr.replaceAccessor? x accessor element = some result) :
    ∃ result', other.replaceAccessor? y accessor element = some result' ∧
      AlphaEq scope result result' := by
  generalize hwhole : scope ++ [(x, y)] = whole at h
  induction h generalizing scope result with
  | @parameter _ param partner names types =>
    subst hwhole
    obtain ⟨rfl, rfl⟩ | ⟨hx, hy, hc⟩ := names.eq_or_inner hl.notMem hr.notMem
    · rw [replaceAccessor?_parameter_self] at hresult
      cases hresult
    · rw [replaceAccessor?_parameter_of_ne hx] at hresult
      cases hresult
      exact ⟨_, replaceAccessor?_parameter_of_ne hy, .parameter hc types⟩
  | @lambda _ params others body inner types bodies ih =>
    subst hwhole
    by_cases hd : x ∈ params.map Param.name ∨ y ∈ others.map Param.name
    · rw [bodies.replaceAccessor?_of_shadowed types hl.notMem hd] at hresult
      cases hresult
      exact ⟨_, bodies.symm_append.replaceAccessor?_of_shadowed types.symm
        (notMem_map_swap hr.notMem) hd.symm, .lambda types (bodies_of_shadowed types bodies hd)⟩
    · obtain ⟨hx, hy⟩ := not_or.1 hd
      rw [replaceAccessor?_lambda_of_notMem hx, Option.map_eq_some_iff] at hresult
      obtain ⟨replaced, hbody, rfl⟩ := hresult
      have hl' := hl.body hx
      have hr' := hr.body hy
      rw [← Param.map_fst_pairs types, ← List.map_append] at hl'
      rw [← Param.map_snd_pairs types, ← List.map_append] at hr'
      obtain ⟨replaced', hinner, hbodies⟩ := ih hl' hr' hbody (List.append_assoc ..)
      have hlambda : (Expr.lambda others inner).replaceAccessor? y accessor element =
          some (.lambda others replaced') := by
        rw [replaceAccessor?_lambda_of_notMem hy, hinner]
        rfl
      exact ⟨_, hlambda, .lambda types hbodies⟩
  | @node _ expr other nameless shapes below ih =>
    have hother := nameless_of_shape shapes nameless
    have hnode := AlphaEq.node nameless shapes below
    subst hwhole
    by_cases ha : expr.accesses x accessor = true
    · rw [replaceAccessor?_of_accesses ha] at hresult
      cases hresult
      have ha' := hnode.accesses hl.notMem ha
      exact ⟨_, replaceAccessor?_of_accesses ha',
        hl.alphaEq hr (references_of_accesses ha) (references_of_accesses ha')⟩
    · -- the node on the other side does not read the field either
      have hsymm := hnode.symm
      rw [List.map_append] at hsymm
      have ha' : ¬other.accesses y accessor = true := fun h =>
        ha (hsymm.accesses (notMem_map_swap hr.notMem) h)
      rw [replaceAccessor?_of_isNameless nameless (Bool.eq_false_iff.2 ha)] at hresult
      rw [replaceAccessor?_of_isNameless hother (Bool.eq_false_iff.2 ha')]
      refine mapChildrenM nameless shapes (fun pair hp replaced hreplaced => ?_) hresult
      obtain ⟨hfirst, hsecond⟩ := List.of_mem_zip hp
      exact ih pair hp (hl.child nameless hfirst) (hr.child hother hsecond) hreplaced rfl

end AlphaEq

end Expr

/-! ### Projections -/

namespace Lambda

/-- Whether the body of `first` can stand for the parameter without a change of names. -/
def admitsBody (f first : Lambda) : Bool :=
  match f.param? with
  | some param =>
    !f.body.captures param.name first.body && !f.body.hidesConstruction param.name
  | none => true

/-- Whether the element of a resource can stand for the field that it is read from without a change
of names. -/
def admitsElement (f : Lambda) (resource : Resource) : Bool :=
  match f.param? with
  | some param =>
    match accessor? param resource with
    | some accessor =>
      !f.body.captures param.name (Param.toExpr ⟨accessor, resource.elementType⟩)
    | none => true
  | none => true

theorem param?_eq_some {f : Lambda} {param : Param} :
    f.param? = some param ↔ f.params = [param] := by
  rw [← single_ok, single]
  cases f.param? <;> simp

theorem accessor?_congr {x y : Param} (h : x.ty = y.ty) (resource : Resource) :
    accessor? x resource = accessor? y resource := by
  simp only [accessor?, h]

namespace AlphaEq

variable {f g : Lambda}

theorem bodies (h : f.AlphaEq g) :
    f.params.map Param.ty = g.params.map Param.ty ∧
      Expr.AlphaEq (Param.pairs f.params g.params) f.body g.body := by
  rw [Lambda.AlphaEq, toExpr, toExpr, Expr.AlphaEq.lambda_iff, List.append_nil] at h
  exact h

/-- Lambdas with the same parameters are alike if their bodies are. -/
theorem of_bodies {params : List Param} {body inner : Expr} (h : Expr.AlphaEq [] body inner) :
    AlphaEq ⟨params, body⟩ ⟨params, inner⟩ := by
  refine .lambda rfl (h.mono fun a b hc => ?_)
  obtain rfl : a = b := hc
  rw [List.append_nil]
  exact Param.corresponds_pairs_self params a

theorem param?_some (h : f.AlphaEq g) {x : Param} (hx : f.param? = some x) :
    ∃ y, g.param? = some y ∧ x.ty = y.ty ∧
      Expr.AlphaEq ([] ++ [(x.name, y.name)]) f.body g.body := by
  obtain ⟨types, hbodies⟩ := h.bodies
  rw [param?_eq_some] at hx
  rw [hx, List.map_singleton, eq_comm, List.map_eq_singleton_iff] at types
  obtain ⟨y, hy, hty⟩ := types
  rw [hx, hy] at hbodies
  exact ⟨y, param?_eq_some.2 hy, hty.symm, hbodies⟩

theorem param?_none (h : f.AlphaEq g) (hf : f.param? = none) : g.param? = none := by
  cases hg : g.param? with
  | none => rfl
  | some y =>
    have hsymm : g.AlphaEq f := Expr.AlphaEq.symm h
    obtain ⟨x, hx, -⟩ := hsymm.param?_some hg
    cases hf.symm.trans hx

/-- Two projections that are alike, each after the same one. -/
theorem after (h : f.AlphaEq g) {first k : Lambda} (hf : f.admitsBody first = true)
    (hg : g.admitsBody first = true) (hk : f.after first = .ok k) :
    ∃ l, g.after first = .ok l ∧ k.AlphaEq l := by
  simp only [Lambda.after, Except.bind_eq_ok, Except.pure_eq_ok, single_ok,
    ← param?_eq_some] at hk ⊢
  obtain ⟨x, hx, rfl⟩ := hk
  obtain ⟨y, hy, -, hbodies⟩ := h.param?_some hx
  simp only [admitsBody, hx, hy, Bool.and_eq_true, Bool.not_eq_true'] at hf hg
  refine ⟨_, ⟨y, hy, rfl⟩, of_bodies ?_⟩
  exact hbodies.substitute (.of_captures hf.1) (.of_captures hg.1) hf.2 hg.2

/-- Two projections that are alike, each over the element of a resource. -/
theorem overElement (h : f.AlphaEq g) {resource : Resource} {k : Lambda}
    (hf : f.admitsElement resource = true) (hg : g.admitsElement resource = true)
    (hk : f.overElement resource = .ok k) :
    ∃ l, g.overElement resource = .ok l ∧ k.AlphaEq l := by
  cases hx : f.param? with
  | none =>
    simp only [Lambda.overElement, hx, h.param?_none hx] at hk ⊢
    cases hk
    exact ⟨g, rfl, h⟩
  | some x =>
    obtain ⟨y, hy, hty, hbodies⟩ := h.param?_some hx
    have haccessor := accessor?_congr hty resource
    cases ha : accessor? x resource with
    | none =>
      rw [ha] at haccessor
      simp only [Lambda.overElement, hx, hy, ha, ← haccessor] at hk ⊢
      cases hk
      exact ⟨g, rfl, h⟩
    | some accessor =>
      rw [ha] at haccessor
      simp only [admitsElement, hx, hy, ha, ← haccessor, Bool.not_eq_true'] at hf hg
      simp only [Lambda.overElement, hx, hy, ha, ← haccessor] at hk ⊢
      split at hk
      · next body hbody =>
        cases hk
        obtain ⟨inner, hinner, hresult⟩ :=
          hbodies.replaceAccessor? (.of_captures hf) (.of_captures hg) hbody
        rw [hinner]
        exact ⟨_, rfl, of_bodies hresult⟩
      · cases hk

/-- The names of the parameters in the body of a projection do not matter where no lambda captures
what is inserted, for one projection after another as for one over an element. -/
theorem projected (h : f.AlphaEq g) :
    (∀ first k, f.admitsBody first = true → g.admitsBody first = true → f.after first = .ok k →
      ∃ l, g.after first = .ok l ∧ k.AlphaEq l) ∧
    ∀ resource k, f.admitsElement resource = true → g.admitsElement resource = true →
      f.overElement resource = .ok k → ∃ l, g.overElement resource = .ok l ∧ k.AlphaEq l :=
  ⟨fun _ _ hf hg hk => h.after hf hg hk, fun _ _ hf hg hk => h.overElement hf hg hk⟩

namespace Sample

/-- A customer. -/
def customer (name : String) : Param := ⟨name, .entity "Customer"⟩

/-- A record that holds a customer. -/
def entry : Param := ⟨"e", .record [("c", .entity "Customer")]⟩

/-- The best customer of a customer. -/
def best : Lambda :=
  ⟨[customer "x"], .member (customer "x").toExpr "Best" (.entity "Customer")⟩

/-- Whether an order with the given name is above the limit of a customer. -/
def isAbove (owner : Expr) (name : String) : Expr :=
  .binary .greaterThan (.member (.parameter ⟨name, .entity "Order"⟩) "Total" .double)
    (.member owner "Limit" .double)

/-- Whether a customer has an order above the limit, where the order has the given name. -/
def anyAbove (owner : Expr) (name : String) : Expr :=
  .call "Any" [.member owner "Orders" (.collection (.entity "Order")),
    .lambda [⟨name, .entity "Order"⟩] (isAbove owner name)] .bool

/-- Whether a customer has an order above the limit. -/
def exceeds (owner order : String) : Lambda :=
  ⟨[customer owner], anyAbove (customer owner).toExpr order⟩

/-- Whether the customer that a record holds has an order above the limit. -/
def entryExceeds (order : String) : Lambda :=
  ⟨[entry], anyAbove (.member entry.toExpr "c" (.entity "Customer")) order⟩

/-- Whether the best customer of a customer has an order above the limit. -/
def bestExceeds (order : String) : Lambda := ⟨best.params, anyAbove best.body order⟩

/-- A customer by way of a record, as a lambda in the body of another one. -/
def nested (name : String) : Lambda :=
  ⟨[customer "y"], .lambda [customer name]
    (.member (.newRecord .object [("Who", (customer name).toExpr)]) "Who" (.entity "Customer"))⟩

/-- All customers. -/
def customers : Resource := .ofRoot 0 ⟨"Customers", .entity "Customer", .entitySet⟩

theorem alphaEq_anyAbove {scope : List (String × String)} {owner owner' : Expr} {n n' : String} :
    Expr.AlphaEq scope (anyAbove owner n) (anyAbove owner' n') ↔
      Expr.AlphaEq scope owner owner' ∧ Expr.AlphaEq ((n, n') :: scope) owner owner' := by
  constructor
  · intro h
    have horders := h.of_mem_zip rfl List.mem_cons_self
    have hnested := h.of_mem_zip rfl (List.mem_cons_of_mem _ List.mem_cons_self)
    obtain ⟨-, hbody⟩ := Expr.AlphaEq.lambda_iff.1 hnested
    have hlimit := hbody.of_mem_zip rfl (List.mem_cons_of_mem _ List.mem_cons_self)
    exact ⟨Expr.AlphaEq.member_iff.1 horders, Expr.AlphaEq.member_iff.1 hlimit⟩
  · rintro ⟨houter, hinner⟩
    have hbody : Expr.AlphaEq ((n, n') :: scope) (isAbove owner n) (isAbove owner' n') :=
      .node rfl rfl (List.forall_mem_cons.2
        ⟨Expr.AlphaEq.member_iff.2 (.parameter (.inl ⟨rfl, rfl⟩) rfl),
          List.forall_mem_singleton.2 (Expr.AlphaEq.member_iff.2 hinner)⟩)
    exact .node rfl rfl (List.forall_mem_cons.2 ⟨Expr.AlphaEq.member_iff.2 houter,
      List.forall_mem_singleton.2 (.lambda rfl hbody)⟩)

theorem alphaEq_customer {scope : List (String × String)} {n n' : String} :
    Expr.AlphaEq scope (customer n).toExpr (customer n').toExpr ↔ Corresponds scope n n' := by
  constructor
  · intro h
    obtain ⟨partner, heq, hc⟩ := h.parameter_left
    cases heq
    exact hc
  · exact fun h => .parameter h rfl

theorem alphaEq_exceeds {owner owner' order order' : String} :
    (exceeds owner order).AlphaEq (exceeds owner' order') ↔
      Corresponds [(order, order'), (owner, owner')] owner owner' := by
  rw [← alphaEq_customer]
  constructor
  · intro h
    exact (alphaEq_anyAbove.1 h.bodies.2).2
  · intro h
    exact .lambda rfl (alphaEq_anyAbove.2 ⟨alphaEq_customer.2 (.inl ⟨rfl, rfl⟩), h⟩)

theorem alphaEq_bestExceeds {order order' : String}
    (h : (bestExceeds order).AlphaEq (bestExceeds order')) :
    Corresponds [(order, order'), ("x", "x")] "x" "x" := by
  obtain ⟨-, hbody⟩ := alphaEq_anyAbove.1 h.bodies.2
  exact alphaEq_customer.1 (Expr.AlphaEq.member_iff.1 hbody)

theorem alphaEq_entryExceeds {order order' : String}
    (h : Corresponds [(order, order'), ("e", "e")] "e" "e") :
    (entryExceeds order).AlphaEq (entryExceeds order') := by
  refine .lambda rfl (alphaEq_anyAbove.2 ⟨?_, ?_⟩)
  · exact Expr.AlphaEq.member_iff.2 (.parameter (.inl ⟨rfl, rfl⟩) rfl)
  · exact Expr.AlphaEq.member_iff.2 (.parameter h rfl)

theorem alphaEq_nested (n n' : String) : (nested n).AlphaEq (nested n') := by
  have hrecord : Expr.AlphaEq [(n, n'), ("y", "y")]
      (.newRecord .object [("Who", (customer n).toExpr)])
      (.newRecord .object [("Who", (customer n').toExpr)]) :=
    .node rfl rfl (List.forall_mem_singleton.2 (alphaEq_customer.2 (.inl ⟨rfl, rfl⟩)))
  exact .lambda rfl (.lambda rfl (Expr.AlphaEq.member_iff.2 hrecord))

end Sample

theorem projected_exceeds :
    (Sample.exceeds "y" "p").AlphaEq (Sample.exceeds "z" "o") ∧
      (Sample.exceeds "y" "p").admitsBody Sample.best = true ∧
      (Sample.exceeds "z" "o").admitsBody Sample.best = true ∧
      (∃ l, (Sample.exceeds "z" "o").after Sample.best = .ok l ∧
        (Sample.bestExceeds "p").AlphaEq l) ∧
      (Sample.entryExceeds "p").AlphaEq (Sample.entryExceeds "o") ∧
      (Sample.entryExceeds "p").admitsElement Sample.customers = true ∧
      (Sample.entryExceeds "o").admitsElement Sample.customers = true ∧
      ∃ l, (Sample.entryExceeds "o").overElement Sample.customers = .ok l ∧
        (Sample.exceeds "c" "p").AlphaEq l := by
  have hafter : (Sample.exceeds "y" "p").AlphaEq (Sample.exceeds "z" "o") :=
    Sample.alphaEq_exceeds.2 (by decide)
  have hover : (Sample.entryExceeds "p").AlphaEq (Sample.entryExceeds "o") :=
    Sample.alphaEq_entryExceeds (by decide)
  exact ⟨hafter, rfl, rfl, (projected hafter).1 _ _ rfl rfl rfl, hover, rfl, rfl,
    (projected hover).2 _ _ rfl rfl rfl⟩

/-- The order takes over the name of the customer, and a lambda that rebinds the parameter keeps its
record. -/
theorem projected_captured :
    ((Sample.exceeds "y" "x").AlphaEq (Sample.exceeds "y" "o") ∧
      (Sample.exceeds "y" "x").after Sample.best = .ok (Sample.bestExceeds "x") ∧
      (Sample.exceeds "y" "o").after Sample.best = .ok (Sample.bestExceeds "o") ∧
      ¬(Sample.bestExceeds "x").AlphaEq (Sample.bestExceeds "o")) ∧
    ((Sample.entryExceeds "c").AlphaEq (Sample.entryExceeds "o") ∧
      (Sample.entryExceeds "c").overElement Sample.customers = .ok (Sample.exceeds "c" "c") ∧
      (Sample.entryExceeds "o").overElement Sample.customers = .ok (Sample.exceeds "c" "o") ∧
      ¬(Sample.exceeds "c" "c").AlphaEq (Sample.exceeds "c" "o")) ∧
    ((Sample.nested "y").AlphaEq (Sample.nested "z") ∧
      ∃ k l, (Sample.nested "y").after Sample.best = .ok k ∧
        (Sample.nested "z").after Sample.best = .ok l ∧ ¬k.AlphaEq l) := by
  refine ⟨⟨Sample.alphaEq_exceeds.2 (by decide), rfl, rfl, fun h => ?_⟩,
    ⟨Sample.alphaEq_entryExceeds (by decide), rfl, rfl, fun h => ?_⟩,
    Sample.alphaEq_nested "y" "z", _, _, rfl, rfl, fun h => ?_⟩
  · exact absurd (Sample.alphaEq_bestExceeds h) (by decide)
  · exact absurd (Sample.alphaEq_exceeds.1 h) (by decide)
  · obtain ⟨-, hbody⟩ := Expr.AlphaEq.lambda_iff.1 h.bodies.2
    obtain ⟨partner, heq, -⟩ := hbody.member_left
    cases heq

end AlphaEq

end Lambda

end ServiceQuery
