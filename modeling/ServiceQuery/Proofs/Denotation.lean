import ServiceQuery.Proofs.Input
import ServiceQuery.Proofs.Occurrence

/-!
# Expressions that denote elements of resources

A parameter that ranges over the leaf of a chain denotes its element. Where a transparent scope
stands for the elements of several resources, a path through its outer members ends at the element
of one of them. Binding replaces what denotes an element, and nothing else.
-/

namespace ServiceQuery.Chain

section Denotation

variable (chain : Chain) (name : String)

/-- The expression is the record of the transparent scope of a resource: the parameter for the leaf,
and the outer member of such a record for the resource that it leads to. -/
inductive IsScope : Expr → Resource → Prop where
  | parameter {param : Param} {scope : TransparentScope} (named : param.name = name)
      (ofLeaf : chain.leaf.scope = some scope) (typed : param.ty = .record scope.fields) :
      IsScope (.parameter param) chain.leaf
  | outer {source : Expr} {owner resource : Resource} {scope inner : TransparentScope}
      {member : String} {id : ResourceId} (ofSource : IsScope source owner)
      (ofOwner : owner.scope = some scope) (leads : scope.outer = some (member, id))
      (found : chain.find? id = some resource) (ofResource : resource.scope = some inner) :
      IsScope (.member source member (.record inner.fields)) resource

/-- The expression denotes the element of a resource: the parameter that of the leaf, the inner
member of a scope that of its own resource, and an outer member that of a resource without a
scope. -/
inductive IsElement : Expr → Resource → Prop where
  | parameter {param : Param} (named : param.name = name)
      (typed : param.ty = chain.leaf.elementType) : IsElement (.parameter param) chain.leaf
  | inner {source : Expr} {owner : Resource} {scope : TransparentScope} {ty : Ty}
      (ofSource : IsScope chain name source owner) (ofOwner : owner.scope = some scope) :
      IsElement (.member source scope.inner ty) owner
  | outermost {source : Expr} {owner resource : Resource} {scope : TransparentScope}
      {member : String} {id : ResourceId} {ty : Ty} (ofSource : IsScope chain name source owner)
      (ofOwner : owner.scope = some scope) (leads : scope.outer = some (member, id))
      (outer : scope.inner ≠ member) (found : chain.find? id = some resource)
      (bare : resource.scope = none) : IsElement (.member source member ty) resource

/-- The result is the expression where the topmost nodes that denote elements are references to
them. Lambdas that declare the parameter again stay as they are. -/
inductive Bound : Expr → Expr → Prop where
  | element {expr : Expr} {resource : Resource} (denotes : IsElement chain name expr resource) :
      Bound expr (.input resource.inputRef)
  | rebinds {expr : Expr} (closed : expr.rebinds name = true) : Bound expr expr
  | node {expr : Expr} {f : Expr → Expr} (plain : ∀ resource, ¬IsElement chain name expr resource)
      (passes : expr.rebinds name = false)
      (inside : ∀ child ∈ expr.children, Bound child (f child)) :
      Bound expr (expr.mapChildren f)

end Denotation

variable {chain : Chain} {name : String}

/-! ### Resolution -/

theorem any_describes {scope : Option TransparentScope} {ty : Ty} :
    scope.any (·.describes ty) = true ↔
      ∃ found, scope = some found ∧ ty = .record found.fields := by
  cases scope with
  | none => simp
  | some found => simp [TransparentScope.describes]

theorem scopeOf?_parameter {param : Param} {resource : Resource} :
    chain.scopeOf? name (.parameter param) = some resource ↔
      param.name = name ∧ chain.leaf = resource ∧
        ∃ scope, chain.leaf.scope = some scope ∧ param.ty = .record scope.fields := by
  rw [scopeOf?, Option.ite_none_right_eq_some, Bool.and_eq_true, beq_iff_eq, any_describes,
    Option.some.injEq, and_assoc]
  exact and_congr_right fun _ => and_comm

theorem scopeOf?_member {source : Expr} {member : String} {ty : Ty} {resource : Resource} :
    chain.scopeOf? name (.member source member ty) = some resource ↔
      ∃ owner scope id, chain.scopeOf? name source = some owner ∧ owner.scope = some scope ∧
        scope.outer = some (member, id) ∧ chain.find? id = some resource ∧
        ∃ inner, resource.scope = some inner ∧ ty = .record inner.fields := by
  simp only [scopeOf?, Option.bind_eq_bind, Option.bind_eq_some_iff, Option.ite_none_right_eq_some,
    beq_iff_eq, any_describes, Option.some.injEq, Prod.exists]
  constructor
  · rintro ⟨owner, ho, scope, hs, _, id, hl, rfl, _, hf, hi, rfl⟩
    exact ⟨owner, scope, id, ho, hs, hl, hf, hi⟩
  · rintro ⟨owner, scope, id, ho, hs, hl, hf, hi⟩
    exact ⟨owner, ho, scope, hs, member, id, hl, rfl, resource, hf, hi, rfl⟩

/-- The scope that is found for an expression is the one whose record it is. -/
theorem scopeOf?_eq_some {expr : Expr} {resource : Resource} :
    chain.scopeOf? name expr = some resource ↔ IsScope chain name expr resource := by
  constructor
  · intro h
    induction expr using Expr.induction_children generalizing resource with
    | node expr ih =>
      cases expr with
      | parameter param =>
        obtain ⟨hn, rfl, scope, hs, ht⟩ := scopeOf?_parameter.1 h
        exact .parameter hn hs ht
      | member source member ty =>
        obtain ⟨owner, scope, id, ho, hs, hl, hf, inner, hi, rfl⟩ := scopeOf?_member.1 h
        exact .outer (ih source List.mem_cons_self ho) hs hl hf hi
      | _ => cases h
  · intro h
    induction h with
    | parameter named ofLeaf typed => exact scopeOf?_parameter.2 ⟨named, rfl, _, ofLeaf, typed⟩
    | outer ofSource ofOwner leads found ofResource ih =>
      exact scopeOf?_member.2 ⟨_, _, _, ih, ofOwner, leads, found, _, ofResource, rfl⟩

theorem resolve?_parameter {param : Param} {resource : Resource} :
    chain.resolve? name (.parameter param) = some resource ↔
      param.name = name ∧ param.ty = chain.leaf.elementType ∧ chain.leaf = resource := by
  rw [resolve?, Option.ite_none_right_eq_some, Bool.and_eq_true, beq_iff_eq, beq_iff_eq,
    Option.some.injEq, and_assoc]

theorem resolve?_member {source : Expr} {member : String} {ty : Ty} {resource : Resource} :
    chain.resolve? name (.member source member ty) = some resource ↔
      ∃ owner scope, chain.scopeOf? name source = some owner ∧ owner.scope = some scope ∧
        (scope.inner = member ∧ owner = resource ∨
          scope.inner ≠ member ∧ ∃ id, scope.outer = some (member, id) ∧
            chain.find? id = some resource ∧ resource.scope = none) := by
  simp only [resolve?, Option.bind_eq_bind, Option.bind_eq_some_iff, ite_eq_iff, beq_iff_eq,
    Option.some.injEq, Prod.exists, reduceCtorEq, and_false, or_false, Option.isNone_iff_eq_none]
  constructor
  · rintro ⟨owner, ho, scope, hs, hi | ⟨hm, _, id, hl, rfl, _, hf, hb, rfl⟩⟩
    · exact ⟨owner, scope, ho, hs, .inl hi⟩
    · exact ⟨owner, scope, ho, hs, .inr ⟨hm, id, hl, hf, hb⟩⟩
  · rintro ⟨owner, scope, ho, hs, hi | ⟨hm, id, hl, hf, hb⟩⟩
    · exact ⟨owner, ho, scope, hs, .inl hi⟩
    · exact ⟨owner, ho, scope, hs, .inr ⟨hm, member, id, hl, rfl, resource, hf, hb, rfl⟩⟩

/-- Resolution finds the resource whose element an expression denotes. -/
theorem resolve?_eq_some {expr : Expr} {resource : Resource} :
    chain.resolve? name expr = some resource ↔ IsElement chain name expr resource := by
  constructor
  · intro h
    cases expr with
    | parameter param =>
      obtain ⟨hn, ht, rfl⟩ := resolve?_parameter.1 h
      exact .parameter hn ht
    | member source member ty =>
      obtain ⟨owner, scope, ho, hs, ⟨rfl, rfl⟩ | ⟨hm, id, hl, hf, hb⟩⟩ := resolve?_member.1 h
      · exact .inner (scopeOf?_eq_some.1 ho) hs
      · exact .outermost (scopeOf?_eq_some.1 ho) hs hl hm hf hb
    | _ => cases h
  · intro h
    cases h with
    | parameter named typed => exact resolve?_parameter.2 ⟨named, typed, rfl⟩
    | inner ofSource ofOwner =>
      exact resolve?_member.2 ⟨_, _, scopeOf?_eq_some.2 ofSource, ofOwner, .inl ⟨rfl, rfl⟩⟩
    | outermost ofSource ofOwner leads outer found bare =>
      exact resolve?_member.2 ⟨_, _, scopeOf?_eq_some.2 ofSource, ofOwner,
        .inr ⟨outer, _, leads, found, bare⟩⟩

theorem resolve?_eq_none {expr : Expr} :
    chain.resolve? name expr = none ↔ ∀ resource, ¬IsElement chain name expr resource := by
  simp only [Option.eq_none_iff_forall_ne_some, ne_eq, resolve?_eq_some]

/-! ### Replacement -/

theorem bindInput_of_some {expr : Expr} {resource : Resource}
    (h : chain.resolve? name expr = some resource) :
    chain.bindInput name expr = .input resource.inputRef := by
  rw [bindInput, Expr.replace_eq]
  simp only [h, Option.getD_some]

theorem bindInput_of_none {expr : Expr} (h : chain.resolve? name expr = none) :
    chain.bindInput name expr =
      if expr.rebinds name then expr else expr.mapChildren (chain.bindInput name) := by
  rw [bindInput, Expr.replace_eq]
  cases expr with
  | lambda params body =>
    by_cases hd : Param.declares params name = true
    · simp only [h, Expr.rebinds, hd, if_true, Option.getD_some]
    · simp only [h, Expr.rebinds, hd, Bool.false_eq_true, if_false]
      rfl
  | _ =>
    simp only [h]
    rfl

theorem resolve?_of_rebinds {expr : Expr} (h : expr.rebinds name = true) :
    chain.resolve? name expr = none := by
  cases expr with
  | lambda => rfl
  | _ => cases h

/-- Binding replaces what denotes an element and nothing else, and it is the only replacement of
this kind. -/
theorem bound_iff {expr result : Expr} :
    Bound chain name expr result ↔ result = chain.bindInput name expr := by
  constructor
  · intro h
    induction h with
    | element denotes => rw [bindInput_of_some (resolve?_eq_some.2 denotes)]
    | rebinds closed => rw [bindInput_of_none (resolve?_of_rebinds closed), if_pos closed]
    | node plain passes inside ih =>
      rw [bindInput_of_none (resolve?_eq_none.2 plain), passes, if_neg Bool.false_ne_true]
      exact Expr.mapChildren_congr ih
  · rintro rfl
    induction expr using Expr.induction_children with
    | node expr ih =>
      cases hr : chain.resolve? name expr with
      | some resource =>
        rw [bindInput_of_some hr]
        exact .element (resolve?_eq_some.1 hr)
      | none =>
        rw [bindInput_of_none hr]
        split
        · next hclosed => exact .rebinds hclosed
        · next hpasses => exact .node (resolve?_eq_none.1 hr) (Bool.eq_false_iff.2 hpasses) ih

/-! ### References -/

/-- The resources that are noted while an expression is bound, with repetitions. -/
def mentions (chain : Chain) (name : String) (expr : Expr) : List ResourceId :=
  expr.gather fun node =>
    match chain.resolve? name node with
    | some resource => some [resource.id]
    | none =>
      match node with
      | .input ref => some [ref.target]
      | .lambda params _ => if Param.declares params name then some [] else none
      | _ => none

theorem referenced_eq (expr : Expr) :
    chain.referenced name expr = (chain.mentions name expr).eraseDups := rfl

/-- The leaf alone is read if it is noted and no other resource is. -/
theorem readsOnlyLeaf_iff {expr : Expr} :
    chain.readsOnlyLeaf name expr = true ↔
      chain.mentions name expr ≠ [] ∧ ∀ id ∈ chain.mentions name expr, id = chain.leaf.id := by
  rw [readsOnlyLeaf, beq_iff_eq, referenced_eq]
  cases hm : chain.mentions name expr with
  | nil => simp
  | cons first rest =>
    constructor
    · intro h
      refine ⟨List.cons_ne_nil _ _, fun id hid => ?_⟩
      rw [← List.mem_eraseDups, h] at hid
      exact List.mem_singleton.1 hid
    · rintro ⟨-, hall⟩
      obtain ⟨rfl, hrest⟩ := List.forall_mem_cons.1 hall
      have hnone : rest.filter (fun id => !id == chain.leaf.id) = [] := by
        simpa [List.filter_eq_nil_iff] using hrest
      rw [List.eraseDups_cons, hnone, List.eraseDups_nil]

theorem mentions_of_some {expr : Expr} {resource : Resource}
    (h : chain.resolve? name expr = some resource) : chain.mentions name expr = [resource.id] := by
  rw [mentions, Expr.gather_eq]
  simp only [h, Option.getD_some]

theorem mentions_of_none {expr : Expr} (h : chain.resolve? name expr = none)
    (hi : ∀ ref, expr ≠ .input ref) :
    chain.mentions name expr =
      if expr.rebinds name then [] else expr.children.flatMap (chain.mentions name) := by
  rw [mentions, Expr.gather_eq]
  cases expr with
  | input ref => exact absurd rfl (hi ref)
  | lambda params body =>
    by_cases hd : Param.declares params name = true
    · simp only [h, Expr.rebinds, hd, if_true, Option.getD_some]
    · simp only [h, Expr.rebinds, hd, Bool.false_eq_true, if_false]
      rfl
  | _ =>
    simp only [h]
    rfl

theorem inputs_mapChildren {f : Expr → Expr} {expr : Expr} (h : ∀ ref, expr ≠ .input ref) :
    (expr.mapChildren f).inputs = expr.children.flatMap fun child => (f child).inputs := by
  rw [Expr.inputs, Expr.gather_eq, Expr.children_mapChildren, List.flatMap_map]
  cases expr with
  | input ref => exact absurd rfl (h ref)
  | _ => rfl

/-- The resources that are noted are those that the result refers to, in the same order. -/
theorem mentions_eq {expr : Expr} (h : expr.inputs = []) :
    chain.mentions name expr = (chain.bindInput name expr).inputs.map InputRef.target := by
  induction expr using Expr.induction_children with
  | node expr ih =>
    have hi (ref : InputRef) : expr ≠ .input ref := by
      rintro rfl
      cases h
    cases hr : chain.resolve? name expr with
    | some resource =>
      rw [mentions_of_some hr, bindInput_of_some hr]
      rfl
    | none =>
      rw [mentions_of_none hr hi, bindInput_of_none hr]
      cases expr.rebinds name with
      | true =>
        -- the lambda stays as it is, without references
        simp [h]
      | false =>
        simp only [Bool.false_eq_true, if_false, inputs_mapChildren hi, List.map_flatMap]
        exact List.flatMap_congr fun child hc => ih child hc (Expr.inputs_eq_nil hc h)

/-- No use of the parameter is left if all of them denote the element of the leaf. -/
theorem references_bindInput {expr : Expr}
    (h : ∀ param, Expr.InScope name (.parameter param) expr → param.name = name →
      param.ty = chain.leaf.elementType) :
    (chain.bindInput name expr).references name = false := by
  induction expr using Expr.induction_children with
  | node expr ih =>
    rw [Bool.eq_false_iff, ne_eq, Expr.references_iff_inScope]
    rintro ⟨param, hp, hs⟩
    cases hr : chain.resolve? name expr with
    | some resource =>
      rw [bindInput_of_some hr] at hs
      obtain heq | ⟨-, child, hc, -⟩ := Expr.inScope_iff.1 hs
      · cases heq
      · cases hc
    | none =>
      rw [bindInput_of_none hr] at hs
      cases hclosed : expr.rebinds name with
      | true =>
        rw [hclosed, if_pos rfl] at hs
        obtain rfl | ⟨passes, -⟩ := Expr.inScope_iff.1 hs
        · cases hclosed
        · cases hclosed.symm.trans passes
      | false =>
        rw [hclosed, if_neg Bool.false_ne_true] at hs
        obtain heq | ⟨-, result, hm, hs⟩ := Expr.inScope_iff.1 hs
        · -- a use that stands here is of the type of the element
          have hexpr : expr = .parameter param := by
            cases expr <;> cases heq
            rfl
          subst hexpr
          have hfound := resolve?_parameter.2 ⟨hp, h param .here hp, rfl⟩
          cases hr.symm.trans hfound
        · rw [Expr.children_mapChildren] at hm
          obtain ⟨child, hc, rfl⟩ := List.mem_map.1 hm
          have hchild := ih child hc fun other ho => h other (.inside hclosed hc ho)
          have hused := Expr.references_iff_inScope.2 ⟨param, hp, hs⟩
          cases hchild.symm.trans hused

/-- An expression without references is bound by the replacement of what denotes an element and of
nothing else. The resources it then refers to are listed in the order of their first mention, and if
all uses of the parameter are of the type of the element, none is left. -/
theorem bindInput_exact (chain : Chain) (t : Param) {expr : Expr} (h : expr.inputs = []) :
    (∀ result, Bound chain t.name expr result ↔ result = chain.bindInput t.name expr) ∧
      chain.referenced t.name expr =
        ((chain.bindInput t.name expr).inputs.map InputRef.target).eraseDups ∧
      ((∀ param, Expr.InScope t.name (.parameter param) expr → param.name = t.name →
          param.ty = chain.leaf.elementType) →
        (chain.bindInput t.name expr).references t.name = false) := by
  refine ⟨fun result => bound_iff, ?_, references_bindInput⟩
  rw [referenced_eq, mentions_eq h]

namespace Sample

/-- A region with a customer. -/
def place : List (String × Ty) := [("r", .entity "Region"), ("c", .entity "Customer")]

/-- A region with a customer, and an order beside them. -/
def entry : List (String × Ty) := [("p", .record place), ("o", .entity "Order")]

def regions : Resource := .ofRoot 0 ⟨"Regions", .entity "Region", .entitySet⟩

def customers : Resource :=
  { Resource.ofNavigation 1 "Customers" (.entity "Customer") true with
    scope := some ⟨place, "c", some ("r", 0)⟩ }

def orders : Resource :=
  { Resource.ofNavigation 2 "Orders" (.entity "Order") true with
    scope := some ⟨entry, "o", some ("p", 1)⟩ }

/-- The orders of the customers of regions. -/
def route : Chain := ⟨orders, [customers, regions]⟩

/-- The record of the scope of the orders. -/
def t : Param := ⟨"t", .record entry⟩

/-- The record of the scope of the customers. -/
def placed : Expr := .member t.toExpr "p" (.record place)

/-- Whether a sum is above the limits of a customer and of a region, or a lambda uses the name of
the parameter again. -/
def exceeds (order customer region : Expr) : Expr :=
  .binary .orElse
    (.binary .andAlso
      (.binary .greaterThan (.member order "Total" .double) (.member customer "Limit" .double))
      (.binary .greaterThan (.member order "Total" .double) (.member region "Limit" .double)))
    (.call "Any" [placed, .lambda [t] (.member t.toExpr "o" (.entity "Order"))] .bool)

/-- The limits as they are written over the scope. -/
def written : Expr :=
  exceeds (.member t.toExpr "o" (.entity "Order")) (.member placed "c" (.entity "Customer"))
    (.member placed "r" (.entity "Region"))

/-- An order by itself. -/
def o : Param := ⟨"o", .entity "Order"⟩

end Sample

theorem bindInput_exact_exceeds :
    Sample.written.inputs = [] ∧
      Bound Sample.route "t" Sample.written
        (Sample.exceeds (.input Sample.orders.inputRef) (.input Sample.customers.inputRef)
          (.input Sample.regions.inputRef)) ∧
      Sample.route.referenced "t" Sample.written = [2, 1, 0] ∧
      (Sample.route.bindInput "o" (.member Sample.o.toExpr "Total" .double)).references "o" =
        false := by
  have hinputs : Sample.written.inputs = [] := rfl
  have hwritten := bindInput_exact Sample.route Sample.t hinputs
  have htotal : (Expr.member Sample.o.toExpr "Total" .double).inputs = [] := rfl
  have hsingle := bindInput_exact Sample.route Sample.o htotal
  refine ⟨hinputs, (hwritten.1 _).2 rfl, hwritten.2.1.trans rfl, hsingle.2.2 fun param hs _ => ?_⟩
  obtain heq | ⟨-, child, hc, hs⟩ := Expr.inScope_iff.1 hs
  · cases heq
  · rw [List.mem_singleton.1 hc] at hs
    obtain heq | ⟨-, child, hc, -⟩ := Expr.inScope_iff.1 hs
    · cases heq
      rfl
    · cases hc

end ServiceQuery.Chain
