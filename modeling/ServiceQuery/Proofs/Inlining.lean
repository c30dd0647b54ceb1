import ServiceQuery.Proofs.GroupKeys

/-!
# Element selectors

An element selector gives members to the elements that are grouped, and an aggregation reads them in
place of the elements. The members are bound when the element selector is, so an aggregation finds
them bound. Without an element selector its own body is bound as a whole.
-/

namespace ServiceQuery.Grouping

/-- The body of a selector over grouped elements with the members that it reads replaced by what they
stand for. -/
def inline (name : String) (members : List (String × Expr)) (body : Expr) : Expr :=
  body.replace fun
    | .member source member _ => if source.isParameter name then members.lookup member else none
    | _ => none

/-- The body has no lambdas, no references to resources and no parameter but one, of which it reads
the given members under the types of what they stand for. -/
inductive ReadsMembers (name : String) (members : List (String × Expr)) : Expr → Prop where
  | read {param : Param} {member : String} {expr : Expr} (named : param.name = name)
      (found : members.lookup member = some expr) :
      ReadsMembers name members (.member (.parameter param) member expr.ty)
  | node {expr : Expr} (nameless : expr.isNameless = true) (unbound : ∀ ref, expr ≠ .input ref)
      (below : ∀ child ∈ expr.children, ReadsMembers name members child) :
      ReadsMembers name members expr

section Inline

variable {name : String} {members : List (String × Expr)} {body : Expr}

theorem rebinds_mapChildren {expr : Expr} (nameless : expr.isNameless = true) (f : Expr → Expr)
    (element : String) : (expr.mapChildren f).rebinds element = false := by
  refine Expr.rebinds_of_isNameless ?_ element
  rwa [Expr.isNameless_mapChildren]

/-- The parameter by itself reads no member. -/
theorem ReadsMembers.not_parameter (param : Param) :
    ¬ReadsMembers name members (.parameter param) := by
  intro h
  cases h with
  | node nameless unbound below => cases nameless

theorem ReadsMembers.isParameter_source {source : Expr} {member : String} {ty : Ty}
    (h : ∀ child ∈ (Expr.member source member ty).children, ReadsMembers name members child) :
    source.isParameter name = false := by
  cases source with
  | parameter param => exact absurd (h _ List.mem_cons_self) (not_parameter param)
  | _ => rfl

theorem inline_read {param : Param} {member : String} {expr : Expr} {ty : Ty}
    (named : param.name = name) (found : members.lookup member = some expr) :
    inline name members (.member (.parameter param) member ty) = expr := by
  have hp : (Expr.parameter param).isParameter name = true := beq_iff_eq.2 named
  rw [inline, Expr.replace_eq]
  simp only [hp, if_true, found, Option.getD_some]

theorem inline_node {expr : Expr}
    (below : ∀ child ∈ expr.children, ReadsMembers name members child) :
    inline name members expr = expr.mapChildren (inline name members) := by
  rw [inline, Expr.replace_eq]
  cases expr with
  | member source member ty =>
    simp only [ReadsMembers.isParameter_source below, Bool.false_eq_true, if_false]
    rfl
  | _ => rfl

/-- What is inlined has the type that it is read with. -/
theorem ty_inline (h : ReadsMembers name members body) :
    (inline name members body).ty = body.ty := by
  induction h with
  | read named found => rw [inline_read named found]; rfl
  | @node expr nameless unbound below ih =>
    rw [inline_node below]
    cases expr with
    | binary op left right =>
      have hl : (inline name members left).ty = left.ty := ih left List.mem_cons_self
      simp only [Expr.mapChildren, Expr.ty, hl]
    | conditional test whenTrue whenFalse =>
      exact ih whenTrue (List.mem_cons_of_mem _ List.mem_cons_self)
    | _ => rfl

/-- A body that uses its parameter reads a member. -/
theorem ReadsMembers.members_ne_nil (h : ReadsMembers name members body)
    (hr : body.references name = true) : members ≠ [] := by
  induction h with
  | read named found =>
    rintro rfl
    cases found
  | node nameless unbound below ih =>
    obtain ⟨child, hc, hr⟩ := (Expr.references_of_isNameless nameless).1 hr
    exact ih child hc hr

end Inline

section Bound

variable {chain : Chain} {name element : String} {members : List (String × Expr)} {body : Expr}
  (hmembers : ∀ expr ∈ members.map Prod.snd, IsMember chain element expr)
  (hscope : ∀ expr ∈ members.map Prod.snd, ∀ resource, ¬chain.IsScope element expr resource)

include hscope in
/-- The inlined body is no record of a transparent scope. -/
theorem not_isScope_inline (h : ReadsMembers name members body) (resource : Resource) :
    ¬chain.IsScope element (inline name members body) resource := by
  induction h generalizing resource with
  | read named found =>
    rw [inline_read named found]
    exact hscope _ (mem_of_lookup found) resource
  | @node expr nameless unbound below ih =>
    rw [inline_node below]
    intro hs
    cases expr with
    | member source member ty =>
      cases hs with
      | outer ofSource => exact ih source List.mem_cons_self _ ofSource
    | parameter => cases nameless
    | _ => cases hs

include hscope in
/-- Binding passes over the nodes of a body on its way to what is inlined. -/
theorem resolve?_inline {expr : Expr} (nameless : expr.isNameless = true)
    (below : ∀ child ∈ expr.children, ReadsMembers name members child) :
    chain.resolve? element (expr.mapChildren (inline name members)) = none := by
  refine Chain.resolve?_eq_none.2 fun resource he => ?_
  cases expr with
  | member source member ty =>
    have hsource := not_isScope_inline hscope (below source List.mem_cons_self)
    cases he with
    | inner ofSource => exact hsource _ ofSource
    | outermost ofSource => exact hsource _ ofSource
  | parameter => cases nameless
  | _ => cases he

include hscope in
theorem bindInput_inline {expr : Expr} (nameless : expr.isNameless = true)
    (below : ∀ child ∈ expr.children, ReadsMembers name members child) :
    chain.bindInput element (inline name members expr) =
      expr.mapChildren fun child => chain.bindInput element (inline name members child) := by
  rw [inline_node below, Chain.bindInput_of_none (resolve?_inline hscope nameless below),
    rebinds_mapChildren nameless, if_neg Bool.false_ne_true, Expr.mapChildren_mapChildren]

include hscope in
/-- Replacing the members of grouped elements by what they are bound to is the same as binding the
body where they are inlined. -/
theorem overMembers?_inline {apply : Apply}
    (ha : apply.members = Expr.mapMembers (chain.bindInput element) members)
    (h : ReadsMembers name members body) :
    overMembers? apply name body = some (chain.bindInput element (inline name members body)) := by
  induction h with
  | @read param member expr named found =>
    have hp : (Expr.parameter param).isParameter name = true := beq_iff_eq.2 named
    have hfound : apply.member? member = some (chain.bindInput element expr) := by
      rw [Apply.member?, ha, Expr.lookup_mapMembers, found, Option.map_some]
    rw [inline_read named found, overMembers?]
    refine Expr.replaceM_of_some _ ?_
    simp only [hp, if_true, hfound]
  | @node expr nameless unbound below ih =>
    rw [bindInput_inline hscope nameless below, overMembers?, Expr.replaceM_of_none]
    · exact Expr.mapChildrenM_reaches (.withoutEffect Option) ih
    · cases expr with
      | member source member ty =>
        simp only [ReadsMembers.isParameter_source below, Bool.false_eq_true, if_false]
      | parameter => cases nameless
      | _ => rfl

include hmembers hscope in
/-- An inlined body reads the leaf alone, as the members do. -/
theorem mentions_inline (h : ReadsMembers name members body) :
    (∀ id ∈ chain.mentions element (inline name members body), id = chain.leaf.id) ∧
      (body.references name = true →
        chain.mentions element (inline name members body) ≠ []) := by
  induction h with
  | read named found =>
    have hmember := hmembers _ (mem_of_lookup found)
    obtain ⟨names, hreads⟩ := hmember.isChain
    obtain ⟨hne, hall⟩ :=
      Chain.readsOnlyLeaf_iff.1 ((IsMember.iff_readsOnlyLeaf hreads).1 hmember)
    rw [inline_read named found]
    exact ⟨hall, fun _ => hne⟩
  | @node expr nameless unbound below ih =>
    have hinput (ref : InputRef) : expr.mapChildren (inline name members) ≠ .input ref := by
      intro heq
      refine unbound ref ?_
      cases expr <;> cases heq
      rfl
    rw [inline_node below,
      Chain.mentions_of_none (resolve?_inline hscope nameless below) hinput,
      rebinds_mapChildren nameless, if_neg Bool.false_ne_true, Expr.children_mapChildren,
      List.flatMap_map]
    refine ⟨fun id hid => ?_, fun hr => ?_⟩
    · obtain ⟨child, hc, hid⟩ := List.mem_flatMap.1 hid
      exact (ih child hc).1 id hid
    · obtain ⟨child, hc, hr⟩ := (Expr.references_of_isNameless nameless).1 hr
      intro hnil
      exact (ih child hc).2 hr (List.flatMap_eq_nil_iff.1 hnil child hc)

theorem hasFreeParameterIn_of_isPath {declared : List String} {expr : Expr} (h : expr.IsPath) :
    expr.hasFreeParameterIn declared = false := by
  induction h with
  | input ref => rfl
  | member inner name ty ih => exact ih
  | convert inner ty ih => exact ih

include hmembers hscope in
/-- No parameter is left of an inlined body once it is bound. -/
theorem hasFreeParameterIn_inline (h : ReadsMembers name members body) (declared : List String) :
    (chain.bindInput element (inline name members body)).hasFreeParameterIn declared = false := by
  induction h with
  | read named found =>
    rw [inline_read named found]
    exact hasFreeParameterIn_of_isPath (hmembers _ (mem_of_lookup found)).isPath
  | node nameless unbound below ih =>
    rw [bindInput_inline hscope nameless below, Expr.hasFreeParameterIn_of_isNameless,
      Expr.children_mapChildren, List.any_map, List.any_eq_false]
    · exact fun child hc => Bool.eq_false_iff.1 (ih child hc)
    · rwa [Expr.isNameless_mapChildren]

include hmembers hscope in
theorem overLeaf?_inline (h : ReadsMembers name members body)
    (hr : body.references name = true) :
    overLeaf? chain element (inline name members body) =
      some (chain.bindInput element (inline name members body)) := by
  obtain ⟨hall, hne⟩ := mentions_inline hmembers hscope h
  have hleaf := Chain.readsOnlyLeaf_iff.2 ⟨hne hr, hall⟩
  have hfree : (chain.bindInput element (inline name members body)).hasFreeParameter = false :=
    hasFreeParameterIn_inline hmembers hscope h []
  simp only [overLeaf?, hleaf, hfree, Bool.not_false, Bool.and_self, if_true]

end Bound

/-! ### Aggregations -/

section Lifted

variable {chain : Chain} {apply added : Apply}

/-- A grouping with one more member of the grouped elements. -/
def withMember (chain : Chain) (name : String) (apply : Apply) (member : String × Expr) : Apply :=
  apply.addMember member.1 (chain.bindInput name member.2)

theorem members_foldl_withMember (chain : Chain) (apply : Apply) (name : String)
    (members : List (String × Expr)) :
    (members.foldl (withMember chain name) apply).members =
      apply.members ++ Expr.mapMembers (chain.bindInput name) members := by
  induction members generalizing apply with
  | nil => exact (List.append_nil _).symm
  | cons member members ih =>
    rw [List.foldl_cons, ih, withMember, Apply.addMember, List.append_assoc]
    rfl

/-- An element selector records its members as what they are bound to. -/
theorem run_addMembers {selector : Lambda} {param : Param} {members : List (String × Expr)}
    (hp : selector.param? = some param) (hm : selector.body.members? = some members) :
    (addMembers chain selector).run.run apply = (.ok (), added) ↔
      (∀ member ∈ members, IsMember chain param.name member.2) ∧
        added = members.foldl (withMember chain param.name) apply := by
  have hsingle : selector.single = .ok param := by rw [Lambda.single, hp]
  rw [addMembers, hsingle, hm]
  exact run_forM_iff fun member apply added => run_record fun bound => memberExpr_eq_ok

/-- A call that aggregates over a group what a selector gives for each element. -/
def selecting (method : String) (group : Expr) (param : Param) (body : Expr) (ty : Ty) : Expr :=
  .call method [group, .lambda [param] body] ty

/-- What is aggregated for the body of a selector: it is bound over the members of grouped elements,
if these have been given any, and else over the leaf. -/
def aggregated? (chain : Chain) (apply : Apply) (name : String) (body : Expr) : Option Expr :=
  if apply.members.isEmpty then overLeaf? chain name body else overMembers? apply name body

/-- A call with a selector whose body can be bound is lifted if the method aggregates values of its
type. -/
theorem aggregationOf_selecting {param : Param} {body bound : Expr}
    (hb : aggregated? chain apply param.name body = some bound)
    (method : String) (group : Expr) (ty : Ty) (given : Option String) (lifted : Aggregation) :
    aggregationOf chain apply (selecting method group param body ty) given = .ok (some lifted) ↔
      ∃ aggregation, AggregationMethod.ofMethod? method = some aggregation ∧
        aggregation.takesSelector = true ∧
        (aggregation.requiresNumeric = true → body.ty.isNumeric = true) ∧
        lifted = ⟨some bound, aggregation,
          given.getD (defaultName aggregation (some ⟨[param], body⟩))⟩ := by
  rw [aggregated?] at hb
  cases hmethod : AggregationMethod.ofMethod? method with
  | none => simp [selecting, aggregationOf, hmethod]
  | some aggregation =>
    cases htakes : aggregation.takesSelector with
    | false => simp [selecting, aggregationOf, hmethod, htakes]
    | true =>
      simp only [selecting, aggregationOf, hmethod, htakes, if_true, ofSelector, Lambda.param?, hb,
        Option.map_some]
      by_cases hn : aggregation.requiresNumeric = true → body.ty.isNumeric = true
      · have hok : (aggregation.requiresNumeric && !body.ty.isNumeric) = false := by
          simpa [imp_iff_not_or] using hn
        rw [hok, if_neg Bool.false_ne_true]
        constructor
        · intro h
          cases h
          exact ⟨aggregation, rfl, htakes, hn, rfl⟩
        · rintro ⟨_, h, -, -, rfl⟩
          cases h
          rfl
      · have hbad : (aggregation.requiresNumeric && !body.ty.isNumeric) = true := by
          simpa using hn
        rw [hbad, if_pos rfl]
        refine iff_of_false (by simp) ?_
        rintro ⟨_, h, -, hnumeric, -⟩
        cases h
        exact hn hnumeric

end Lifted

/-- An aggregation over the members that an element selector gives to grouped elements is lifted if
the one over the elements themselves is, where the members are inlined, and it is of the same
expression. No member may be the record of a transparent scope. -/
theorem aggregationOf_inline {chain : Chain} {selector : Lambda} {s e : Param}
    {members : List (String × Expr)} {apply added : Apply} {body : Expr}
    (hs : selector.param? = some s) (hm : selector.body.members? = some members)
    (hempty : apply.members = [])
    (hadd : (addMembers chain selector).run.run apply = (.ok (), added))
    (hscope : ∀ member ∈ members, ∀ resource, ¬chain.IsScope s.name member.2 resource)
    (hbody : ReadsMembers e.name members body) (hread : body.references e.name = true)
    (method : String) (group : Expr) (ty : Ty) (given other : Option String) :
    ((∃ lifted, aggregationOf chain added (selecting method group e body ty) given =
          .ok (some lifted)) ↔
        ∃ direct, aggregationOf chain apply
          (selecting method group s (inline e.name members body) ty) other = .ok (some direct)) ∧
      ∀ lifted direct,
        aggregationOf chain added (selecting method group e body ty) given = .ok (some lifted) →
          aggregationOf chain apply
              (selecting method group s (inline e.name members body) ty) other =
            .ok (some direct) →
          lifted.expr = direct.expr := by
  obtain ⟨hmembers, rfl⟩ := (run_addMembers hs hm).1 hadd
  have hbound : ∀ expr ∈ members.map Prod.snd, IsMember chain s.name expr :=
    List.forall_mem_map.2 hmembers
  have hfree : ∀ expr ∈ members.map Prod.snd, ∀ resource, ¬chain.IsScope s.name expr resource :=
    List.forall_mem_map.2 hscope
  have hrecorded := members_foldl_withMember chain apply s.name members
  rw [hempty, List.nil_append] at hrecorded
  have hsome : (members.foldl (withMember chain s.name) apply).members.isEmpty = false := by
    rw [hrecorded, List.isEmpty_eq_false_iff, ne_eq, Expr.mapMembers, List.map_eq_nil_iff]
    exact hbody.members_ne_nil hread
  have hlifted : aggregated? chain (members.foldl (withMember chain s.name) apply) e.name body =
      some (chain.bindInput s.name (inline e.name members body)) := by
    rw [aggregated?, hsome, if_neg Bool.false_ne_true]
    exact overMembers?_inline hfree hrecorded hbody
  have hdirect : aggregated? chain apply s.name (inline e.name members body) =
      some (chain.bindInput s.name (inline e.name members body)) := by
    rw [aggregated?, hempty, List.isEmpty_nil, if_pos rfl]
    exact overLeaf?_inline hbound hfree hbody hread
  simp only [aggregationOf_selecting hlifted, aggregationOf_selecting hdirect, ty_inline hbody]
  constructor
  · constructor
    · rintro ⟨_, aggregation, hmethod, htakes, hnumeric, -⟩
      exact ⟨_, aggregation, hmethod, htakes, hnumeric, rfl⟩
    · rintro ⟨_, aggregation, hmethod, htakes, hnumeric, -⟩
      exact ⟨_, aggregation, hmethod, htakes, hnumeric, rfl⟩
  · rintro _ _ ⟨_, -, -, -, rfl⟩ ⟨_, -, -, -, rfl⟩
    rfl

namespace Sample

/-- A grouped element. -/
def e : Param := ⟨"e", .object⟩

/-- The order in a record of the scope. -/
def order : Expr := .member Chain.Sample.t.toExpr "o" (.entity "Order")

def orderTotal : Expr := .member order "Total" .double

def orderMembers : List (String × Expr) := [("Order", order), ("Total", orderTotal)]

def orderElements : Lambda := ⟨[Chain.Sample.t], .newRecord .object orderMembers⟩

/-- What is due of an order, read through the members of a grouped element. -/
def due : Expr :=
  .binary .subtract (.member e.toExpr "Total" .double)
    (.member (.member e.toExpr "Order" (.entity "Order")) "Paid" .double)

/-- What an element selector records. -/
def elements (chain : Chain) (selector : Lambda) : Apply :=
  ((addMembers chain selector).run.run {}).2

/-- The sum of a body over the elements of a group. -/
def sumOver (param : Param) (body : Expr) : Expr := selecting "Sum" g.toExpr param body .double

end Sample

theorem aggregationOf_inline_due :
    (addMembers Chain.Sample.route Sample.orderElements).run.run {} =
        (.ok (), Sample.elements Chain.Sample.route Sample.orderElements) ∧
      (∀ member ∈ Sample.orderMembers, ∀ resource,
        ¬Chain.Sample.route.IsScope "t" member.2 resource) ∧
      ReadsMembers "e" Sample.orderMembers Sample.due ∧
      Sample.due.references "e" = true ∧
      ∃ lifted direct,
        aggregationOf Chain.Sample.route (Sample.elements Chain.Sample.route Sample.orderElements)
            (Sample.sumOver Sample.e Sample.due) none = .ok (some lifted) ∧
        aggregationOf Chain.Sample.route {}
            (Sample.sumOver Chain.Sample.t (inline "e" Sample.orderMembers Sample.due)) none =
          .ok (some direct) ∧
        lifted.expr = direct.expr := by
  have hadds : (addMembers Chain.Sample.route Sample.orderElements).run.run {} =
      (.ok (), Sample.elements Chain.Sample.route Sample.orderElements) := rfl
  have hscope : ∀ member ∈ Sample.orderMembers, ∀ resource,
      ¬Chain.Sample.route.IsScope "t" member.2 resource := by
    have hnone : ∀ member ∈ Sample.orderMembers,
        Chain.Sample.route.scopeOf? "t" member.2 = none :=
      List.forall_mem_cons.2 ⟨rfl, List.forall_mem_singleton.2 rfl⟩
    intro member hm resource hs
    cases (hnone member hm).symm.trans (Chain.scopeOf?_eq_some.2 hs)
  have htotal := @ReadsMembers.read "e" Sample.orderMembers Sample.e "Total" Sample.orderTotal rfl rfl
  have horder := @ReadsMembers.read "e" Sample.orderMembers Sample.e "Order" Sample.order rfl rfl
  have hpaid : ReadsMembers "e" Sample.orderMembers
      (.member (.member Sample.e.toExpr "Order" (.entity "Order")) "Paid" .double) :=
    .node rfl (by simp) (List.forall_mem_singleton.2 horder)
  have hbody : ReadsMembers "e" Sample.orderMembers Sample.due :=
    .node rfl (by simp [Sample.due])
      (List.forall_mem_cons.2 ⟨htotal, List.forall_mem_singleton.2 hpaid⟩)
  have hread : Sample.due.references "e" = true := rfl
  obtain ⟨hiff, hsame⟩ := aggregationOf_inline (e := Sample.e) rfl rfl rfl hadds hscope hbody hread
    "Sum" Sample.g.toExpr .double none none
  obtain ⟨direct, hdirect⟩ := hiff.1 ⟨_, rfl⟩
  exact ⟨hadds, hscope, hbody, hread, _, direct, rfl, hdirect, hsame _ direct rfl hdirect⟩

namespace Sample

/-- A customer with an order. -/
def placing : List (String × Ty) := [("c", .entity "Customer"), ("o", .entity "Order")]

/-- An item beside the customer and the order, both under one name. -/
def listing : List (String × Ty) := [("x", .record placing), ("x", .entity "Item")]

def placed : Resource :=
  { Resource.ofNavigation 1 "Orders" (.entity "Order") true with
    scope := some ⟨placing, "o", some ("c", 0)⟩ }

def listed : Resource :=
  { Resource.ofNavigation 2 "Items" (.entity "Item") true with
    scope := some ⟨listing, "x", some ("x", 1)⟩ }

/-- The items of the orders of a customer. -/
def items : Chain := ⟨listed, [placed, .ofRoot 0 ⟨"Me", .entity "Customer", .singleton⟩]⟩

def r : Param := ⟨"r", .record listing⟩

/-- The member that is the item as well as the record of the customer and the order. -/
def ambiguous : List (String × Expr) := [("m", .member r.toExpr "x" (.record placing))]

def ambiguousElements : Lambda := ⟨[r], .newRecord .object ambiguous⟩

/-- What the order beside the customer comes to. -/
def placedTotal : Expr :=
  .member (.member (.member e.toExpr "m" (.record placing)) "o" (.entity "Order")) "Total" .double

end Sample

/-- Where one name stands for the element of the leaf and for the record of another scope, a member
of that name is bound to the element. An aggregation over the member is then lifted, and one where it
is inlined is not, since it reads the other scope. -/
theorem aggregationOf_inline_ambiguous :
    (addMembers Sample.items Sample.ambiguousElements).run.run {} =
        (.ok (), Sample.elements Sample.items Sample.ambiguousElements) ∧
      (Sample.ambiguous.map Prod.fst).Nodup ∧
      ReadsMembers "e" Sample.ambiguous Sample.placedTotal ∧
      Sample.placedTotal.references "e" = true ∧
      (∃ lifted, aggregationOf Sample.items (Sample.elements Sample.items Sample.ambiguousElements)
        (Sample.sumOver Sample.e Sample.placedTotal) none = .ok (some lifted)) ∧
      aggregationOf Sample.items {}
        (Sample.sumOver Sample.r (inline "e" Sample.ambiguous Sample.placedTotal)) none =
          .ok none := by
  have hmember := @ReadsMembers.read "e" Sample.ambiguous Sample.e "m" _ rfl rfl
  have hbody : ReadsMembers "e" Sample.ambiguous Sample.placedTotal :=
    .node rfl (by simp [Sample.placedTotal]) (List.forall_mem_singleton.2
      (.node rfl (by simp) (List.forall_mem_singleton.2 hmember)))
  exact ⟨rfl, by decide, hbody, rfl, ⟨_, rfl⟩, rfl⟩

end ServiceQuery.Grouping
