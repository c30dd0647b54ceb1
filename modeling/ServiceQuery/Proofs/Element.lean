import ServiceQuery.Proofs.Capture
import ServiceQuery.Proofs.Occurrence

/-!
# Projections of a record as projections of an element

A projection of a record that holds the element of a resource is turned into one of the element. It
is so exactly if the record is read through that field everywhere, and then both have the same
results.
-/

namespace ServiceQuery

namespace Expr

/-- A function that may have no result has one for a node if it has one for each subexpression. -/
theorem mapChildrenM_isSome {f : Expr → Option Expr} {expr : Expr} :
    (expr.mapChildrenM f).isSome = true ↔ ∀ child ∈ expr.children, (f child).isSome = true := by
  constructor
  · intro h child hc
    obtain ⟨result, hr⟩ := Option.isSome_iff_exists.1 h
    obtain ⟨g, -, hg⟩ := mapChildrenM_gives .option hr
    exact Option.isSome_iff_exists.2 ⟨g child, hg child hc⟩
  · intro h
    have hchildren : ∀ child ∈ expr.children, f child = pure ((f child).getD child) := by
      intro child hc
      obtain ⟨result, hr⟩ := Option.isSome_iff_exists.1 (h child hc)
      rw [hr]
      rfl
    rw [mapChildrenM_reaches (.withoutEffect Option) hchildren]
    rfl

/-- Every use of the parameter is the operand of an access to the member. -/
def UsedThrough (name accessor : String) (expr : Expr) : Prop :=
  expr.isParameter name = false ∧
    ∀ node, InScope name node expr → node.rebinds name = false →
      ∀ child ∈ node.children, child.isParameter name = true → ∃ ty, node = member child accessor ty

/-- Induction over the nodes that the replacement of a field tells apart: accesses to it, the
parameter itself, other parameters, lambdas that declare the parameter again or do not, and all
other nodes. -/
@[elab_as_elim]
theorem induction_accesses (old accessor : String) {motive : Expr → Prop}
    (access : ∀ expr, expr.accesses old accessor = true → motive expr)
    (self : ∀ param : Param, param.name = old → motive (parameter param))
    (other : ∀ param : Param, param.name ≠ old → motive (parameter param))
    (shadow : ∀ params body, old ∈ params.map Param.name → motive (lambda params body))
    (scope : ∀ params body, old ∉ params.map Param.name → motive body →
      motive (lambda params body))
    (node : ∀ expr, expr.accesses old accessor = false → expr.isNameless = true →
      (∀ child ∈ expr.children, motive child) → motive expr)
    (expr : Expr) : motive expr := by
  induction expr using induction_children with
  | node expr ih =>
    by_cases ha : expr.accesses old accessor = true
    · exact access expr ha
    · cases expr with
      | parameter param =>
        by_cases hname : param.name = old
        · exact self param hname
        · exact other param hname
      | lambda params body =>
        by_cases hd : old ∈ params.map Param.name
        · exact shadow params body hd
        · exact scope params body hd (ih body List.mem_cons_self)
      | _ => exact node _ (Bool.eq_false_iff.2 ha) rfl ih

section Replace

variable {old accessor : String} {new : Param}

/-- At a node that is no use of the parameter, its use is decided by the subexpressions. -/
theorem usedThrough_iff {expr : Expr} (hp : expr.isParameter old = false)
    (ha : expr.accesses old accessor = false) :
    expr.UsedThrough old accessor ↔
      (expr.rebinds old = false → ∀ child ∈ expr.children, child.UsedThrough old accessor) := by
  constructor
  · rintro ⟨-, h⟩ hr child hc
    refine ⟨Bool.eq_false_iff.2 fun hchild => ?_, fun node hs => h node (.inside hr hc hs)⟩
    obtain ⟨ty, rfl⟩ := h expr .here hr child hc hchild
    rw [accesses, hchild, beq_self_eq_true] at ha
    cases ha
  · refine fun h => ⟨hp, fun node hs hr child hc hchild => ?_⟩
    obtain rfl | ⟨passes, inner, hm, hs⟩ := inScope_iff.1 hs
    · rw [(h hr child hc).1] at hchild
      cases hchild
    · exact (h passes inner hm).2 node hs hr child hc hchild

theorem usedThrough_of_accesses {expr : Expr} (h : expr.accesses old accessor = true) :
    expr.UsedThrough old accessor := by
  obtain ⟨param, ty, rfl, -⟩ := accesses_iff.1 h
  refine ⟨rfl, fun node hs hr child hc hchild => ?_⟩
  obtain rfl | ⟨-, inner, hm, hs⟩ := inScope_iff.1 hs
  · obtain rfl := List.mem_singleton.1 hc
    exact ⟨ty, rfl⟩
  · -- the parameter itself has no subexpressions
    rw [List.mem_singleton.1 hm] at hs
    obtain rfl | ⟨-, inner, hm, -⟩ := inScope_iff.1 hs
    · cases hc
    · cases hm

/-- The field can be replaced if the parameter is read through it everywhere. -/
theorem replaceAccessor?_isSome (expr : Expr) :
    (expr.replaceAccessor? old accessor new).isSome = true ↔ expr.UsedThrough old accessor := by
  induction expr using induction_accesses old accessor with
  | access expr ha =>
    rw [replaceAccessor?_of_accesses ha]
    exact iff_of_true rfl (usedThrough_of_accesses ha)
  | self param hname =>
    subst hname
    rw [replaceAccessor?_parameter_self]
    exact iff_of_false Bool.false_ne_true fun h => beq_eq_false_iff_ne.1 h.1 rfl
  | other param hname =>
    have hp : (parameter param).isParameter old = false := beq_eq_false_iff_ne.2 hname
    rw [replaceAccessor?_parameter_of_ne hname, usedThrough_iff hp rfl]
    exact iff_of_true rfl fun _ => List.forall_mem_nil _
  | shadow params body hd =>
    have hcloses : (lambda params body).rebinds old = true := Param.declares_iff.2 hd
    rw [replaceAccessor?_lambda_of_mem hd, usedThrough_iff rfl rfl, hcloses]
    exact iff_of_true rfl fun h => Bool.noConfusion h
  | scope params body hd ih =>
    have hpasses : (lambda params body).rebinds old = false :=
      Bool.eq_false_iff.2 fun h => hd (Param.declares_iff.1 h)
    rw [usedThrough_iff rfl rfl, replaceAccessor?_lambda_of_notMem hd, Option.isSome_map, ih,
      children, List.forall_mem_singleton]
    exact (imp_iff_right hpasses).symm
  | node expr ha hn ih =>
    have hp : expr.isParameter old = false := by
      cases expr with
      | parameter => cases hn
      | _ => rfl
    rw [replaceAccessor?_of_isNameless hn ha, mapChildrenM_isSome, usedThrough_iff hp ha]
    simp only [rebinds_of_isNameless hn, forall_const]
    exact forall₂_congr ih

/-- A parameter that the result uses is the new one, or another than the old one that was used. -/
theorem references_replaceAccessor? {expr result : Expr}
    (h : expr.replaceAccessor? old accessor new = some result) {name : String}
    (hr : result.references name = true) :
    name = new.name ∨ name ≠ old ∧ expr.references name = true := by
  induction expr using induction_accesses old accessor generalizing result with
  | access expr ha =>
    rw [replaceAccessor?_of_accesses ha] at h
    cases h
    exact .inl ((references_parameter new).1 hr).symm
  | self param hname =>
    subst hname
    rw [replaceAccessor?_parameter_self] at h
    cases h
  | other param hname =>
    rw [replaceAccessor?_parameter_of_ne hname] at h
    cases h
    refine .inr ⟨?_, hr⟩
    rwa [← (references_parameter param).1 hr]
  | shadow params body hd =>
    rw [replaceAccessor?_lambda_of_mem hd] at h
    cases h
    refine .inr ⟨?_, hr⟩
    rintro rfl
    exact ((references_lambda params body).1 hr).1 hd
  | scope params body hd ih =>
    rw [replaceAccessor?_lambda_of_notMem hd] at h
    obtain ⟨inner, hi, rfl⟩ := Option.map_eq_some_iff.1 h
    obtain ⟨hp, hr⟩ := (references_lambda params inner).1 hr
    exact (ih hi hr).imp_right fun hold =>
      ⟨hold.1, (references_lambda params body).2 ⟨hp, hold.2⟩⟩
  | node expr ha hn ih =>
    rw [replaceAccessor?_of_isNameless hn ha] at h
    obtain ⟨g, rfl, hg⟩ := mapChildrenM_gives .option h
    obtain ⟨_, hm, hr⟩ :=
      (references_of_isNameless ((isNameless_mapChildren g expr).trans hn)).1 hr
    rw [children_mapChildren] at hm
    obtain ⟨child, hc, rfl⟩ := List.mem_map.1 hm
    exact (ih child hc (hg child hc) hr).imp_right fun hold =>
      ⟨hold.1, (references_of_isNameless hn).2 ⟨child, hc, hold.2⟩⟩

theorem evaluateAt_self (param : Param) (value : Value) :
    param.toExpr.evaluateAt param value = .ok value := by
  simp [Param.toExpr, evaluateAt, assign, evaluate]

theorem evaluateAt_access {t param : Param} (hname : param.name = t.name) {field : String} {ty : Ty}
    {record v : Value} (hv : record.field? field = some v) :
    (member (parameter param) field ty).evaluateAt t record = .ok v := by
  cases record with
  | record fields =>
    rw [Value.field?] at hv
    simp [evaluateAt, assign, hname, evaluate, Except.bind_eq_ok, Value.readMember, hv]
  | _ => cases hv

/-- An expression without other parameters has the same result for a record as, with the field
replaced, for the value of the field. -/
theorem replaceAccessor?_same {t : Param} {expr result : Expr}
    (h : expr.replaceAccessor? t.name new.name new = some result)
    (hfree : ∀ name, expr.references name = true → name = t.name) {record v : Value}
    (hv : record.field? new.name = some v) :
    SameResult (expr.evaluateAt t record) (result.evaluateAt new v) := by
  induction expr using induction_accesses t.name new.name generalizing result with
  | access expr ha =>
    rw [replaceAccessor?_of_accesses ha] at h
    cases h
    obtain ⟨param, ty, rfl, hname⟩ := accesses_iff.1 ha
    rw [evaluateAt_access hname hv, evaluateAt_self]
    rfl
  | self param hname =>
    rw [← hname, replaceAccessor?_parameter_self] at h
    cases h
  | other param hname => exact absurd (hfree _ ((references_parameter param).2 rfl)) hname
  -- a lambda has no value, whatever its body is
  | shadow params body hd =>
    rw [replaceAccessor?_lambda_of_mem hd] at h
    cases h
    rfl
  | scope params body hd =>
    rw [replaceAccessor?_lambda_of_notMem hd] at h
    obtain ⟨inner, -, rfl⟩ := Option.map_eq_some_iff.1 h
    rfl
  | node expr ha hn ih =>
    rw [replaceAccessor?_of_isNameless hn ha] at h
    obtain ⟨g, rfl, hg⟩ := mapChildrenM_gives .option h
    rw [evaluateAt, evaluateAt, assign_of_isNameless _ hn,
      assign_of_isNameless _ ((isNameless_mapChildren g expr).trans hn), mapChildren_mapChildren]
    refine evaluate_mapChildren fun child hc => ih child hc (hg child hc) fun name hname => ?_
    exact hfree name ((references_of_isNameless hn).2 ⟨child, hc, hname⟩)

end Replace

end Expr

namespace Lambda

section OverElement

variable {t : Param} {body : Expr} {resource : Resource} {accessor : String}

theorem overElement_of_some (ha : accessor? t resource = some accessor) {inner : Expr}
    (h : body.replaceAccessor? t.name accessor ⟨accessor, resource.elementType⟩ = some inner) :
    overElement ⟨[t], body⟩ resource = .ok ⟨[⟨accessor, resource.elementType⟩], inner⟩ := by
  simp only [overElement, param?, ha, h]

theorem overElement_of_none (ha : accessor? t resource = some accessor)
    (h : body.replaceAccessor? t.name accessor ⟨accessor, resource.elementType⟩ = none) :
    overElement ⟨[t], body⟩ resource = .error (.leafOnlyProjection (toExpr ⟨[t], body⟩).text) := by
  simp only [overElement, param?, ha, h]

/-- A projection of a record from which the element of a resource is read has a form over the
element exactly if the record is read through that field everywhere. The form has the element as its
only parameter, and for the value of the field the result that the projection has for the record. -/
theorem overElement_exact (ha : accessor? t resource = some accessor)
    (hfree : ∀ name, body.references name = true → name = t.name) :
    ((∃ g, overElement ⟨[t], body⟩ resource = .ok g) ↔ body.UsedThrough t.name accessor) ∧
      (¬body.UsedThrough t.name accessor →
        overElement ⟨[t], body⟩ resource =
          .error (.leafOnlyProjection (toExpr ⟨[t], body⟩).text)) ∧
      ∀ g, overElement ⟨[t], body⟩ resource = .ok g →
        g.params = [⟨accessor, resource.elementType⟩] ∧
          (∀ name, g.body.references name = true → name = accessor) ∧
          ∀ record v, record.field? accessor = some v →
            SameResult (body.evaluateAt t record)
              (g.body.evaluateAt ⟨accessor, resource.elementType⟩ v) := by
  have hsome : (body.replaceAccessor? t.name accessor ⟨accessor, resource.elementType⟩).isSome =
      true ↔ body.UsedThrough t.name accessor := body.replaceAccessor?_isSome
  cases hr : body.replaceAccessor? t.name accessor ⟨accessor, resource.elementType⟩ with
  | none =>
    have herror := overElement_of_none ha hr
    have hused : ¬body.UsedThrough t.name accessor := by
      rw [← hsome, hr]
      exact Bool.false_ne_true
    refine ⟨iff_of_false ?_ hused, fun _ => herror, fun g hg => ?_⟩
    · rintro ⟨g, hg⟩
      cases herror.symm.trans hg
    · cases herror.symm.trans hg
  | some inner =>
    have hok := overElement_of_some ha hr
    have hused : body.UsedThrough t.name accessor := by
      rw [← hsome, hr]
      rfl
    refine ⟨iff_of_true ⟨_, hok⟩ hused, fun h => absurd hused h, fun g hg => ?_⟩
    obtain rfl := Except.ok.inj (hok.symm.trans hg)
    refine ⟨rfl, fun name hname => ?_, fun record v hv => Expr.replaceAccessor?_same hr hfree hv⟩
    obtain hnew | ⟨hold, hname⟩ := Expr.references_replaceAccessor? hr hname
    · exact hnew
    · exact absurd (hfree name hname) hold

end OverElement

namespace Sample

/-- A customer with an order. -/
def entry : Param := ⟨"t", .record [("c", .entity "Customer"), ("o", .entity "Order")]⟩

/-- The orders of a customer, with the customer beside each. -/
def orders : Resource :=
  { Resource.ofNavigation 1 "Orders" (.entity "Order") true with
    scope := some ⟨[("c", .entity "Customer"), ("o", .entity "Order")], "o", some ("c", 0)⟩ }

/-- A number that is read from the order. -/
def ofOrder (name : String) : Expr :=
  .member (.member entry.toExpr "o" (.entity "Order")) name .int32

/-- What is paid for an order: nothing for an empty one, where a lambda uses the name again. -/
def paid : Expr :=
  .conditional (.binary .greaterThan (ofOrder "Count") (.constant (.int32 0)))
    (.binary .add (ofOrder "Total") (ofOrder "Freight"))
    (.call "Any" [ofOrder "Lines", .lambda [entry] entry.toExpr] .bool)

theorem references_paid (name : String) (h : paid.references name = true) : name = entry.name := by
  by_contra hne
  simp [paid, ofOrder, Param.toExpr, Expr.references, Expr.gather, Expr.gatherList, Param.declares,
    Ne.symm hne] at h

end Sample

theorem overElement_exact_paid :
    accessor? Sample.entry Sample.orders = some "o" ∧
      (∀ name, Sample.paid.references name = true → name = Sample.entry.name) ∧
      Sample.paid.UsedThrough "t" "o" ∧
      ∃ g, overElement ⟨[Sample.entry], Sample.paid⟩ Sample.orders = .ok g ∧
        g.params = [⟨"o", .entity "Order"⟩] ∧
        (∀ name, g.body.references name = true → name = "o") ∧
        ∀ record v, record.field? "o" = some v →
          SameResult (Sample.paid.evaluateAt Sample.entry record)
            (g.body.evaluateAt ⟨"o", .entity "Order"⟩ v) := by
  have haccessor : accessor? Sample.entry Sample.orders = some "o" := rfl
  have hexact := overElement_exact haccessor Sample.references_paid
  exact ⟨haccessor, Sample.references_paid, hexact.1.1 ⟨_, rfl⟩, _, rfl, hexact.2.2 _ rfl⟩

end Lambda

end ServiceQuery
