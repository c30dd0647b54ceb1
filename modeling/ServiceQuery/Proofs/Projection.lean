import ServiceQuery.Projection
import ServiceQuery.Proofs.Normal

/-!
# One projection after another

A projection that follows another one is put together with it: its parameter becomes the body of the
first, and a member that is read from a construction becomes what was assigned to it. The value is
the one that the second projection has for the value of the first.
-/

namespace ServiceQuery

namespace Expr

/-! ### Substitution -/

/-- A member that is read from a construction as what was assigned to it. -/
def shorten (expr : Expr) : Expr :=
  match expr with
  | member source field _ => (source.constructed? field).getD expr
  | _ => expr

/-- What a substitution makes of a node without a look at its subexpressions. -/
def substituted? (expr : Expr) (name : String) (replacement : Expr) : Option Expr :=
  match expr with
  | parameter param => if param.name == name then some replacement else none
  | lambda params _ => if Param.declares params name then some expr else none
  | _ => none

/-- Whether the node is no parameter and declares none. -/
def isNameless : Expr → Bool
  | parameter _ | lambda _ _ => false
  | _ => true

theorem isNameless_mapChildren (f : Expr → Expr) (expr : Expr) :
    (expr.mapChildren f).isNameless = expr.isNameless := by
  cases expr <;> rfl

section Substitute

variable {name : String} {replacement : Expr}

/-- A substitution at one node. -/
theorem substitute_eq (expr : Expr) :
    expr.substitute name replacement =
      (expr.substituted? name replacement).getD
        (expr.mapChildren fun child => child.substitute name replacement).shorten := by
  have hchildren := mapChildrenM_id (fun child => child.substitute name replacement) expr
  rw [substitute, transformM_eq, visit, substituted?.eq_def]
  cases expr with
  | parameter param =>
    dsimp only
    cases param.name == name <;> rfl
  | lambda params body =>
    dsimp only
    cases Param.declares params name <;> rfl
  | _ =>
    rw [← hchildren]
    rfl

theorem substitute_of_isNameless {expr : Expr} (h : expr.isNameless = true) :
    expr.substitute name replacement =
      (expr.mapChildren fun child => child.substitute name replacement).shorten := by
  have hstop : expr.substituted? name replacement = none := by
    cases expr with
    | parameter | lambda => cases h
    | _ => rfl
  rw [substitute_eq, hstop, Option.getD_none]

end Substitute

/-! ### Members of constructions -/

theorem lookup_mapMembers (f : Expr → Expr) (members : List (String × Expr)) (name : String) :
    (mapMembers f members).lookup name = (members.lookup name).map f := by
  induction members with
  | nil => rfl
  | cons member rest ih =>
    rw [mapMembers, List.map_cons, List.lookup_cons, List.lookup_cons]
    cases name == member.1
    · exact ih
    · rfl

theorem members?_mapChildren (f : Expr → Expr) (expr : Expr) :
    (expr.mapChildren f).members? = expr.members?.map (mapMembers f) := by
  cases expr <;> rfl

theorem constructed?_mapChildren (f : Expr → Expr) (expr : Expr) (name : String) :
    (expr.mapChildren f).constructed? name = (expr.constructed? name).map f := by
  rw [constructed?, constructed?, members?_mapChildren]
  cases expr.members? with
  | none => rfl
  | some members => exact lookup_mapMembers f members name

/-- A member of a record has the value that was assigned to it. -/
theorem lookup_evaluateMembers {members : List (String × Expr)} {fields : List (String × Value)}
    (h : evaluateMembers members = .ok fields) {name : String} {assigned : Expr}
    (ha : members.lookup name = some assigned) :
    ∃ value, assigned.evaluate = .ok value ∧ fields.lookup name = some value := by
  induction members generalizing fields with
  | nil => cases ha
  | cons member rest ih =>
    simp only [evaluateMembers, Except.bind_eq_ok, Except.pure_eq_ok] at h
    obtain ⟨value, hv, values, hvs, rfl⟩ := h
    rw [List.lookup_cons] at ha ⊢
    cases hname : name == member.1 with
    | true =>
      rw [hname] at ha
      cases ha
      exact ⟨value, hv, rfl⟩
    | false =>
      rw [hname] at ha
      exact ih hvs ha

theorem evaluate_constructed? {source assigned : Expr} {name : String} {ty : Ty} {value : Value}
    (ha : source.constructed? name = some assigned)
    (h : (member source name ty).evaluate = .ok value) : assigned.evaluate = .ok value := by
  obtain ⟨members, hm, hl⟩ := Option.bind_eq_some_iff.1 ha
  have hsource : source.evaluate = Value.record <$> evaluateMembers members := by
    cases source with
    | newRecord | newObject =>
      cases hm
      rfl
    | _ => cases hm
  simp only [evaluate, hsource, Except.bind_eq_ok, Except.map_eq_ok] at h
  obtain ⟨_, ⟨fields, hf, rfl⟩, hread⟩ := h
  obtain ⟨found, he, hfound⟩ := lookup_evaluateMembers hf hl
  simp only [Value.readMember, hfound] at hread
  exact he.trans hread

theorem assign_of_isNameless (values : String → Option Value) {expr : Expr}
    (h : expr.isNameless = true) : expr.assign values = expr.mapChildren (assign values) := by
  refine assign_eq values ?_ ?_
  · rintro param rfl
    cases h
  · rintro params body rfl
    cases h

/-- A member of a construction has the value of what was assigned to it. -/
theorem shorten_refines (values : String → Option Value) (expr : Expr) :
    Refines (expr.assign values).evaluate (expr.shorten.assign values).evaluate := by
  cases expr with
  | member source name ty =>
    intro value h
    rw [shorten]
    cases ha : source.constructed? name with
    | none => exact h
    | some assigned =>
      have hnameless : source.isNameless = true := by
        cases source with
        | newRecord | newObject => rfl
        | _ => cases ha
      have hsource : (source.assign values).constructed? name = some (assigned.assign values) := by
        rw [assign_of_isNameless values hnameless, constructed?_mapChildren, ha, Option.map_some]
      exact evaluate_constructed? hsource h
  | _ => exact fun _ h => h

/-! ### Values -/

/-- The value of the expression for a value of the parameter. -/
def evaluateAt (param : Param) (value : Value) (expr : Expr) : Except EvalError Value :=
  (expr.assign fun name => if name = param.name then some value else none).evaluate

section Values

variable {x y : Param} {v w : Value} {replacement : Expr}

theorem substitute_refines_of_isNameless {expr : Expr} (hn : expr.isNameless = true)
    (ih : ∀ child ∈ expr.children,
      Refines (child.evaluateAt y w) ((child.substitute y.name replacement).evaluateAt x v)) :
    Refines (expr.evaluateAt y w) ((expr.substitute y.name replacement).evaluateAt x v) := by
  intro value h
  have hrebuilt :
      (expr.mapChildren fun child => child.substitute y.name replacement).isNameless = true := by
    rw [isNameless_mapChildren, hn]
  rw [substitute_of_isNameless hn]
  -- the value is that of the rebuilt node, before it is shortened
  refine shorten_refines _ _ value ?_
  rw [assign_of_isNameless _ hrebuilt, mapChildren_mapChildren]
  rw [evaluateAt, assign_of_isNameless _ hn] at h
  exact evaluate_related .refines ih value h

/-- Where an expression has a value for the value of the replacement, it has the same with the
replacement in the place of the parameter. -/
theorem substitute_refines (hr : replacement.evaluateAt x v = .ok w) (expr : Expr) :
    Refines (expr.evaluateAt y w) ((expr.substitute y.name replacement).evaluateAt x v) := by
  induction expr using induction_children with
  | node expr ih =>
    cases expr with
    | parameter param =>
      intro value h
      rw [substitute_eq, substituted?]
      by_cases hname : param.name = y.name
      · rw [if_pos (beq_iff_eq.2 hname), Option.getD_some, hr]
        simpa [evaluateAt, assign, hname, evaluate] using h
      · -- any other parameter has no value
        simp [evaluateAt, assign, hname, evaluate] at h
    | lambda params body =>
      intro value h
      cases h
    | _ => exact substitute_refines_of_isNameless rfl ih

end Values

end Expr

namespace Lambda

/-- Two projections put together have the value that the second has for the value of the first. -/
theorem evaluateAt_after {x y : Param} {first second : Expr} {v w u : Value}
    (hfirst : first.evaluateAt x v = .ok w) (hsecond : second.evaluateAt y w = .ok u) :
    ∃ body, after ⟨[y], second⟩ ⟨[x], first⟩ = .ok ⟨[x], body⟩ ∧
      body.evaluateAt x v = .ok u :=
  ⟨_, rfl, Expr.substitute_refines hfirst second u hsecond⟩

namespace Sample

/-- An order. -/
def order : Param := ⟨"o", .entity "Order"⟩

/-- What is read of an order. -/
def priced : Param := ⟨"p", .object⟩

/-- The price of an order and that of its shipping, one record in another. -/
def prices : Expr :=
  .newRecord .object
    [("Price", .member order.toExpr "Total" .int32),
      ("Shipping", .newRecord .object [("Price", .member order.toExpr "Freight" .int32)])]

/-- The sum of both prices. -/
def sum : Expr :=
  .newRecord .object
    [("Sum", .binary .add (.member priced.toExpr "Price" .int32)
      (.member (.member priced.toExpr "Shipping" .object) "Price" .int32))]

end Sample

theorem evaluateAt_after_sum :
    Sample.prices.evaluateAt Sample.order (.record [("Total", .int32 5), ("Freight", .int32 2)]) =
        .ok (.record [("Price", .int32 5), ("Shipping", .record [("Price", .int32 2)])]) ∧
      Sample.sum.evaluateAt Sample.priced
          (.record [("Price", .int32 5), ("Shipping", .record [("Price", .int32 2)])]) =
        .ok (.record [("Sum", .int32 7)]) ∧
      ∃ body, after ⟨[Sample.priced], Sample.sum⟩ ⟨[Sample.order], Sample.prices⟩ =
          .ok ⟨[Sample.order], body⟩ ∧
        body.evaluateAt Sample.order (.record [("Total", .int32 5), ("Freight", .int32 2)]) =
          .ok (.record [("Sum", .int32 7)]) :=
  ⟨rfl, rfl, evaluateAt_after rfl rfl⟩

end Lambda

end ServiceQuery
