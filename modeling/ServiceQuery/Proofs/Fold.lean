import ServiceQuery.Fold
import ServiceQuery.Proofs.Monad
import ServiceQuery.Proofs.Traverse

/-!
# Folding keeps the meaning of an expression

An expression and its folded form have the same value for every assignment of values to their
parameters. Where one has none, neither has the other, for the same reason.

## Main definitions

* `Expr.assign`: values in place of parameters.
* `SameResult`: results that differ in the expressions that errors name only.
* `ResultRelation`: other relations between results that steps keep.

## Main statements

* `Expr.evaluate_mapChildren`: the result of a node is decided by the results of its subexpressions.
* `Expr.fold_evaluate`: folding keeps results.
-/

namespace ServiceQuery

/-- The error without the expression it names. -/
def EvalError.withoutExpr : EvalError → EvalError
  | divideByZero _ => divideByZero (.constant .null)
  | overflow _ => overflow (.constant .null)
  | typeMismatch _ left right => typeMismatch (.constant .null) left right
  | missingMember member _ => missingMember member (.constant .null)
  | nullReference _ => nullReference (.constant .null)
  | unsupportedCall method => unsupportedCall method
  | invalidConversion value ty => invalidConversion value ty
  | outOfRange _ => outOfRange (.constant .null)
  | notEvaluable _ => notEvaluable (.constant .null)

/-- Two results are the same value, or errors that differ in the expression they name only. -/
def SameResult {α : Type} (x y : Except EvalError α) : Prop :=
  x.mapError EvalError.withoutExpr = y.mapError EvalError.withoutExpr

namespace SameResult

variable {α β : Type} {x y : Except EvalError α}

theorem refl (x : Except EvalError α) : SameResult x x := rfl

theorem error {e e' : EvalError} (h : e.withoutExpr = e'.withoutExpr) :
    SameResult (.error e : Except EvalError α) (.error e') :=
  congrArg Except.error h

theorem bind (h : SameResult x y) {f g : α → Except EvalError β}
    (hf : ∀ a, SameResult (f a) (g a)) : SameResult (x >>= f) (y >>= g) := by
  cases x with
  | ok a =>
    cases y with
    | ok b =>
      obtain rfl : a = b := Except.ok.inj h
      exact hf a
    | error e => cases h
  | error e =>
    cases y with
    | ok b => cases h
    | error e' => exact error (Except.error.inj h)

theorem ok_iff (h : SameResult x y) (a : α) : x = .ok a ↔ y = .ok a := by
  cases x with
  | ok b =>
    cases y with
    | ok c => rw [show b = c from Except.ok.inj h]
    | error e => cases h
  | error e =>
    cases y with
    | ok c => cases h
    | error e' => exact ⟨fun h => (nomatch h), fun h => (nomatch h)⟩

end SameResult

/-- A relation between results that steps keep, and that does not see which expressions errors
name. -/
structure ResultRelation where
  rel : {α : Type} → Except EvalError α → Except EvalError α → Prop
  of_same : ∀ {α : Type} {x y : Except EvalError α}, SameResult x y → rel x y
  bind : ∀ {α β : Type} {x y : Except EvalError α} {f g : α → Except EvalError β},
    rel x y → (∀ a, rel (f a) (g a)) → rel (x >>= f) (y >>= g)

def ResultRelation.same : ResultRelation := ⟨SameResult, id, fun h hf => h.bind hf⟩

theorem ResultRelation.map (r : ResultRelation) {α β : Type} {x y : Except EvalError α}
    (h : r.rel x y) (f : α → β) : r.rel (f <$> x) (f <$> y) := by
  have hb := r.bind h fun a => r.of_same (.refl (.ok (f a)))
  cases x <;> cases y <;> exact hb

namespace Value

/-! The expression that an operation is given is only named in its errors. -/

variable (a b : Expr)

theorem fit32_same (n : Int) : SameResult (fit32 a n) (fit32 b n) := by
  unfold fit32
  split <;> rfl

theorem fit64_same (n : Int) : SameResult (fit64 a n) (fit64 b n) := by
  unfold fit64
  split <;> rfl

theorem readMember_same (value : Value) (name : String) :
    SameResult (value.readMember name a) (value.readMember name b) := by
  cases value with
  | string s =>
    simp only [readMember]
    split
    · exact fit32_same a b _
    · rfl
  | array element items =>
    simp only [readMember]
    split
    · exact fit32_same a b _
    · rfl
  | record fields =>
    simp only [readMember]
    split <;> rfl
  | _ => rfl

theorem index_same (value : Value) : SameResult (value.index a) (value.index b) := by
  unfold index
  split <;> rfl

theorem invokeString_same (s : List Char) (method : String) (args : List Value) :
    SameResult (invokeString s method args a) (invokeString s method args b) := by
  unfold invokeString
  split <;> try rfl
  · refine .bind (.refl _) fun part => ?_
    split
    · exact fit32_same a b _
    · rfl
  · refine .bind (index_same a b _) fun start => ?_
    split <;> rfl
  · refine .bind (index_same a b _) fun start => ?_
    refine .bind (index_same a b _) fun length => ?_
    split <;> rfl

theorem invoke_same (receiver : Value) (method : String) (args : List Value) :
    SameResult (receiver.invoke method args a) (receiver.invoke method args b) := by
  unfold invoke
  split
  · rfl
  · exact invokeString_same a b _ method args
  · rfl
  · rfl

theorem rounded_same (method : String) (value : Value) :
    SameResult (rounded method value a) (rounded method value b) := by
  cases value <;> rfl

theorem absolute_same (value : Value) {x y : Except EvalError Value} (h : SameResult x y) :
    SameResult ((value.absolute? a).getD x) ((value.absolute? b).getD y) := by
  cases value with
  | int32 n => exact fit32_same a b _
  | int64 n => exact fit64_same a b _
  | single x | double x | decimal d => rfl
  | _ => exact h

theorem negate_same (value : Value) {x y : Except EvalError Value} (h : SameResult x y) :
    SameResult ((value.negate? a).getD x) ((value.negate? b).getD y) := by
  cases value with
  | int32 n => exact fit32_same a b _
  | int64 n => exact fit64_same a b _
  | single x | double x | decimal d => rfl
  | _ => exact h

theorem call_same (method : String) (args : List Value) :
    SameResult (call method args a) (call method args b) := by
  unfold call
  split
  · rfl
  · rfl
  · rfl
  · exact rounded_same a b _ _
  · exact rounded_same a b _ _
  · exact rounded_same a b _ _
  · exact absolute_same a b _ rfl
  · rfl

theorem unary_same (op : UnaryOp) (value : Value) (ty : Ty) :
    SameResult (unary op value ty a) (unary op value ty b) := by
  unfold unary
  split
  · rfl
  · rfl
  · rfl
  · exact negate_same a b _ rfl
  · rfl

theorem arithmetic_same (op : BinaryOp) (l r : Value) :
    SameResult (arithmetic op l r a) (arithmetic op l r b) := by
  unfold arithmetic
  split
  · rfl
  · split
    · rfl
    · split
      · rfl
      · next operands _ =>
        cases operands.apply op with
        | ok value => rfl
        | error fault => cases fault <;> rfl

theorem binary_same (op : BinaryOp) (l r : Value) :
    SameResult (binary op l r a) (binary op l r b) := by
  cases op with
  | equal | notEqual => rfl
  | lessThan | lessThanOrEqual | greaterThan | greaterThanOrEqual =>
    simp only [binary]
    split
    · rfl
    · cases compare? l r with
      | some order => rfl
      | none => rfl
  | _ => exact arithmetic_same a b _ l r

end Value

namespace Expr

section Related

variable (r : ResultRelation) {f g : Expr → Expr}

theorem evaluateList_related {exprs : List Expr}
    (h : ∀ expr ∈ exprs, r.rel (f expr).evaluate (g expr).evaluate) :
    r.rel (evaluateList (exprs.map f)) (evaluateList (exprs.map g)) := by
  induction exprs with
  | nil => exact r.of_same (.refl _)
  | cons expr rest ih =>
    rw [List.forall_mem_cons] at h
    exact r.bind h.1 fun value => r.bind (ih h.2) fun values => r.of_same (.refl _)

theorem evaluateMembers_related {members : List (String × Expr)}
    (h : ∀ expr ∈ members.map Prod.snd, r.rel (f expr).evaluate (g expr).evaluate) :
    r.rel (evaluateMembers (mapMembers f members)) (evaluateMembers (mapMembers g members)) := by
  induction members with
  | nil => exact r.of_same (.refl _)
  | cons member rest ih =>
    rw [List.map_cons, List.forall_mem_cons] at h
    exact r.bind h.1 fun value => r.bind (ih h.2) fun values => r.of_same (.refl _)

/-- Results of nodes are related if those of their subexpressions are. -/
theorem evaluate_related {expr : Expr}
    (h : ∀ child ∈ expr.children, r.rel (f child).evaluate (g child).evaluate) :
    r.rel (expr.mapChildren f).evaluate (expr.mapChildren g).evaluate := by
  cases expr with
  | constant value | parameter param | root origin | input ref | lambda params body =>
    exact r.of_same rfl
  | member source name ty =>
    exact r.bind (h source List.mem_cons_self) fun value =>
      r.of_same (Value.readMember_same _ _ value name)
  | invoke receiver method args ty =>
    rw [children, List.forall_mem_cons] at h
    exact r.bind h.1 fun value => r.bind (evaluateList_related r h.2) fun values =>
      r.of_same (Value.invoke_same _ _ value method values)
  | call method args ty =>
    exact r.bind (evaluateList_related r h) fun values =>
      r.of_same (Value.call_same _ _ method values)
  | newRecord ty members | newObject ty members => exact r.map (evaluateMembers_related r h) _
  | newArray element items =>
    exact r.bind (evaluateList_related r h) fun values => r.of_same (.refl _)
  | unary op operand ty =>
    exact r.bind (h operand List.mem_cons_self) fun value =>
      r.of_same (Value.unary_same _ _ op value ty)
  | binary op left right =>
    rw [children, List.forall_mem_cons, List.forall_mem_singleton] at h
    simp only [mapChildren, evaluate]
    refine r.bind h.1 fun left => ?_
    split
    · split
      · exact r.of_same rfl
      · split
        · refine r.bind h.2 fun right => r.of_same ?_
          split <;> rfl
        · exact r.of_same rfl
    · exact r.bind h.2 fun right => r.of_same (Value.binary_same _ _ op left right)
  | conditional test whenTrue whenFalse =>
    rw [children, List.forall_mem_cons, List.forall_mem_cons, List.forall_mem_singleton] at h
    simp only [mapChildren, evaluate]
    refine r.bind h.1 fun value => ?_
    split
    · exact h.2.1
    · exact h.2.2
    · exact r.of_same rfl

end Related

/-- The result of a node is decided by the results of its subexpressions. -/
theorem evaluate_mapChildren {f g : Expr → Expr} {expr : Expr}
    (h : ∀ child ∈ expr.children, SameResult (f child).evaluate (g child).evaluate) :
    SameResult (expr.mapChildren f).evaluate (expr.mapChildren g).evaluate :=
  evaluate_related .same h

/-- The assignment without the names that the parameters declare. -/
def hide (params : List Param) (values : String → Option Value) (name : String) : Option Value :=
  if Param.declares params name then none else values name

mutual

/-- The expression with values in place of the parameters that no lambda around them declares. -/
def assign (values : String → Option Value) : Expr → Expr
  | constant value => constant value
  | parameter param => ((values param.name).map constant).getD (parameter param)
  | root origin => root origin
  | input ref => input ref
  | member source name ty => member (source.assign values) name ty
  | invoke receiver method args ty =>
    invoke (receiver.assign values) method (assignList values args) ty
  | call method args ty => call method (assignList values args) ty
  | lambda params body => lambda params (body.assign (hide params values))
  | newRecord ty members => newRecord ty (assignMembers values members)
  | newObject ty members => newObject ty (assignMembers values members)
  | newArray element items => newArray element (assignList values items)
  | unary op operand ty => unary op (operand.assign values) ty
  | binary op left right => binary op (left.assign values) (right.assign values)
  | conditional test whenTrue whenFalse =>
    conditional (test.assign values) (whenTrue.assign values) (whenFalse.assign values)

/-- Values in place of the parameters of a list of expressions. -/
def assignList (values : String → Option Value) : List Expr → List Expr
  | [] => []
  | expr :: rest => expr.assign values :: assignList values rest

/-- Values in place of the parameters of named members. -/
def assignMembers (values : String → Option Value) : List (String × Expr) → List (String × Expr)
  | [] => []
  | (name, expr) :: rest => (name, expr.assign values) :: assignMembers values rest

end

section Assign

variable (values : String → Option Value)

theorem assignList_eq (exprs : List Expr) :
    assignList values exprs = exprs.map (assign values) := by
  induction exprs with
  | nil => rfl
  | cons expr rest ih => rw [assignList, ih, List.map_cons]

theorem assignMembers_eq (members : List (String × Expr)) :
    assignMembers values members = mapMembers (assign values) members := by
  induction members with
  | nil => rfl
  | cons member rest ih =>
    rw [assignMembers, ih]
    rfl

/-- Values are put into the subexpressions of a node that is no parameter and no lambda. -/
theorem assign_eq {expr : Expr} (hp : ∀ param, expr ≠ parameter param)
    (hl : ∀ params body, expr ≠ lambda params body) :
    expr.assign values = expr.mapChildren (assign values) := by
  cases expr with
  | parameter param => exact absurd rfl (hp param)
  | lambda params body => exact absurd rfl (hl params body)
  | _ => simp [assign, mapChildren, assignList_eq, assignMembers_eq]

theorem mapChildren_id (expr : Expr) : expr.mapChildren (fun child => child) = expr := by
  cases expr <;> simp [mapChildren, mapMembers]

end Assign

/-- A node of a closed expression is evaluable and its subexpressions are closed. -/
theorem isClosed_iff {evaluable : Expr → Bool} {expr : Expr} :
    expr.isClosed evaluable = true ↔
      evaluable expr = true ∧ ∀ child ∈ expr.children, child.isClosed evaluable = true := by
  simp only [isClosed, any, gather_eq _ expr]
  by_cases he : evaluable expr = true <;> simp [he, List.flatMap_eq_nil_iff]

/-- A closed expression has no parameter. -/
theorem assign_of_isClosed (values : String → Option Value) {expr : Expr}
    (h : expr.isClosed isEvaluable = true) : expr.assign values = expr := by
  induction expr using induction_children with | node expr ih =>
  obtain ⟨he, hc⟩ := isClosed_iff.1 h
  rw [assign_eq, mapChildren_congr fun child hm => ih child hm (hc child hm), mapChildren_id]
  · rintro param rfl
    cases he
  · rintro params body rfl
    cases he

/-- The result of a step that succeeds. -/
def orSelf (f : Expr → Except EvalError Expr) (expr : Expr) : Expr :=
  match f expr with
  | .ok result => result
  | .error _ => expr

section Steps

variable {f : Expr → Except EvalError Expr}

theorem orSelf_eq {expr result : Expr} (h : f expr = .ok result) : orSelf f expr = result := by
  rw [orSelf, h]

/-- A step that succeeds on the subexpressions gives the node with their results. -/
theorem mapChildrenM_ok {expr result : Expr} (h : expr.mapChildrenM f = .ok result) :
    result = expr.mapChildren (orSelf f) ∧
      ∀ child ∈ expr.children, f child = .ok (orSelf f child) := by
  obtain ⟨g, rfl, hall⟩ := mapChildrenM_gives (Outcome.except EvalError) h
  have hg : ∀ child ∈ expr.children, orSelf f child = g child :=
    fun child hm => orSelf_eq (hall child hm)
  refine ⟨mapChildren_congr fun child hm => (hg child hm).symm, fun child hm => ?_⟩
  rw [hg child hm]
  exact hall child hm

end Steps

/-- The constant of a closed expression is its value. -/
theorem toConstant_ok {expr result : Expr} (h : expr.toConstant = .ok result) :
    ∃ value, result = constant value ∧ expr.evaluate = .ok value := by
  unfold toConstant at h
  split at h
  · next value =>
    obtain rfl := Except.ok.inj h
    exact ⟨value, rfl, rfl⟩
  · obtain ⟨value, hv, rfl⟩ := Except.map_eq_ok.1 h
    exact ⟨value, rfl, hv⟩

/-- Folding an open node folds its subexpressions. -/
theorem fold_of_not_isClosed {expr : Expr} (h : expr.isClosed isEvaluable = false) :
    expr.fold = expr.mapChildrenM fold :=
  replaceM_of_none _ (by simp [h])

theorem fold_of_isClosed {expr : Expr} (h : expr.isClosed isEvaluable = true) :
    expr.fold = expr.toConstant :=
  replaceM_of_some _ (by simp [h])

/-- An expression and its folded form have the same result under every assignment. -/
theorem fold_same (values : String → Option Value) {expr folded : Expr}
    (h : expr.fold = .ok folded) :
    SameResult (expr.assign values).evaluate (folded.assign values).evaluate := by
  induction expr using induction_children generalizing folded with | node expr ih =>
  cases hc : expr.isClosed isEvaluable with
  | true =>
    rw [fold_of_isClosed hc] at h
    obtain ⟨value, rfl, hv⟩ := toConstant_ok h
    rw [assign_of_isClosed values hc, hv]
    rfl
  | false =>
    rw [fold_of_not_isClosed hc] at h
    obtain ⟨rfl, hall⟩ := mapChildrenM_ok h
    -- A lambda has no value, and a parameter stays where it is.
    cases expr with
    | lambda params body | parameter param => rfl
    | _ =>
      rw [assign_eq values (by simp) (by simp), assign_eq values (by simp [mapChildren])
        (by simp [mapChildren]), mapChildren_mapChildren]
      exact evaluate_mapChildren fun child hm => ih child hm (hall child hm)

/-- Folding keeps the value of an expression under every assignment of values to its parameters, and
where there is none, the reason for it. -/
theorem fold_evaluate {expr folded : Expr} (h : expr.fold = .ok folded)
    (values : String → Option Value) :
    (∀ value, (expr.assign values).evaluate = .ok value ↔
        (folded.assign values).evaluate = .ok value) ∧
      ∀ error error', (expr.assign values).evaluate = .error error →
        (folded.assign values).evaluate = .error error' →
        error.withoutExpr = error'.withoutExpr := by
  have hsame := fold_same values h
  refine ⟨hsame.ok_iff, fun error error' he he' => ?_⟩
  rw [he, he'] at hsame
  exact Except.error.inj hsame

/-- Whether the stock of a parameter is above a limit. -/
def stockAbove (limit : Expr) : Expr :=
  .binary .greaterThan (.member (.parameter ⟨"p", .entity "Product"⟩) "Stock" .int32) limit

theorem fold_evaluate_stockAbove :
    let sum := binary .add (constant (.int32 10)) (constant (.int32 5))
    let values := fun name => if name = "p" then some (Value.record [("Stock", .int32 20)]) else none
    (stockAbove sum).fold = .ok (stockAbove (constant (.int32 15))) ∧
      ((stockAbove sum).assign values).evaluate = .ok (.bool true) ∧
      (∀ value, ((stockAbove sum).assign values).evaluate = .ok value ↔
        ((stockAbove (constant (.int32 15))).assign values).evaluate = .ok value) ∧
      ∀ error error', ((stockAbove sum).assign values).evaluate = .error error →
        ((stockAbove (constant (.int32 15))).assign values).evaluate = .error error' →
        error.withoutExpr = error'.withoutExpr :=
  ⟨rfl, rfl, fold_evaluate rfl _⟩

end Expr

end ServiceQuery
