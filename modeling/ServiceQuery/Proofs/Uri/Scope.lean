import ServiceQuery.Proofs.Alpha
import ServiceQuery.Proofs.Monad

/-!
# Variables and versions

An expression is written with a list of variables in scope. A lambda brings its variable into scope
while its body is written, and takes it out again whatever comes of that. Writing also notes the
version of the protocol that is needed: a membership test needs the later one, and nothing else
does.
-/

namespace ServiceQuery

namespace Expr

/-- Whether the node asks if a constant array contains something. -/
def isMembershipTest : Expr → Bool
  | invoke (constant (.array _ _)) method _ _ => method == "Contains"
  | call method [constant (.array _ _), _] _ => method == "Contains"
  | _ => false

/-- Whether there is a membership test in the expression, at any depth. -/
def testsMembership (expr : Expr) : Bool := expr.nodes.any isMembershipTest

theorem testsMembership_iff {expr : Expr} :
    expr.testsMembership = true ↔
      expr.isMembershipTest = true ∨ ∃ child ∈ expr.children, child.testsMembership = true := by
  rw [testsMembership, nodes_eq]
  simp [testsMembership]

end Expr

namespace Uri

/-- Some of the expressions uses the parameter with the given name. -/
def UsedIn (exprs : List Expr) (name : String) : Prop :=
  ∃ expr ∈ exprs, expr.references name = true

/-- There is a membership test in some of the expressions. -/
def TestedIn (exprs : List Expr) : Prop := ∃ expr ∈ exprs, expr.testsMembership = true

section Lists

variable {exprs others : List Expr} {expr : Expr} {name : String}

@[simp]
theorem usedIn_nil : ¬UsedIn [] name := by simp [UsedIn]

theorem usedIn_cons :
    UsedIn (expr :: exprs) name ↔ expr.references name = true ∨ UsedIn exprs name := by
  simp [UsedIn]

@[simp]
theorem usedIn_append : UsedIn (exprs ++ others) name ↔ UsedIn exprs name ∨ UsedIn others name := by
  simp [UsedIn, or_and_right, exists_or]

@[simp]
theorem usedIn_singleton : UsedIn [expr] name ↔ expr.references name = true := by simp [UsedIn]

theorem usedIn_children (h : expr.isNameless = true) :
    UsedIn expr.children name ↔ UsedIn [expr] name := by
  rw [usedIn_singleton, Expr.references_of_isNameless h, UsedIn]

@[simp]
theorem testedIn_nil : ¬TestedIn [] := by simp [TestedIn]

@[simp]
theorem testedIn_append : TestedIn (exprs ++ others) ↔ TestedIn exprs ∨ TestedIn others := by
  simp [TestedIn, or_and_right, exists_or]

@[simp]
theorem testedIn_singleton : TestedIn [expr] ↔ expr.testsMembership = true := by simp [TestedIn]

theorem testedIn_children (h : expr.isMembershipTest = false) :
    TestedIn expr.children ↔ TestedIn [expr] := by
  rw [testedIn_singleton, Expr.testsMembership_iff, h, TestedIn]
  simp

end Lists

/-! ### Outcomes -/

/-- What the outcome of writing the expressions says about them and about the writer that they were
written with. -/
structure Accounts {α : Type} (exprs : List Expr) (writer : Writer)
    (outcome : Except CompileError α × Writer) : Prop where
  /-- The variables in scope are those from before, also after an error. -/
  scope : outcome.2.scope = writer.scope
  /-- What is written uses variables in scope. -/
  bound : ∀ a, outcome.1 = .ok a → ∀ name, UsedIn exprs name → name ∈ writer.scope
  /-- What is said not to be bound is used, and is not in scope. -/
  unbound : ∀ name, outcome.1 = .error (.parameterNotBound name) →
    UsedIn exprs name ∧ name ∉ writer.scope
  /-- The later version is needed if it was needed before or there is a membership test. -/
  version : ∀ a, outcome.1 = .ok a →
    (outcome.2.version = .v401 ↔ writer.version = .v401 ∨ TestedIn exprs)

namespace Accounts

variable {α β : Type} {exprs others : List Expr} {writer middle : Writer}

theorem congr {outcome : Except CompileError α × Writer} (h : Accounts exprs writer outcome)
    (hu : ∀ name, UsedIn exprs name ↔ UsedIn others name) (ht : TestedIn exprs ↔ TestedIn others) :
    Accounts others writer outcome where
  scope := h.scope
  bound a ha name hn := h.bound a ha name ((hu name).2 hn)
  unbound name hn := ⟨(hu name).1 (h.unbound name hn).1, (h.unbound name hn).2⟩
  version a ha := (h.version a ha).trans (or_congr Iff.rfl ht)

theorem of_ok {a : α} (hs : middle.scope = writer.scope)
    (hb : ∀ name, UsedIn exprs name → name ∈ writer.scope)
    (hv : middle.version = .v401 ↔ writer.version = .v401 ∨ TestedIn exprs) :
    Accounts exprs writer ((.ok a, middle) : Except CompileError α × Writer) where
  scope := hs
  bound _ _ := hb
  unbound name hn := by cases hn
  version _ _ := hv

theorem of_error {e : CompileError} (hs : middle.scope = writer.scope)
    (hu : ∀ name, e = .parameterNotBound name → UsedIn exprs name ∧ name ∉ writer.scope) :
    Accounts exprs writer ((.error e, middle) : Except CompileError α × Writer) where
  scope := hs
  bound a ha := by cases ha
  unbound name hn := hu name (Except.error.inj hn)
  version a ha := by cases ha

/-- An error is about expressions that use what the ones before it use. -/
theorem error {e : CompileError}
    (h : Accounts exprs writer ((.error e, middle) : Except CompileError α × Writer))
    (hu : ∀ name, UsedIn exprs name → UsedIn others name) :
    Accounts others writer ((.error e, middle) : Except CompileError β × Writer) := by
  refine of_error h.scope fun name he => ?_
  obtain ⟨hused, hout⟩ := h.unbound name (congrArg Except.error he)
  exact ⟨hu name hused, hout⟩

theorem trans {a : α} {outcome : Except CompileError β × Writer}
    (h : Accounts exprs writer ((.ok a, middle) : Except CompileError α × Writer))
    (hnext : Accounts others middle outcome) : Accounts (exprs ++ others) writer outcome where
  scope := hnext.scope.trans h.scope
  bound b hb name hn := by
    obtain hn | hn := usedIn_append.1 hn
    · exact h.bound a rfl name hn
    · exact h.scope ▸ hnext.bound b hb name hn
  unbound name hn := by
    have hname := hnext.unbound name hn
    have hscope : middle.scope = writer.scope := h.scope
    exact ⟨usedIn_append.2 (.inr hname.1), hscope ▸ hname.2⟩
  version b hb := by
    have hfirst := h.version a rfl
    rw [hnext.version b hb, hfirst, testedIn_append, or_assoc]

end Accounts

/-- The step writes the expressions: every outcome of it is accounted for by them. -/
def Emits {α : Type} (exprs : List Expr) (step : WriteM α) : Prop :=
  ∀ writer, Accounts exprs writer (step.run.run writer)

namespace Emits

variable {α β : Type} {exprs others : List Expr} {x : WriteM α}

theorem congr (h : Emits exprs x) (hu : ∀ name, UsedIn exprs name ↔ UsedIn others name)
    (ht : TestedIn exprs ↔ TestedIn others) : Emits others x :=
  fun writer => (h writer).congr hu ht

theorem pure (a : α) : Emits [] (pure a) := by
  intro writer
  exact .of_ok rfl (fun name hn => (usedIn_nil hn).elim) (or_iff_left testedIn_nil).symm

/-- An error that is not about a variable says nothing about the expressions. -/
theorem throw {e : CompileError} (he : ∀ name, e ≠ .parameterNotBound name) :
    Emits exprs (throw e : WriteM α) := by
  intro writer
  exact .of_error rfl fun name hn => absurd hn (he name)

theorem bind {f : α → WriteM β} (h : Emits exprs x) (hf : ∀ a, Emits others (f a)) :
    Emits (exprs ++ others) (x >>= f) := by
  intro writer
  have hx := h writer
  rw [run_bind]
  rcases hs : x.run.run writer with ⟨e | a, middle⟩
  · -- nothing is written after an error
    rw [hs] at hx
    exact hx.error fun name hn => usedIn_append.2 (.inl hn)
  · rw [hs] at hx
    exact hx.trans (hf a middle)

theorem lift {x : Except CompileError α} (hx : ∀ name, x ≠ .error (.parameterNotBound name)) :
    Emits [] (liftM x : WriteM α) := by
  cases x with
  | ok a => exact pure a
  | error e => exact throw fun name he => hx name (congrArg Except.error he)

theorem bind_pure {f : α → β} (h : Emits exprs x) : Emits exprs (x >>= fun a => Pure.pure (f a)) :=
  List.append_nil exprs ▸ h.bind fun a => pure (f a)

theorem map (h : Emits exprs x) (f : α → β) : Emits exprs (f <$> x) := by
  rw [← bind_pure_comp]
  exact h.bind_pure

theorem mapM {ι : Type} {written : ι → List Expr} {f : ι → WriteM α} {items : List ι}
    (h : ∀ item ∈ items, Emits (written item) (f item)) :
    Emits (items.flatMap written) (items.mapM f) := by
  induction items with
  | nil => exact pure []
  | cons item items ih =>
    rw [List.forall_mem_cons] at h
    rw [List.mapM_cons, List.flatMap_cons]
    exact h.1.bind fun first => (ih h.2).map (first :: ·)

/-- While the body of a lambda is written, its variable is in scope. -/
theorem withVariable {param : Param} {body : Expr} (h : Emits [body] x) :
    Emits [.lambda [param] body] (withVariable param.name x) := by
  intro writer
  have hbody := h { writer with scope := param.name :: writer.scope }
  rw [run_withVariable]
  -- the variable hides one of the same name outside the lambda
  have hused (name : String) : UsedIn [.lambda [param] body] name ↔
      name ≠ param.name ∧ UsedIn [body] name := by
    rw [usedIn_singleton, usedIn_singleton, Expr.references_lambda]
    simp
  refine ⟨congrArg List.tail hbody.scope, fun a ha name hn => ?_, fun name hn => ?_, fun a ha => ?_⟩
  · have hmem := hbody.bound a ha name ((hused name).1 hn).2
    exact (List.mem_cons.1 hmem).resolve_left ((hused name).1 hn).1
  · obtain ⟨hu, hout⟩ := hbody.unbound name hn
    rw [List.mem_cons, not_or] at hout
    exact ⟨(hused name).2 ⟨hout.1, hu⟩, hout.2⟩
  · have htested : TestedIn (Expr.lambda [param] body).children ↔ _ := testedIn_children rfl
    exact (hbody.version a ha).trans (or_congr Iff.rfl htested)

/-- Once the expressions are written, it is noted that there is a membership test. -/
theorem require {f : α → β} (h : Emits exprs x)
    (hu : ∀ name, UsedIn exprs name ↔ UsedIn others name) (ht : TestedIn others) :
    Emits others (x >>= fun a => Uri.require .v401 >>= fun _ => Pure.pure (f a)) := by
  intro writer
  have hx := h writer
  rw [run_bind]
  rcases hs : x.run.run writer with ⟨e | a, middle⟩
  · rw [hs] at hx
    exact hx.error fun name hn => (hu name).1 hn
  · rw [hs] at hx
    have hlatest : middle.version.latest .v401 = .v401 := by cases middle.version <;> rfl
    refine .of_ok hx.scope (fun name hn => ?_) (iff_of_true hlatest (.inr ht))
    exact hx.bound a rfl name ((hu name).2 hn)

/-- A node that declares no variable and tests nothing uses what its subexpressions use. -/
theorem node {expr : Expr} (h : Emits expr.children x) (hn : expr.isNameless = true)
    (ht : expr.isMembershipTest = false) : Emits [expr] x :=
  h.congr (fun _ => usedIn_children hn) (testedIn_children ht)

end Emits

/-! ### Expressions -/

theorem literal_ne_parameterNotBound (value : Value) (name : String) :
    literal value ≠ .error (.parameterNotBound name) := by
  cases value with
  | bool b => cases b <;> simp [literal]
  | _ => simp [literal]

theorem unsupported_ne_parameterNotBound (expr : Expr) (name : String) :
    CompileError.unsupported expr ≠ .parameterNotBound name := by
  simp [CompileError.unsupported]

theorem emits_requirePath (expr : Expr) : Emits [] (requirePath expr) := by
  rw [requirePath]
  split
  · exact .pure ()
  · exact .throw (unsupported_ne_parameterNotBound _)

theorem emits_functionCall (method : String) (function : Option String) {exprs : List Expr}
    {args : WriteM (List String)} (h : Emits exprs args) :
    Emits exprs (functionCall method function args) := by
  cases function with
  | none => exact .throw (by simp)
  | some name => exact h.bind_pure

theorem emits_writeList {args : List Expr} (h : ∀ arg ∈ args, Emits [arg] (writePrec arg)) :
    Emits args (writeList args) := by
  induction args with
  | nil => exact .pure []
  | cons arg args ih =>
    rw [List.forall_mem_cons] at h
    exact h.1.bind fun text => (ih h.2).bind_pure

theorem emits_membership (items : List Value) {item test : Expr}
    {step : WriteM (String × Precedence)} (h : Emits [item] step)
    (hu : ∀ name, UsedIn [item] name ↔ UsedIn [test] name) (ht : TestedIn [test]) :
    Emits [test] (membership items step) := by
  -- the values of the array come first, and there is nothing to use in them
  have hvalues :
      Emits (items.flatMap fun _ => []) (items.mapM fun value => liftM (literal value)) :=
    .mapM fun value _ => .lift (literal_ne_parameterNotBound value)
  rw [List.flatMap_eq_nil_iff.2 fun _ _ => rfl] at hvalues
  exact hvalues.bind fun values => h.require hu ht

theorem emits_parameter (param : Param) :
    Emits [.parameter param] (writePrec (.parameter param)) := by
  intro writer
  have hrun : (writePrec (.parameter param)).run.run writer =
    (if writer.scope.contains param.name then pure (param.name, .primary)
      else throw (.parameterNotBound param.name) : WriteM (String × Precedence)).run.run writer :=
    rfl
  have hused (name : String) : UsedIn [.parameter param] name ↔ param.name = name := by
    rw [usedIn_singleton, Expr.references_parameter]
  have htested : ¬TestedIn [.parameter param] :=
    mt (testedIn_children rfl).2 testedIn_nil
  rw [hrun]
  split
  · next hin =>
    rw [List.contains_iff_mem] at hin
    exact .of_ok rfl (fun name hn => (hused name).1 hn ▸ hin) (or_iff_left htested).symm
  · next hout =>
    rw [List.contains_iff_mem] at hout
    refine .of_error rfl fun name hn => ?_
    cases hn
    exact ⟨(hused _).2 rfl, hout⟩

theorem emits_member {source : Expr} (name : String) (ty : Ty)
    (h : Emits [source] (writePrec source)) :
    Emits [.member source name ty] (writePrec (.member source name ty)) := by
  refine .node ?_ rfl rfl
  rw [writePrec.eq_def]
  dsimp only
  split
  · exact h.bind_pure
  · split
    · exact (emits_requirePath source).bind fun _ => h.bind_pure
    · split
      · -- the element itself is not written before its member
        exact .node (.pure _) rfl rfl
      · exact (emits_requirePath source).bind fun _ => h.bind_pure

theorem emits_unary (op : UnaryOp) {operand : Expr} (ty : Ty)
    (h : Emits [operand] (writePrec operand)) :
    Emits [.unary op operand ty] (writePrec (.unary op operand ty)) := by
  refine .node ?_ rfl rfl
  cases op with
  | convert => exact h
  | not | negate => exact h.bind_pure

theorem emits_binary (op : BinaryOp) {left right : Expr} (hl : Emits [left] (writePrec left))
    (hr : Emits [right] (writePrec right)) :
    Emits [.binary op left right] (writePrec (.binary op left right)) := by
  refine .node ?_ rfl rfl
  refine hl.bind fun first => List.append_nil [right] ▸ hr.bind fun second => ?_
  dsimp only
  split
  · exact .pure _
  · exact .pure _

theorem membershipItems?_ok {method : String} {array : Expr} {items : List Value}
    (h : membershipItems? method array = some items) :
    method = "Contains" ∧ ∃ element, array = .constant (.array element items) := by
  unfold membershipItems? at h
  split at h
  · next hm =>
    split at h
    · next element found =>
      cases h
      exact ⟨beq_iff_eq.1 hm, element, rfl⟩
    · cases h
  · cases h

theorem isSome_membershipItems? (method : String) (element : Ty) (items : List Value) :
    (membershipItems? method (.constant (.array element items))).isSome =
      (method == "Contains") := by
  rw [membershipItems?]
  cases method == "Contains" <;> rfl

theorem isMembershipTest_invoke (receiver : Expr) (method : String) (args : List Expr) (ty : Ty) :
    (Expr.invoke receiver method args ty).isMembershipTest =
      (membershipItems? method receiver).isSome := by
  unfold Expr.isMembershipTest
  split
  · next heq =>
    cases heq
    rw [isSome_membershipItems?]
  · next heq => cases heq
  · next hreceiver _ =>
    rw [eq_comm, Option.isSome_eq_false_iff, Option.isNone_iff_eq_none,
      Option.eq_none_iff_forall_ne_some]
    intro items hitems
    obtain ⟨rfl, element, rfl⟩ := membershipItems?_ok hitems
    exact hreceiver _ _ _ _ _ rfl

theorem isMembershipTest_call {method : String} {args : List Expr} {ty : Ty}
    (h : (Expr.call method args ty).isMembershipTest = true) :
    method = "Contains" ∧ ∃ array item, args = [array, item] ∧
      (membershipItems? method array).isSome = true := by
  unfold Expr.isMembershipTest at h
  split at h
  · next heq => cases heq
  · next heq =>
    cases heq
    exact ⟨beq_iff_eq.1 h, _, _, rfl, (isSome_membershipItems? ..).trans h⟩
  · cases h

/-- A membership test uses what its item uses, since there is nothing to use in its array. -/
theorem emits_test {test item : Expr} {element : Ty} {items : List Value}
    (ht : test.isMembershipTest = true) (hn : test.isNameless = true)
    (hc : test.children = [.constant (.array element items), item])
    (h : Emits [item] (writePrec item)) : Emits [test] (membership items (writePrec item)) := by
  refine emits_membership items h (fun name => ?_) ?_
  · have harray : ¬(Expr.constant (.array element items)).references name = true :=
      mt usedIn_singleton.2 (mt (usedIn_children rfl).2 usedIn_nil)
    have hused : UsedIn test.children name ↔ UsedIn [item] name := by
      rw [hc]
      exact usedIn_cons.trans (or_iff_right harray)
    exact hused.symm.trans (usedIn_children hn)
  · rw [testedIn_singleton, Expr.testsMembership_iff]
    exact .inl ht

theorem emits_invoke {receiver : Expr} (method : String) {args : List Expr} (ty : Ty)
    (hr : Emits [receiver] (writePrec receiver)) (ha : ∀ arg ∈ args, Emits [arg] (writePrec arg)) :
    Emits [.invoke receiver method args ty] (writePrec (.invoke receiver method args ty)) := by
  have htest := isMembershipTest_invoke receiver method args ty
  rw [writePrec.eq_def]
  dsimp only
  cases hitems : membershipItems? method receiver with
  | none =>
    rw [hitems] at htest
    refine .node ?_ rfl htest
    exact emits_functionCall method _ (hr.bind fun text => (emits_writeList ha).bind_pure)
  | some items =>
    rw [hitems] at htest
    obtain ⟨rfl, element, rfl⟩ := membershipItems?_ok hitems
    -- a test of any other number of items is no function
    rcases args with _ | ⟨item, _ | ⟨second, rest⟩⟩
    · exact .throw (by simp)
    · exact emits_test htest rfl rfl (ha item List.mem_cons_self)
    · exact .throw (by simp)

theorem emits_call (method : String) {args : List Expr} (ty : Ty)
    (ha : ∀ arg ∈ args, Emits [arg] (writePrec arg))
    (hlambda : ∀ params body, .lambda params body ∈ args → Emits [body] (writePrec body)) :
    Emits [.call method args ty] (writePrec (.call method args ty)) := by
  have hfunction : Emits args
      (functionCall method (function? method args.length) (writeList args)) :=
    emits_functionCall method _ (emits_writeList ha)
  rw [writePrec.eq_def]
  dsimp only
  split
  · next quantifier source rest hq =>
    -- quantifiers have names of their own
    have htest : (Expr.call method (source :: rest) ty).isMembershipTest = false := by
      rw [Bool.eq_false_iff]
      intro ht
      rw [(isMembershipTest_call ht).1] at hq
      cases hq
    refine .node ?_ rfl htest
    refine (emits_requirePath source).bind fun _ => (ha _ List.mem_cons_self).bind fun path => ?_
    split
    · split
      · exact .pure _
      · exact .throw (unsupported_ne_parameterNotBound _)
    · next param body => exact (hlambda [param] body (by simp)).withVariable.bind_pure
    · exact .throw (unsupported_ne_parameterNotBound _)
  · next array item hq =>
    split
    · next items hitems =>
      obtain ⟨rfl, element, rfl⟩ := membershipItems?_ok hitems
      exact emits_test rfl rfl rfl (ha item (by simp))
    · next hitems =>
      refine .node hfunction rfl ?_
      rw [Bool.eq_false_iff]
      intro ht
      obtain ⟨-, array, item, hargs, hsome⟩ := isMembershipTest_call ht
      cases hargs
      rw [hitems] at hsome
      cases hsome
  · next hpair hq =>
    refine .node hfunction rfl ?_
    rw [Bool.eq_false_iff]
    intro ht
    obtain ⟨-, array, item, hargs, -⟩ := isMembershipTest_call ht
    exact hpair array item hargs

/-- An expression is written whole. -/
theorem emits_writePrec (expr : Expr) : Emits [expr] (writePrec expr) := by
  -- the body of a lambda is no subexpression of the call it is written in, but a node below it
  suffices hnodes : ∀ node ∈ expr.nodes, Emits [node] (writePrec node) from
    hnodes expr expr.self_mem_nodes
  induction expr using Expr.induction_children with | node expr ih =>
  rw [Expr.forall_nodes]
  refine ⟨?_, ih⟩
  have hchild {child : Expr} (hc : child ∈ expr.children) : Emits [child] (writePrec child) :=
    ih child hc child child.self_mem_nodes
  cases expr with
  | constant value =>
    exact .node (Emits.lift (literal_ne_parameterNotBound value)).bind_pure rfl rfl
  | input ref => exact .node (.pure _) rfl rfl
  | parameter param => exact emits_parameter param
  | member source name ty => exact emits_member name ty (hchild List.mem_cons_self)
  | unary op operand ty => exact emits_unary op ty (hchild List.mem_cons_self)
  | binary op left right =>
    exact emits_binary op (hchild List.mem_cons_self) (hchild (by simp [Expr.children]))
  | invoke receiver method args ty =>
    exact emits_invoke method ty (hchild List.mem_cons_self)
      fun arg ha => hchild (List.mem_cons_of_mem _ ha)
  | call method args ty =>
    refine emits_call method ty (fun arg ha => hchild ha) fun params body hm => ?_
    have hbody : body ∈ (Expr.lambda params body).children := List.mem_cons_self
    exact ih _ hm body (Expr.nodes_subset hbody body.self_mem_nodes)
  | _ => exact .throw (unsupported_ne_parameterNotBound _)

theorem emits_write (expr : Expr) : Emits [expr] (write expr) := (emits_writePrec expr).map Prod.fst

/-- The variables that are used in what is written are in scope. One that is said not to be bound is
used and is not in scope. In any case the variables in scope are those from before. -/
theorem write_scope (expr : Expr) (writer : Writer) :
    ((write expr).run.run writer).2.scope = writer.scope ∧
      (∀ text, ((write expr).run.run writer).1 = .ok text →
        ∀ name, expr.references name = true → name ∈ writer.scope) ∧
      ∀ name, ((write expr).run.run writer).1 = .error (.parameterNotBound name) →
        expr.references name = true ∧ name ∉ writer.scope := by
  have h := emits_write expr writer
  refine ⟨h.scope, fun text ht name hn => ?_, fun name hn => ?_⟩
  · exact h.bound text ht name (usedIn_singleton.2 hn)
  · obtain ⟨hused, hout⟩ := h.unbound name hn
    exact ⟨usedIn_singleton.1 hused, hout⟩

/-- A variable of the given name. -/
def variableOf (name : String) : Expr := .parameter ⟨name, .entity "Line"⟩

/-- Whether some element of a member meets the condition on a variable `l`. -/
def someOf (source : Expr) (member : String) (condition : Expr) : Expr :=
  .call "Any" [.member source member (.collection (.entity "Line")),
    .lambda [⟨"l", .entity "Line"⟩] condition] .bool

/-- A condition with a variable `l` inside the scope of another. -/
def shadowed : Expr :=
  someOf (variableOf "x") "Lines" (someOf (variableOf "l") "Parts" (variableOf "l"))

/-- After a condition with variables `l`, none of them is in scope. -/
theorem write_scope_shadowed :
    (write shadowed).run.run ⟨["x"], .v40⟩ =
        (.ok "x/Lines/any(l:l/Parts/any(l:l))", ⟨["x"], .v40⟩) ∧
      (∀ name, shadowed.references name = true → name ∈ ["x"]) ∧
      ((write (.binary .andAlso shadowed (variableOf "l"))).run.run ⟨["x"], .v40⟩).1 =
        .error (.parameterNotBound "l") ∧
      (Expr.binary .andAlso shadowed (variableOf "l")).references "l" = true ∧ "l" ∉ ["x"] := by
  have hok : (write shadowed).run.run ⟨["x"], .v40⟩ =
      (.ok "x/Lines/any(l:l/Parts/any(l:l))", ⟨["x"], .v40⟩) := rfl
  have herror : ((write (.binary .andAlso shadowed (variableOf "l"))).run.run ⟨["x"], .v40⟩).1 =
      .error (.parameterNotBound "l") := rfl
  exact ⟨hok, (write_scope shadowed ⟨["x"], .v40⟩).2.1 _ (congrArg Prod.fst hok), herror,
    (write_scope _ ⟨["x"], .v40⟩).2.2 "l" herror⟩

end Uri

end ServiceQuery
