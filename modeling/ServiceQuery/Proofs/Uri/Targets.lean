import ServiceQuery.Proofs.Monad
import ServiceQuery.Proofs.Target
import ServiceQuery.Uri.Request

/-!
# What is written does not depend on resource numbers

References to elements are written without the numbers of their resources, so that expressions which
differ in numbers only have the same text. An error may name the expression that it is about, and is
not compared.
-/

namespace ServiceQuery

namespace Expr

theorem ty_withoutTargets (expr : Expr) : expr.withoutTargets.ty = expr.ty := by
  induction expr using induction_children with | node expr ih =>
  cases expr with
  | input ref => rw [withoutTargets_input, ty, ty]
  | binary op left right =>
    rw [withoutTargets_eq (by simp), mapChildren, ty, ty, ih left List.mem_cons_self]
  | conditional test whenTrue whenFalse =>
    rw [withoutTargets_eq (by simp), mapChildren, ty, ty, ih whenTrue (by simp [children])]
  | _ =>
    rw [withoutTargets_eq (by simp)]
    rfl

end Expr

namespace Uri

theorem isString_withoutTargets (expr : Expr) : isString expr.withoutTargets = isString expr := by
  rw [isString, isString, expr.ty_withoutTargets]

theorem isPath_withoutTargets (expr : Expr) :
    isPath expr.withoutTargets.withoutConversions = isPath expr.withoutConversions := by
  induction expr using Expr.induction_children with | node expr ih =>
  cases expr with
  | input ref =>
    rw [Expr.withoutTargets_input]
    rfl
  | unary op operand ty =>
    rw [Expr.withoutTargets_eq (by simp), Expr.mapChildren]
    cases op with
    | convert =>
      rw [Expr.withoutConversions, Expr.withoutConversions]
      exact ih operand List.mem_cons_self
    | _ => rfl
  | _ =>
    rw [Expr.withoutTargets_eq (by simp)]
    rfl

theorem membershipItems?_withoutTargets (method : String) (array : Expr) :
    membershipItems? method array.withoutTargets = membershipItems? method array := by
  cases array with
  | input ref =>
    rw [Expr.withoutTargets_input]
    rfl
  | _ =>
    rw [Expr.withoutTargets_eq (by simp)]
    rfl

/-- What a step gives, if it succeeds, and the writer that it leaves. -/
def result? {α : Type} (step : WriteM α) (writer : Writer) : Option (α × Writer) :=
  match step.run.run writer with
  | (.ok a, writer') => some (a, writer')
  | (.error _, _) => none

/-- Two steps give the same results and leave the same writers. -/
def SameText {α : Type} (x y : WriteM α) : Prop := ∀ writer, result? x writer = result? y writer

section Result

variable {α β : Type}

theorem result?_bind (x : WriteM α) (f : α → WriteM β) (writer : Writer) :
    result? (x >>= f) writer = (result? x writer).bind fun r => result? (f r.1) r.2 := by
  rw [result?, run_bind, result?]
  rcases x.run.run writer with ⟨e | a, writer'⟩
  · rfl
  · rfl

theorem result?_withVariable (name : String) (body : WriteM α) (writer : Writer) :
    result? (withVariable name body) writer =
      (result? body { writer with scope := name :: writer.scope }).map fun r =>
        (r.1, { r.2 with scope := r.2.scope.tail }) := by
  rw [result?, run_withVariable, result?]
  rcases body.run.run { writer with scope := name :: writer.scope } with ⟨e | a, writer'⟩
  · rfl
  · rfl

end Result

namespace SameText

variable {α β : Type} {x y z : WriteM α}

theorem refl (x : WriteM α) : SameText x x := fun _ => rfl

theorem symm (h : SameText x y) : SameText y x := fun writer => (h writer).symm

theorem trans (h : SameText x y) (h' : SameText y z) : SameText x z :=
  fun writer => (h writer).trans (h' writer)

theorem throw (e e' : CompileError) : SameText (throw e : WriteM α) (throw e') := fun _ => rfl

theorem bind (h : SameText x y) {f g : α → WriteM β} (hf : ∀ a, SameText (f a) (g a)) :
    SameText (x >>= f) (y >>= g) := by
  intro writer
  rw [result?_bind, result?_bind, h writer]
  congr 1
  funext r
  exact hf r.1 r.2

theorem map (h : SameText x y) (f : α → β) : SameText (f <$> x) (f <$> y) := by
  rw [← bind_pure_comp, ← bind_pure_comp]
  exact h.bind fun a => .refl _

theorem withVariable (h : SameText x y) (name : String) :
    SameText (withVariable name x) (withVariable name y) := by
  intro writer
  rw [result?_withVariable, result?_withVariable, h]

theorem functionCall {x y : WriteM (List String)} (h : SameText x y) (method : String)
    (function : Option String) :
    SameText (functionCall method function x) (functionCall method function y) := by
  cases function with
  | none => exact .refl _
  | some name => exact h.bind fun texts => .refl _

theorem membership {x y : WriteM (String × Precedence)} (h : SameText x y) (items : List Value) :
    SameText (membership items x) (membership items y) :=
  (refl _).bind fun _ => h.bind fun _ => .refl _

end SameText

theorem sameText_requirePath (expr : Expr) :
    SameText (requirePath expr.withoutTargets) (requirePath expr) := by
  rw [requirePath, requirePath, isPath_withoutTargets]
  split
  · exact .refl _
  · exact .throw _ _

theorem sameText_writeList {args : List Expr}
    (h : ∀ arg ∈ args, SameText (writePrec arg.withoutTargets) (writePrec arg)) :
    SameText (writeList (args.map Expr.withoutTargets)) (writeList args) := by
  induction args with
  | nil => exact .refl _
  | cons arg args ih =>
    rw [List.forall_mem_cons] at h
    rw [List.map_cons, writeList, writeList]
    exact h.1.bind fun text => (ih h.2).bind fun rest => .refl _

/-- The writer looks at a node, at its subexpressions and at the body of a lambda among them. -/
def Writes (expr : Expr) : Prop :=
  SameText (writePrec expr.withoutTargets) (writePrec expr) ∧
    ∀ params body, expr = .lambda params body →
      SameText (writePrec body.withoutTargets) (writePrec body)

theorem sameText_member {source : Expr} (name : String) (ty : Ty)
    (h : SameText (writePrec source.withoutTargets) (writePrec source)) :
    SameText (writePrec (.member source.withoutTargets name ty))
      (writePrec (.member source name ty)) := by
  have hpath (extend : String → String) : SameText
      (do
        requirePath source.withoutTargets
        let written ← writePrec source.withoutTargets
        pure (extend written.1, Precedence.primary))
      (do
        requirePath source
        let written ← writePrec source
        pure (extend written.1, Precedence.primary)) :=
    (sameText_requirePath source).bind fun _ => h.bind fun text => .refl _
  rw [writePrec.eq_def, writePrec.eq_def (.member source name ty)]
  simp only [isString_withoutTargets, Expr.ty_withoutTargets]
  split
  · exact h.bind fun text => .refl _
  · split
    · exact hpath (· ++ "/$count")
    · -- the path of a member of the element itself has no prefix
      cases source with
      | input ref =>
        rw [Expr.withoutTargets_input]
        exact .refl _
      | _ => exact hpath (· ++ "/" ++ name)

theorem sameText_unary (op : UnaryOp) {operand : Expr} (ty : Ty)
    (h : SameText (writePrec operand.withoutTargets) (writePrec operand)) :
    SameText (writePrec (.unary op operand.withoutTargets ty)) (writePrec (.unary op operand ty)) := by
  cases op with
  | convert => exact h
  | not | negate => exact h.bind fun text => .refl _

theorem sameText_binary (op : BinaryOp) {left right : Expr}
    (hl : SameText (writePrec left.withoutTargets) (writePrec left))
    (hr : SameText (writePrec right.withoutTargets) (writePrec right)) :
    SameText (writePrec (.binary op left.withoutTargets right.withoutTargets))
      (writePrec (.binary op left right)) := by
  rw [writePrec.eq_def, writePrec.eq_def (.binary op left right)]
  simp only [isString_withoutTargets]
  exact hl.bind fun first => hr.bind fun second => .refl _

theorem sameText_invoke {receiver : Expr} (method : String) {args : List Expr} (ty : Ty)
    (hr : SameText (writePrec receiver.withoutTargets) (writePrec receiver))
    (ha : ∀ arg ∈ args, SameText (writePrec arg.withoutTargets) (writePrec arg)) :
    SameText (writePrec (.invoke receiver.withoutTargets method (args.map Expr.withoutTargets) ty))
      (writePrec (.invoke receiver method args ty)) := by
  have hfunction := SameText.functionCall
    (hr.bind fun receiver => (sameText_writeList ha).bind fun args => .refl (pure (receiver.1 :: args)))
    method (receiverFunction? method args.length)
  rw [writePrec.eq_def, writePrec.eq_def (.invoke receiver method args ty)]
  simp only [membershipItems?_withoutTargets, List.length_map]
  cases membershipItems? method receiver with
  | none => exact hfunction
  | some items =>
    rcases args with _ | ⟨item, _ | ⟨second, rest⟩⟩
    · exact hfunction
    · exact (ha item List.mem_cons_self).membership items
    · exact hfunction

theorem sameText_call (method : String) {args : List Expr} (ty : Ty) (h : ∀ arg ∈ args, Writes arg) :
    SameText (writePrec (.call method (args.map Expr.withoutTargets) ty))
      (writePrec (.call method args ty)) := by
  have hfunction := (sameText_writeList fun arg ha => (h arg ha).1).functionCall method
    (function? method args.length)
  rw [writePrec.eq_def, writePrec.eq_def (.call method args ty)]
  simp only [List.length_map]
  cases hq : quantifier? method with
  | none =>
    rcases args with _ | ⟨array, _ | ⟨item, _ | ⟨third, rest⟩⟩⟩
    · exact hfunction
    · exact hfunction
    · simp only [List.map_cons, List.map_nil, membershipItems?_withoutTargets]
      cases membershipItems? method array with
      | none => exact hfunction
      | some items => exact (h item (by simp)).1.membership items
    · exact hfunction
  | some quantifier =>
    rcases args with _ | ⟨source, rest⟩
    · exact hfunction
    · refine (sameText_requirePath source).bind fun _ => ?_
      refine (h source List.mem_cons_self).1.bind fun path => ?_
      rcases rest with _ | ⟨predicate, rest⟩
      · by_cases hany : (quantifier == "any") = true
        · simp only [List.map_nil, hany, if_true]
          exact .refl _
        · -- the error names the call
          simp only [List.map_nil, hany, Bool.false_eq_true, if_false]
          exact .throw _ _
      · cases predicate with
        | lambda params body =>
          have hbody := (h (.lambda params body) (by simp)).2 params body rfl
          rcases params with _ | ⟨param, _ | ⟨second, params⟩⟩
          · exact .throw _ _
          · rcases rest with _ | ⟨third, rest⟩
            · exact (hbody.withVariable param.name).bind fun text => .refl _
            · exact .throw _ _
          · exact .throw _ _
        | _ => exact .throw _ _

theorem writes (expr : Expr) : Writes expr := by
  induction expr using Expr.induction_children with | node expr ih =>
  refine ⟨?_, ?_⟩
  · cases expr with
    | input ref =>
      rw [Expr.withoutTargets_input]
      exact .refl _
    | member source name ty =>
      rw [Expr.withoutTargets_eq (by simp)]
      exact sameText_member name ty (ih source List.mem_cons_self).1
    | unary op operand ty =>
      rw [Expr.withoutTargets_eq (by simp)]
      exact sameText_unary op ty (ih operand List.mem_cons_self).1
    | binary op left right =>
      rw [Expr.withoutTargets_eq (by simp)]
      exact sameText_binary op (ih left List.mem_cons_self).1 (ih right (by simp [Expr.children])).1
    | invoke receiver method args ty =>
      rw [Expr.withoutTargets_eq (by simp)]
      exact sameText_invoke method ty (ih receiver List.mem_cons_self).1
        fun arg ha => (ih arg (List.mem_cons_of_mem _ ha)).1
    | call method args ty =>
      rw [Expr.withoutTargets_eq (by simp)]
      exact sameText_call method ty ih
    | constant value | parameter param =>
      rw [Expr.withoutTargets_eq (by simp)]
      exact .refl _
    | _ =>
      rw [Expr.withoutTargets_eq (by simp)]
      exact .throw _ _
  · rintro params body rfl
    exact (ih body List.mem_cons_self).1

/-- Expressions that are equal up to numbers have the same text. -/
theorem sameText_writePrec {a b : Expr} (h : a.withoutTargets = b.withoutTargets) :
    SameText (writePrec a) (writePrec b) :=
  (writes a).1.symm.trans (h ▸ (writes b).1)

/-- Lists that have the same elements by a key have the same texts if elements with one key have. -/
theorem sameText_mapM {α β γ : Type} {f : α → WriteM β} (key : α → γ)
    (hf : ∀ a b, key a = key b → SameText (f a) (f b)) {as bs : List α}
    (h : as.map key = bs.map key) : SameText (as.mapM f) (bs.mapM f) := by
  induction as generalizing bs with
  | nil =>
    obtain rfl : bs = [] := List.map_eq_nil_iff.1 h.symm
    exact .refl _
  | cons a as ih =>
    obtain ⟨b, bs, rfl, hb, hbs⟩ := List.map_eq_cons_iff.1 h.symm
    rw [List.mapM_cons, List.mapM_cons]
    exact (hf a b hb.symm).bind fun _ => (ih hbs.symm).bind fun _ => .refl _

theorem sameText_conjunction {first second : List Expr}
    (h : first.map Expr.withoutTargets = second.map Expr.withoutTargets) :
    SameText (conjunction first) (conjunction second) :=
  (sameText_mapM Expr.withoutTargets (fun _ _ hab => (sameText_writePrec hab).map _) h).bind
    fun _ => .refl _

/-! ### Conjunctions -/

theorem join_concat (separator first second : String) (pieces : List String) :
    Text.join separator (pieces ++ [first ++ separator ++ second]) =
      Text.join separator (pieces ++ [first, second]) := by
  induction pieces with
  | nil => simp [Text.join]
  | cons piece rest ih =>
    cases rest with
    | nil => simp [Text.join, String.append_assoc]
    | cons next rest => simpa [Text.join] using ih

/-- On the right of a conjunction an operand needs parentheses where it does on the left. -/
theorem operandText_conjunction (operand : String × Precedence) :
    operandText .conjunction true operand = operandText .conjunction false operand := by
  simp [operandText]

theorem operandText_of_conjunction (text : String) :
    operandText .conjunction false (text, .conjunction) = text := by
  simp [operandText]

theorem writePrec_andAlso (left right : Expr) :
    writePrec (.binary .andAlso left right) = (do
      let first ← writePrec left
      let second ← writePrec right
      pure (operandText .conjunction false first ++ " and " ++
        operandText .conjunction true second, Precedence.conjunction)) := by
  have hadd : (BinaryOp.andAlso == .add) = false := rfl
  have hword (text : String) : text ++ " " ++ "and" ++ " " = text ++ " and " := by
    rw [String.append_assoc, String.append_assoc]
    rfl
  rw [writePrec.eq_def]
  simp only [hadd, Bool.false_and, Bool.false_eq_true, if_false, operatorWord, operatorPrecedence,
    hword]

/-- A conjunction may be split into its two predicates. -/
theorem conjunction_andAlso (predicates : List Expr) (left right : Expr) :
    conjunction (predicates ++ [.binary .andAlso left right]) =
      conjunction (predicates ++ [left, right]) := by
  simp only [conjunction, List.mapM_append, List.mapM_cons, List.mapM_nil, writePrec_andAlso,
    map_bind, bind_assoc, pure_bind, map_pure, bind_map_left, operandText_conjunction,
    operandText_of_conjunction, join_concat]

end Uri

end ServiceQuery
