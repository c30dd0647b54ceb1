import ServiceQuery.Proofs.Uri.Pieces
import ServiceQuery.Proofs.Uri.Scope

/-!
# What a path begins with

A property of the element is written by its name alone, and so is a variable. Inside a lambda the
name of its variable stands for the variable, so that a property of the element with the same name
is taken for the variable. An expression without such a property is the condition for every path to
mean what it was written for.
-/

namespace ServiceQuery

namespace Uri

/-- A name up to its first slash. -/
def firstSegment (name : String) : String := String.ofList (name.toList.takeWhile (· != '/'))

namespace Piece

/-- The first segment of the path that begins with a piece. -/
def head? : Piece → Option String
  | reference name | property name => some (firstSegment name)
  | element => some "$it"
  | _ => none

/-- The variables in scope after a piece. -/
def enter (scope : List String) : Piece → List String
  | opens name => name :: scope
  | closes => scope.tail
  | _ => scope

/-- If a path begins with the name of a variable in scope, it is a use of the variable. -/
def ResolvedIn (scope : List String) (piece : Piece) : Prop :=
  ∀ name ∈ piece.head?, name ∈ scope → piece = .reference name

theorem resolvedIn_of_head?_eq_none {piece : Piece} (h : piece.head? = none) (scope : List String) :
    piece.ResolvedIn scope := by
  intro name hn
  rw [h] at hn
  cases hn

theorem resolvedIn_property {scope : List String} {name : String} :
    (property name).ResolvedIn scope ↔ firstSegment name ∉ scope := by
  constructor
  · intro h hm
    cases h _ rfl hm
  · rintro h _ ⟨⟩ hm
    exact absurd hm h

theorem resolvedIn_element {scope : List String} : element.ResolvedIn scope ↔ "$it" ∉ scope := by
  constructor
  · intro h hm
    cases h _ rfl hm
  · rintro h _ ⟨⟩ hm
    exact absurd hm h

theorem resolvedIn_reference {scope : List String} {name : String} :
    (reference name).ResolvedIn scope ↔ (firstSegment name ∈ scope → firstSegment name = name) := by
  constructor
  · intro h hm
    exact (reference.inj (h _ rfl hm)).symm
  · rintro h _ ⟨⟩ hm
    rw [h hm]

end Piece

/-- The variables in scope after some pieces. -/
def scopeAfter (scope : List String) (pieces : List Piece) : List String :=
  pieces.foldl Piece.enter scope

/-- At every place of a text, a path that begins with the name of a variable in scope there is a use
of the variable. -/
def Resolved (scope : List String) (pieces : List Piece) : Prop :=
  ∀ before piece after, pieces = before ++ piece :: after →
    piece.ResolvedIn (scopeAfter scope before)

section Scope

variable {scope : List String} {pieces others : List Piece}

@[simp]
theorem scopeAfter_append (scope : List String) (first second : List Piece) :
    scopeAfter scope (first ++ second) = scopeAfter (scopeAfter scope first) second :=
  List.foldl_append

@[simp]
theorem resolved_nil : Resolved scope [] := by
  intro before piece after h
  simp at h

@[simp]
theorem resolved_cons {piece : Piece} :
    Resolved scope (piece :: pieces) ↔
      piece.ResolvedIn scope ∧ Resolved (piece.enter scope) pieces := by
  constructor
  · intro h
    exact ⟨h [] piece pieces rfl, fun before next after hs => h (piece :: before) next after
      (congrArg (List.cons piece) hs)⟩
  · rintro ⟨hfirst, hrest⟩ before next after hs
    cases before with
    | nil =>
      cases hs
      exact hfirst
    | cons first before =>
      cases hs
      exact hrest before next after rfl

@[simp]
theorem resolved_append :
    Resolved scope (pieces ++ others) ↔
      Resolved scope pieces ∧ Resolved (scopeAfter scope pieces) others := by
  induction pieces generalizing scope with
  | nil => simp [scopeAfter]
  | cons piece pieces ih => simp [ih, scopeAfter, and_assoc]

end Scope

end Uri

namespace Expr

open Uri (firstSegment isLength isCount)

mutual

/-- No path of the expression begins with the name of a variable in scope, other than the uses of
the variable. -/
def unshadowed : Expr → List String → Bool
  | input _, scope => !scope.contains "$it"
  | parameter param, scope =>
    !scope.contains (firstSegment param.name) || firstSegment param.name == param.name
  | member (input ref) name _, scope =>
    if isLength (input ref) name || isCount (input ref) name then !scope.contains "$it"
    else !scope.contains (firstSegment name)
  | member source _ _, scope => source.unshadowed scope
  | unary _ operand _, scope => operand.unshadowed scope
  | binary _ left right, scope => left.unshadowed scope && right.unshadowed scope
  | invoke receiver _ args _, scope => receiver.unshadowed scope && unshadowedList args scope
  | call _ args _, scope => unshadowedList args scope
  | lambda params body, scope => body.unshadowed (params.map Param.name ++ scope)
  | _, _ => true

/-- The same for every expression of a list. -/
def unshadowedList : List Expr → List String → Bool
  | [], _ => true
  | expr :: rest, scope => expr.unshadowed scope && unshadowedList rest scope

end

theorem unshadowedList_eq (exprs : List Expr) (scope : List String) :
    unshadowedList exprs scope = exprs.all (unshadowed · scope) := by
  induction exprs with
  | nil => rfl
  | cons expr rest ih => rw [unshadowedList, ih, List.all_cons]

/-- The path of a member begins with what it is read from, unless that is the element. -/
theorem unshadowed_member {source : Expr} {name : String} (ty : Ty) (scope : List String)
    (h : (isLength source name || isCount source name) = true ∨ ∀ ref, source ≠ input ref) :
    (member source name ty).unshadowed scope = source.unshadowed scope := by
  cases source with
  | input ref =>
    exact if_pos (h.resolve_right fun hne => hne ref rfl)
  | _ => simp [unshadowed]

end Expr

namespace Uri

/-- The pieces leave the variables in scope as they are, and their paths are resolved under a
condition on the variables. -/
structure Resolves (pieces : List Piece) (condition : List String → Prop) : Prop where
  balanced : ∀ scope, scopeAfter scope pieces = scope
  resolved_iff : ∀ scope, Resolved scope pieces ↔ condition scope

namespace Resolves

variable {pieces others : List Piece} {p q : List String → Prop}

theorem congr (h : Resolves pieces p) (hpq : ∀ scope, p scope ↔ q scope) : Resolves pieces q :=
  ⟨h.balanced, fun scope => (h.resolved_iff scope).trans (hpq scope)⟩

theorem nil : Resolves [] fun _ => True := ⟨fun _ => rfl, fun _ => by simp⟩

/-- A piece that begins no path and neither begins nor ends a scope. -/
theorem of_head?_eq_none {piece : Piece} (h : piece.head? = none)
    (he : ∀ scope, piece.enter scope = scope) : Resolves [piece] fun _ => True := by
  refine ⟨he, fun scope => ?_⟩
  simp [Piece.resolvedIn_of_head?_eq_none h scope]

theorem word (text : String) : Resolves [.word text] fun _ => True :=
  of_head?_eq_none rfl fun _ => rfl

theorem value (text : String) : Resolves [.value text] fun _ => True :=
  of_head?_eq_none rfl fun _ => rfl

theorem segment (name : String) : Resolves [.segment name] fun _ => True :=
  of_head?_eq_none rfl fun _ => rfl


theorem append (h : Resolves pieces p) (h' : Resolves others q) :
    Resolves (pieces ++ others) fun scope => p scope ∧ q scope := by
  refine ⟨fun scope => ?_, fun scope => ?_⟩
  · rw [scopeAfter_append, h.balanced, h'.balanced]
  · rw [resolved_append, h.balanced, h.resolved_iff, h'.resolved_iff]

/-- A word before the pieces. -/
theorem after_word (h : Resolves pieces p) (text : String) :
    Resolves (.word text :: pieces) p :=
  ((word text).append h).congr fun _ => by simp

/-- A word after the pieces. -/
theorem before_word (h : Resolves pieces p) (text : String) :
    Resolves (pieces ++ [.word text]) p :=
  (h.append (word text)).congr fun _ => by simp

/-- Lists of pieces, each under its own condition. -/
theorem listed {ι : Type} {items : List ι} {pieces : ι → List Piece}
    {condition : ι → List String → Prop}
    (h : ∀ item ∈ items, Resolves (pieces item) (condition item)) :
    Resolves (listed (items.map pieces)) fun scope => ∀ item ∈ items, condition item scope := by
  induction items with
  | nil => exact nil.congr fun _ => by simp
  | cons item items ih =>
    rw [List.forall_mem_cons] at h
    cases items with
    | nil =>
      show Resolves (Uri.listed [pieces item]) _
      rw [Uri.listed, List.intercalate_singleton]
      exact h.1.congr fun scope => by simp
    | cons next rest =>
      rw [List.map_cons, List.map_cons, listed_cons_cons]
      have hrest := (ih h.2).after_word ","
      exact (h.1.append hrest).congr fun scope => by simp

theorem callPieces {function : String} {args : List Part}
    (h : ∀ arg ∈ args, Resolves arg.pieces fun scope => arg.expr.unshadowed scope = true) :
    Resolves (callPieces function (args.map Part.pieces)) fun scope =>
      ∀ arg ∈ args, arg.expr.unshadowed scope = true :=
  ((listed h).before_word ")").after_word (function ++ "(")

theorem operandPieces (h : Resolves pieces p) (parent : Precedence) (right : Bool)
    (precedence : Precedence) : Resolves (operandPieces parent right pieces precedence) p := by
  rw [Uri.operandPieces]
  split
  · exact (h.before_word ")").after_word "("
  · exact h

theorem membershipPieces (h : Resolves pieces p) (precedence : Precedence) (values : List String) :
    Resolves (membershipPieces pieces precedence values) p := by
  have hvalues := ((listed fun text (_ : text ∈ values) => value text).before_word ")").after_word
    " in ("
  exact ((h.operandPieces _ _ _).append hvalues).congr fun _ => by simp

/-- A variable is in scope from the beginning of its lambda to the end. -/
theorem body (h : Resolves pieces p) (name : String) :
    Resolves (.opens name :: (pieces ++ [.closes])) fun scope => p (name :: scope) := by
  have hopens (scope : List String) : (Piece.opens name).ResolvedIn scope :=
    Piece.resolvedIn_of_head?_eq_none rfl scope
  have hcloses (scope : List String) : Piece.closes.ResolvedIn scope :=
    Piece.resolvedIn_of_head?_eq_none rfl scope
  refine ⟨fun scope => ?_, fun scope => ?_⟩
  · show scopeAfter (name :: scope) (pieces ++ [.closes]) = scope
    rw [scopeAfter_append, h.balanced]
    rfl
  · rw [resolved_cons, resolved_append]
    show _ ∧ Resolved (name :: scope) pieces ∧ _ ↔ _
    simp [h.resolved_iff, hopens, hcloses]

end Resolves

/-- The paths of a text are resolved if nothing in its expression is hidden. -/
theorem Written.resolves {expr : Expr} {pieces : List Piece} {precedence : Precedence}
    (h : Written expr pieces precedence) :
    Resolves pieces fun scope => expr.unshadowed scope = true := by
  induction h with
  | constant ok => exact (Resolves.value _).congr fun _ => by simp [Expr.unshadowed]
  | input ref =>
    refine ⟨fun _ => rfl, fun scope => ?_⟩
    simp [Piece.resolvedIn_element, Expr.unshadowed]
  | parameter param =>
    refine ⟨fun _ => rfl, fun scope => ?_⟩
    simp [Piece.resolvedIn_reference, Expr.unshadowed, ← imp_iff_not_or]
  | @length source name pieces precedence ty asks inner ih =>
    have hargs : ∀ arg ∈ [Part.mk source pieces precedence],
        Resolves arg.pieces fun scope => arg.expr.unshadowed scope = true := by
      simp [ih]
    refine (Resolves.callPieces hargs).congr fun scope => ?_
    rw [Expr.unshadowed_member ty scope (.inl (by simp [asks]))]
    simp
  | count ty asks inner ih =>
    refine (ih.before_word _).congr fun scope => ?_
    rw [Expr.unshadowed_member ty scope (.inl (by simp [asks]))]
  | @property ref name ty asks =>
    refine ⟨fun _ => rfl, fun scope => ?_⟩
    simp [Piece.resolvedIn_property, Expr.unshadowed, asks]
  | segment ty asks inside inner ih =>
    refine (ih.append (.segment _)).congr fun scope => ?_
    rw [Expr.unshadowed_member ty scope (.inr inside), and_true]
  | convert ty inner ih => exact ih
  | not ty inner ih => exact (ih.operandPieces _ _ _).after_word _
  | negate ty inner ih => exact (ih.operandPieces _ _ _).after_word _
  | @concat left right first second tight loose strings inLeft inRight ihl ihr =>
    have hargs : ∀ arg ∈ [Part.mk left first tight, ⟨right, second, loose⟩],
        Resolves arg.pieces fun scope => arg.expr.unshadowed scope = true := by
      simp [ihl, ihr]
    exact (Resolves.callPieces hargs).congr fun _ => by simp [Expr.unshadowed]
  | operator numbers inLeft inRight ihl ihr =>
    refine ((ihl.operandPieces _ _ _).append ((ihr.operandPieces _ _ _).after_word _)).congr ?_
    simp [Expr.unshadowed]
  | @invokeIn receiver item method items values pieces precedence ty array ok inner ih =>
    obtain ⟨-, element, rfl⟩ := membershipItems?_ok array
    refine (ih.membershipPieces _ _).congr fun _ => ?_
    simp [Expr.unshadowed, Expr.unshadowedList]
  | @callIn receiver item method items values pieces precedence ty array ok inner ih =>
    obtain ⟨-, element, rfl⟩ := membershipItems?_ok array
    refine (ih.membershipPieces _ _).congr fun _ => ?_
    simp [Expr.unshadowed, Expr.unshadowedList]
  | @invoke receiver method function pieces precedence args ty stands inner inArgs ihr iha =>
    have hargs : ∀ arg ∈ Part.mk receiver pieces precedence :: args,
        Resolves arg.pieces fun scope => arg.expr.unshadowed scope = true :=
      List.forall_mem_cons.2 ⟨ihr, iha⟩
    exact (Resolves.callPieces hargs).congr fun _ => by
      simp [Expr.unshadowed, Expr.unshadowedList_eq]
  | call ty stands inArgs iha =>
    exact (Resolves.callPieces iha).congr fun _ => by
      simp [Expr.unshadowed, Expr.unshadowedList_eq]
  | nonempty ty inner ih =>
    exact (ih.before_word _).congr fun _ => by simp [Expr.unshadowed, Expr.unshadowedList]
  | quantified ty stands inner inBody ihs ihb =>
    refine (ihs.append ((ihb.body _).after_word _)).congr fun scope => ?_
    simp [Expr.unshadowed, Expr.unshadowedList]

namespace Sample

/-- The element whose properties are written by their names. -/
def customer : Expr := .input ⟨0, .entity "Customer"⟩

/-- A property that is a collection of orders. -/
def ordersOf (source : Expr) (name : String) : Expr :=
  .member source name (.collection (.entity "Order"))

/-- Some element of a collection, which a variable stands for, meets a condition. -/
def anyOf (source : Expr) (variableName : String) (condition : Expr) : Expr :=
  .call "Any" [source, .lambda [⟨variableName, .entity "Order"⟩] condition] .bool

def above (amount : Expr) : Expr := .binary .greaterThan amount (.constant (.int32 100))

/-- Some order of the customer has a return above a hundred, and the limit of the customer is above
a hundred. The inner variable hides the outer one. -/
def returned : Expr :=
  anyOf (ordersOf customer "Orders") "o"
    (anyOf (ordersOf (.parameter ⟨"o", .entity "Order"⟩) "Returns") "o"
      (.binary .andAlso (above (.member (.parameter ⟨"o", .entity "Order"⟩) "Total" .int32))
        (above (.member customer "Limit" .int32))))

/-- For some order of the customer, the property `o` of the customer is above a hundred. -/
def hidden : Expr :=
  anyOf (ordersOf customer "Orders") "o" (above (.member customer "o" .int32))

end Sample

/-- An expression that is written has the text of its pieces. Every path that begins with the name
of a variable in scope there is a use of the variable, if and only if the expression has no other
path that begins with this name: above all no property of the element. -/
theorem write_resolved {expr : Expr} {text : String} {writer after : Writer}
    (h : (write expr).run.run writer = (.ok text, after)) :
    ∃ pieces precedence, Written expr pieces precedence ∧ text = spell pieces ∧
      scopeAfter writer.scope pieces = writer.scope ∧
      (Resolved writer.scope pieces ↔ expr.unshadowed writer.scope = true) := by
  obtain ⟨pieces, precedence, hw, ht⟩ := written_of_yields_write ⟨writer, after, h⟩
  have hresolves := hw.resolves
  exact ⟨pieces, precedence, hw, ht, hresolves.balanced _, hresolves.resolved_iff _⟩

/-- Two variables of the same name, and a property of the element inside both scopes. -/
theorem write_resolved_returned :
    (write Sample.returned).run.run {} =
        (.ok "Orders/any(o:o/Returns/any(o:o/Total gt 100 and Limit gt 100))", {}) ∧
      Sample.returned.unshadowed [] = true ∧
      ∃ pieces precedence, Written Sample.returned pieces precedence ∧
        "Orders/any(o:o/Returns/any(o:o/Total gt 100 and Limit gt 100))" = spell pieces ∧
        Resolved [] pieces := by
  have hrun : (write Sample.returned).run.run {} =
      (.ok "Orders/any(o:o/Returns/any(o:o/Total gt 100 and Limit gt 100))", {}) := rfl
  have hunshadowed : Sample.returned.unshadowed [] = true := by decide
  obtain ⟨pieces, precedence, hw, ht, -, hresolved⟩ := write_resolved hrun
  exact ⟨hrun, hunshadowed, pieces, precedence, hw, ht, hresolved.2 hunshadowed⟩

/-- A property of the element is written like the variable of the lambda around it. -/
theorem write_hidden :
    (write Sample.hidden).run.run {} = (.ok "Orders/any(o:o gt 100)", {}) ∧
      ∃ before piece after precedence,
        Written Sample.hidden (before ++ piece :: after) precedence ∧
        "Orders/any(o:o gt 100)" = spell (before ++ piece :: after) ∧
        piece = .property "o" ∧ piece.head? = some "o" ∧ "o" ∈ scopeAfter [] before := by
  refine ⟨rfl, [.property "Orders", .word "/any", .opens "o"], .property "o",
    [.word " gt ", .value "100", .closes], .primary, ?_, by decide, rfl, by decide, by decide⟩
  have hsource : Written (Sample.ordersOf Sample.customer "Orders") [.property "Orders"] .primary :=
    .property _ ⟨by decide, by decide⟩
  have hamount : Written (.member Sample.customer "o" .int32) [.property "o"] .primary :=
    .property _ ⟨by decide, by decide⟩
  have hvalue : Written (.constant (.int32 100)) [.value "100"] .primary := .constant rfl
  have habove : Written (Sample.above (.member Sample.customer "o" .int32))
      [.property "o", .word " gt ", .value "100"] .relational :=
    .operator (by decide) hamount hvalue
  have hany : quantifier? "Any" = some "any" := rfl
  exact .quantified .bool hany hsource habove

end Uri

end ServiceQuery
