import ServiceQuery.Proofs.Traverse
import ServiceQuery.Proofs.Uri.RoundTrip

/-!
# The pieces of a text

The text of an expression is put together from pieces, and each piece tells where it comes from: a
word of the language, a value, a use of a variable, a property of the element that the request is
about, or the ends of the scope of a variable.
-/

namespace ServiceQuery.Uri

/-- A piece of the text of an expression. -/
inductive Piece where
  /-- A word of the language, with its signs. -/
  | word (text : String)
  /-- A value. -/
  | value (text : String)
  /-- A path that begins with a variable. -/
  | reference (name : String)
  /-- A path that begins with a property of the element. -/
  | property (name : String)
  /-- A path that begins with the element itself. -/
  | element
  /-- The next property on a path. -/
  | segment (name : String)
  /-- The variable of a lambda, before its body. -/
  | opens (name : String)
  /-- The end of the body. -/
  | closes

/-- The text of a piece. -/
def Piece.text : Piece → String
  | word text | value text => text
  | reference name | property name => name
  | element => "$it"
  | segment name => "/" ++ name
  | opens name => "(" ++ name ++ ":"
  | closes => ")"

/-- The text of pieces. -/
def spell (pieces : List Piece) : String := String.join (pieces.map Piece.text)

@[simp]
theorem spell_nil : spell [] = "" := rfl

@[simp]
theorem spell_cons (piece : Piece) (pieces : List Piece) :
    spell (piece :: pieces) = piece.text ++ spell pieces := String.join_cons

theorem spell_singleton (piece : Piece) : spell [piece] = piece.text := by simp

@[simp]
theorem spell_append (first second : List Piece) :
    spell (first ++ second) = spell first ++ spell second := by
  rw [spell, List.map_append, String.join_append]
  rfl

/-- Lists of pieces with a comma between two of them. -/
def listed (lists : List (List Piece)) : List Piece := [Piece.word ","].intercalate lists

theorem listed_cons_cons (first second : List Piece) (rest : List (List Piece)) :
    listed (first :: second :: rest) = first ++ .word "," :: listed (second :: rest) := by
  rw [listed, List.intercalate_cons_cons, List.append_assoc]
  rfl

theorem spell_listed (lists : List (List Piece)) :
    spell (listed lists) = Text.join "," (lists.map spell) := by
  induction lists with
  | nil => rfl
  | cons first rest ih =>
    cases rest with
    | nil => simp [listed, Text.join]
    | cons second rest =>
      rw [listed_cons_cons, spell_append, spell_cons, ih]
      simp [Text.join, String.intercalate_cons_cons, Piece.text, String.append_assoc]

/-- The pieces of an operand under an operator, as in `operandText`. -/
def operandPieces (parent : Precedence) (right : Bool) (pieces : List Piece)
    (precedence : Precedence) : List Piece :=
  if precedence < parent ∨ (right ∧ precedence = parent ∧ Precedence.conjunction < parent) then
    .word "(" :: (pieces ++ [.word ")"])
  else pieces

theorem spell_operandPieces (parent : Precedence) (right : Bool) (pieces : List Piece)
    (precedence : Precedence) :
    spell (operandPieces parent right pieces precedence) =
      operandText parent right (spell pieces, precedence) := by
  rw [operandPieces, operandText]
  split
  · simp [Piece.text, String.append_assoc]
  · rfl

/-- The pieces of a function call. -/
def callPieces (function : String) (args : List (List Piece)) : List Piece :=
  .word (function ++ "(") :: (listed args ++ [.word ")"])

theorem spell_callPieces (function : String) (args : List (List Piece)) :
    spell (callPieces function args) =
      function ++ "(" ++ Text.join "," (args.map spell) ++ ")" := by
  simp [callPieces, Piece.text, spell_listed, String.append_assoc]

/-- The pieces of a membership test. -/
def membershipPieces (item : List Piece) (precedence : Precedence) (values : List String) :
    List Piece :=
  operandPieces .relational false item precedence ++
    .word " in (" :: (listed (values.map fun value => [.value value]) ++ [.word ")"])

theorem spell_membershipPieces (item : List Piece) (precedence : Precedence)
    (values : List String) :
    spell (membershipPieces item precedence values) =
      operandText .relational false (spell item, precedence) ++ " in (" ++
        Text.join "," values ++ ")" := by
  have hvalues : (values.map fun value => [Piece.value value]).map spell = values := by
    rw [List.map_map]
    exact List.map_id'' (fun value => by simp [Piece.text]) values
  simp [membershipPieces, Piece.text, spell_operandPieces, spell_listed, hvalues,
    String.append_assoc]

/-! ### The pieces of an expression -/

/-- Whether a member is the length of a string. -/
def isLength (source : Expr) (name : String) : Bool := name == "Length" && isString source

/-- Whether a member is the count of a collection. -/
def isCount (source : Expr) (name : String) : Bool :=
  name == "Count" && source.ty.elementType?.isSome

/-- An expression, its pieces and how tightly it binds. -/
structure Part where
  expr : Expr
  pieces : List Piece
  precedence : Precedence

/-- The pieces that an expression is written with, and how tightly it binds. -/
inductive Written : Expr → List Piece → Precedence → Prop where
  | constant {value : Value} {text : String} (ok : literal value = .ok text) :
      Written (.constant value) [.value text] .primary
  | input (ref : InputRef) : Written (.input ref) [.element] .primary
  | parameter (param : Param) : Written (.parameter param) [.reference param.name] .primary
  | length {source : Expr} {name : String} {pieces : List Piece} {precedence : Precedence}
      (ty : Ty) (asks : isLength source name = true) (inner : Written source pieces precedence) :
      Written (.member source name ty) (callPieces "length" [pieces]) .primary
  | count {source : Expr} {name : String} {pieces : List Piece} {precedence : Precedence}
      (ty : Ty) (asks : isLength source name = false ∧ isCount source name = true)
      (inner : Written source pieces precedence) :
      Written (.member source name ty) (pieces ++ [.word "/$count"]) .primary
  | property {ref : InputRef} {name : String} (ty : Ty)
      (asks : isLength (.input ref) name = false ∧ isCount (.input ref) name = false) :
      Written (.member (.input ref) name ty) [.property name] .primary
  | segment {source : Expr} {name : String} {pieces : List Piece} {precedence : Precedence}
      (ty : Ty) (asks : isLength source name = false ∧ isCount source name = false)
      (inside : ∀ ref, source ≠ .input ref) (inner : Written source pieces precedence) :
      Written (.member source name ty) (pieces ++ [.segment name]) .primary
  | convert {operand : Expr} {pieces : List Piece} {precedence : Precedence} (ty : Ty)
      (inner : Written operand pieces precedence) :
      Written (.unary .convert operand ty) pieces precedence
  | not {operand : Expr} {pieces : List Piece} {precedence : Precedence} (ty : Ty)
      (inner : Written operand pieces precedence) :
      Written (.unary .not operand ty)
        (.word "not " :: operandPieces .unary false pieces precedence) .unary
  | negate {operand : Expr} {pieces : List Piece} {precedence : Precedence} (ty : Ty)
      (inner : Written operand pieces precedence) :
      Written (.unary .negate operand ty)
        (.word "-" :: operandPieces .unary false pieces precedence) .unary
  | concat {left right : Expr} {first second : List Piece} {tight loose : Precedence}
      (strings : (isString left || isString right) = true) (inLeft : Written left first tight)
      (inRight : Written right second loose) :
      Written (.binary .add left right) (callPieces "concat" [first, second]) .primary
  | operator {op : BinaryOp} {left right : Expr} {first second : List Piece}
      {tight loose : Precedence}
      (numbers : (op == .add && (isString left || isString right)) = false)
      (inLeft : Written left first tight) (inRight : Written right second loose) :
      Written (.binary op left right)
        (operandPieces (operatorPrecedence op) false first tight ++
          .word (" " ++ operatorWord op ++ " ") ::
          operandPieces (operatorPrecedence op) true second loose)
        (operatorPrecedence op)
  | invokeIn {receiver item : Expr} {method : String} {items : List Value} {values : List String}
      {pieces : List Piece} {precedence : Precedence} (ty : Ty)
      (array : membershipItems? method receiver = some items)
      (ok : items.mapM literal = .ok values) (inner : Written item pieces precedence) :
      Written (.invoke receiver method [item] ty) (membershipPieces pieces precedence values)
        .relational
  | callIn {source item : Expr} {method : String} {items : List Value} {values : List String}
      {pieces : List Piece} {precedence : Precedence} (ty : Ty)
      (array : membershipItems? method source = some items)
      (ok : items.mapM literal = .ok values) (inner : Written item pieces precedence) :
      Written (.call method [source, item] ty) (membershipPieces pieces precedence values)
        .relational
  | invoke {receiver : Expr} {method function : String} {pieces : List Piece}
      {precedence : Precedence} {args : List Part} (ty : Ty)
      (stands : receiverFunction? method args.length = some function)
      (inner : Written receiver pieces precedence)
      (inArgs : ∀ arg ∈ args, Written arg.expr arg.pieces arg.precedence) :
      Written (.invoke receiver method (args.map Part.expr) ty)
        (callPieces function (pieces :: args.map Part.pieces)) .primary
  | call {method function : String} {args : List Part} (ty : Ty)
      (stands : function? method args.length = some function)
      (inArgs : ∀ arg ∈ args, Written arg.expr arg.pieces arg.precedence) :
      Written (.call method (args.map Part.expr) ty)
        (callPieces function (args.map Part.pieces)) .primary
  | nonempty {source : Expr} {pieces : List Piece} {precedence : Precedence} (ty : Ty)
      (inner : Written source pieces precedence) :
      Written (.call "Any" [source] ty) (pieces ++ [.word "/any()"]) .primary
  | quantified {method quantifier : String} {source body : Expr} {param : Param}
      {pieces inside : List Piece} {precedence loose : Precedence} (ty : Ty)
      (stands : quantifier? method = some quantifier) (inner : Written source pieces precedence)
      (inBody : Written body inside loose) :
      Written (.call method [source, .lambda [param] body] ty)
        (pieces ++ .word ("/" ++ quantifier) :: .opens param.name :: (inside ++ [.closes])) .primary

/-- The result has the text of pieces that the expression is written with. -/
def IsWritten (expr : Expr) (result : String × Precedence) : Prop :=
  ∃ pieces, Written expr pieces result.2 ∧ result.1 = spell pieces

/-! ### What is written is the text of pieces -/

namespace Yields

variable {α : Type} {a : α}

/-- A variable in scope does not change how results are put together. -/
theorem withVariable {name : String} {body : WriteM α} (h : Yields (withVariable name body) a) :
    Yields body a := by
  obtain ⟨writer, writer', hrun⟩ := h
  have hresult : (body.run.run { writer with scope := name :: writer.scope }).1 = .ok a :=
    congrArg Prod.fst hrun
  exact ⟨_, (body.run.run _).2, Prod.ext hresult rfl⟩

theorem mapM_lift {ι : Type} {f : ι → Except CompileError α} {items : List ι} {results : List α}
    (h : Yields (items.mapM fun item => (liftM (f item) : WriteM α)) results) :
    items.mapM f = .ok results := by
  induction items generalizing results with
  | nil =>
    obtain rfl := h.pure_eq
    rfl
  | cons item items ih =>
    rw [List.mapM_cons] at h
    obtain ⟨result, hr, h⟩ := h.bind
    obtain ⟨rest, hrest, h⟩ := h.bind
    obtain rfl := h.pure_eq
    simp only [List.mapM_cons, Except.bind_eq_ok, Except.pure_eq_ok]
    exact ⟨result, hr.lift_eq, rest, ih hrest, rfl⟩

theorem membership {items : List Value} {item : WriteM (String × Precedence)}
    {result : String × Precedence} (h : Yields (membership items item) result) :
    ∃ values operand, items.mapM literal = .ok values ∧ Yields item operand ∧
      result =
        (operandText .relational false operand ++ " in (" ++ Text.join "," values ++ ")",
          .relational) := by
  obtain ⟨values, hv, h⟩ := h.bind
  obtain ⟨operand, ho, h⟩ := h.bind
  obtain ⟨_, _, h⟩ := h.bind
  exact ⟨values, operand, hv.mapM_lift, ho, h.pure_eq.symm⟩

end Yields

/-- The arguments of a function are written one after the other. -/
theorem parts_of_yields {args : List Expr} {texts : List String}
    (ih : ∀ arg ∈ args, ∀ result, Yields (writePrec arg) result → IsWritten arg result)
    (h : Yields (writeList args) texts) :
    ∃ parts : List Part, args = parts.map Part.expr ∧
      texts = (parts.map Part.pieces).map spell ∧
      ∀ part ∈ parts, Written part.expr part.pieces part.precedence := by
  induction args generalizing texts with
  | nil =>
    obtain rfl := h.pure_eq
    exact ⟨[], rfl, rfl, by simp⟩
  | cons arg args iha =>
    rw [List.forall_mem_cons] at ih
    obtain ⟨operand, ho, h⟩ := h.bind
    obtain ⟨rest, hr, h⟩ := h.bind
    obtain rfl := h.pure_eq
    obtain ⟨pieces, hw, ht⟩ := ih.1 operand ho
    obtain ⟨parts, rfl, rfl, hparts⟩ := iha ih.2 hr
    refine ⟨⟨arg, pieces, operand.2⟩ :: parts, rfl, by simp [ht], ?_⟩
    exact List.forall_mem_cons.2 ⟨hw, hparts⟩

theorem isWritten_member {source : Expr} {name : String} {ty : Ty} {result : String × Precedence}
    (ih : ∀ operand, Yields (writePrec source) operand → IsWritten source operand)
    (h : Yields (writePrec (.member source name ty)) result) :
    IsWritten (.member source name ty) result := by
  rw [writePrec.eq_def] at h
  dsimp only at h
  split at h
  · next hl =>
    obtain ⟨operand, ho, h⟩ := h.bind
    obtain rfl := h.pure_eq
    obtain ⟨pieces, hw, ht⟩ := ih operand ho
    refine ⟨_, .length ty hl hw, ?_⟩
    rw [spell_callPieces, ht]
    rfl
  · next hl =>
    rw [Bool.not_eq_true] at hl
    split at h
    · next hc =>
      obtain ⟨_, _, h⟩ := h.bind
      obtain ⟨operand, ho, h⟩ := h.bind
      obtain rfl := h.pure_eq
      obtain ⟨pieces, hw, ht⟩ := ih operand ho
      refine ⟨_, .count ty ⟨hl, hc⟩ hw, ?_⟩
      simp [ht, Piece.text]
    · next hc =>
      rw [Bool.not_eq_true] at hc
      split at h
      · obtain rfl := h.pure_eq
        exact ⟨_, .property ty ⟨hl, hc⟩, by simp [Piece.text]⟩
      · next hinside =>
        obtain ⟨_, _, h⟩ := h.bind
        obtain ⟨operand, ho, h⟩ := h.bind
        obtain rfl := h.pure_eq
        obtain ⟨pieces, hw, ht⟩ := ih operand ho
        refine ⟨_, .segment ty ⟨hl, hc⟩ (fun ref => hinside ref) hw, ?_⟩
        simp [ht, Piece.text, String.append_assoc]

theorem isWritten_unary {op : UnaryOp} {operand : Expr} {ty : Ty} {result : String × Precedence}
    (ih : ∀ result, Yields (writePrec operand) result → IsWritten operand result)
    (h : Yields (writePrec (.unary op operand ty)) result) :
    IsWritten (.unary op operand ty) result := by
  cases op with
  | convert =>
    obtain ⟨pieces, hw, ht⟩ := ih result h
    exact ⟨pieces, .convert ty hw, ht⟩
  | not =>
    obtain ⟨inner, hi, h⟩ := h.bind
    obtain rfl := h.pure_eq
    obtain ⟨pieces, hw, ht⟩ := ih inner hi
    refine ⟨_, .not ty hw, ?_⟩
    rw [spell_cons, spell_operandPieces, ← ht]
    rfl
  | negate =>
    obtain ⟨inner, hi, h⟩ := h.bind
    obtain rfl := h.pure_eq
    obtain ⟨pieces, hw, ht⟩ := ih inner hi
    refine ⟨_, .negate ty hw, ?_⟩
    rw [spell_cons, spell_operandPieces, ← ht]
    rfl

theorem isWritten_binary {op : BinaryOp} {left right : Expr} {result : String × Precedence}
    (ihl : ∀ result, Yields (writePrec left) result → IsWritten left result)
    (ihr : ∀ result, Yields (writePrec right) result → IsWritten right result)
    (h : Yields (writePrec (.binary op left right)) result) :
    IsWritten (.binary op left right) result := by
  obtain ⟨first, hf, h⟩ := h.bind
  obtain ⟨second, hs, h⟩ := h.bind
  obtain ⟨pieces, hw, ht⟩ := ihl first hf
  obtain ⟨others, hw', ht'⟩ := ihr second hs
  dsimp only at h
  split at h
  · next hconcat =>
    obtain rfl := h.pure_eq
    rw [Bool.and_eq_true, beq_iff_eq] at hconcat
    obtain ⟨rfl, hstrings⟩ := hconcat
    refine ⟨_, .concat hstrings hw hw', ?_⟩
    rw [spell_callPieces, ht, ht']
    simp [Text.join, String.intercalate_cons_cons, String.append_assoc]
  · next hconcat =>
    obtain rfl := h.pure_eq
    refine ⟨_, .operator (Bool.not_eq_true _ ▸ hconcat) hw hw', ?_⟩
    rw [spell_append, spell_cons, spell_operandPieces, spell_operandPieces, ← ht, ← ht']
    simp [Piece.text, String.append_assoc]

theorem isWritten_invoke {receiver : Expr} {method : String} {args : List Expr} {ty : Ty}
    {result : String × Precedence}
    (ihr : ∀ result, Yields (writePrec receiver) result → IsWritten receiver result)
    (iha : ∀ arg ∈ args, ∀ result, Yields (writePrec arg) result → IsWritten arg result)
    (h : Yields (writePrec (.invoke receiver method args ty)) result) :
    IsWritten (.invoke receiver method args ty) result := by
  rw [writePrec.eq_def] at h
  dsimp only at h
  split at h
  · next items item hm =>
    obtain ⟨values, operand, hv, ho, rfl⟩ := h.membership
    obtain ⟨pieces, hw, ht⟩ := iha item List.mem_cons_self operand ho
    refine ⟨_, .invokeIn ty hm hv hw, ?_⟩
    rw [spell_membershipPieces, ← ht]
  · obtain ⟨function, texts, hf, htexts, rfl⟩ := h.functionCall
    obtain ⟨operand, ho, htexts⟩ := htexts.bind
    obtain ⟨rest, hrest, htexts⟩ := htexts.bind
    obtain rfl := htexts.pure_eq
    obtain ⟨pieces, hw, ht⟩ := ihr operand ho
    obtain ⟨parts, rfl, rfl, hparts⟩ := parts_of_yields iha hrest
    rw [List.length_map] at hf
    refine ⟨_, .invoke ty hf hw hparts, ?_⟩
    rw [spell_callPieces, List.map_cons, ht]

/-- The only quantifier without a lambda asks whether there is an element. -/
theorem quantifier?_eq_any {method : String} (h : quantifier? method = some "any") :
    method = "Any" := by
  rw [quantifier?.eq_def] at h
  split at h
  · rfl
  · exact absurd h (by decide)
  · cases h

/-- Among the arguments of a quantifier is a lambda, whose body is written in its place. -/
theorem isWritten_call {method : String} {args : List Expr} {ty : Ty}
    {result : String × Precedence}
    (iha : ∀ arg ∈ args, ∀ result, Yields (writePrec arg) result → IsWritten arg result)
    (ihbody : ∀ params body, .lambda params body ∈ args →
      ∀ result, Yields (writePrec body) result → IsWritten body result)
    (h : Yields (writePrec (.call method args ty)) result) :
    IsWritten (.call method args ty) result := by
  have hfunction (h : Yields (functionCall method (function? method args.length) (writeList args))
      result) : IsWritten (.call method args ty) result := by
    obtain ⟨function, texts, hf, htexts, rfl⟩ := h.functionCall
    obtain ⟨parts, rfl, rfl, hparts⟩ := parts_of_yields iha htexts
    rw [List.length_map] at hf
    exact ⟨_, .call ty hf hparts, (spell_callPieces ..).symm⟩
  rw [writePrec.eq_def] at h
  dsimp only at h
  split at h
  · next quantifier source rest hq =>
    obtain ⟨_, _, h⟩ := h.bind
    obtain ⟨path, hpath, h⟩ := h.bind
    obtain ⟨pieces, hw, ht⟩ := iha source List.mem_cons_self path hpath
    split at h
    · split at h
      · next hany =>
        obtain rfl := h.pure_eq
        rw [beq_iff_eq] at hany
        obtain rfl := quantifier?_eq_any (hany ▸ hq)
        refine ⟨_, .nonempty ty hw, ?_⟩
        simp [ht, Piece.text]
      · exact h.not_throw.elim
    · next param body _ _ =>
      obtain ⟨text, hbody, h⟩ := h.bind
      obtain rfl := h.pure_eq
      obtain ⟨inside, hwb, htb⟩ := ihbody [param] body (by simp) text hbody.withVariable
      refine ⟨_, .quantified ty hq hw hwb, ?_⟩
      simp [ht, htb, Piece.text, String.append_assoc]
    · exact h.not_throw.elim
  · next array item _ =>
    split at h
    · next items hm =>
      obtain ⟨values, operand, hv, ho, rfl⟩ := h.membership
      obtain ⟨pieces, hw, ht⟩ := iha item (by simp) operand ho
      refine ⟨_, .callIn ty hm hv hw, ?_⟩
      rw [spell_membershipPieces, ← ht]
    · exact hfunction h
  · exact hfunction h

/-- Whatever is written for an expression is the text of its pieces. -/
theorem written_of_yields {expr : Expr} {result : String × Precedence}
    (h : Yields (writePrec expr) result) : IsWritten expr result := by
  -- the body of a lambda is no subexpression of the call it is written in, but a node below it
  suffices hnodes : ∀ node ∈ expr.nodes, ∀ result, Yields (writePrec node) result →
      IsWritten node result from hnodes expr expr.self_mem_nodes result h
  clear h
  induction expr using Expr.induction_children with | node expr ih =>
  rw [Expr.forall_nodes]
  refine ⟨fun result h => ?_, ih⟩
  have hchild (child : Expr) (hc : child ∈ expr.children) :=
    ih child hc child child.self_mem_nodes
  cases expr with
  | constant value =>
    obtain ⟨text, ht, h⟩ := h.bind
    obtain rfl := h.pure_eq
    exact ⟨_, .constant ht.lift_eq, by simp [Piece.text]⟩
  | input ref =>
    obtain rfl := h.pure_eq
    exact ⟨_, .input ref, rfl⟩
  | parameter param =>
    obtain ⟨writer, _, h⟩ := h.bind
    split at h
    · obtain rfl := h.pure_eq
      exact ⟨_, .parameter param, by simp [Piece.text]⟩
    · exact h.not_throw.elim
  | member source name ty => exact isWritten_member (hchild source List.mem_cons_self) h
  | unary op operand ty => exact isWritten_unary (hchild operand List.mem_cons_self) h
  | binary op left right =>
    exact isWritten_binary (hchild left List.mem_cons_self)
      (hchild right (by simp [Expr.children])) h
  | invoke receiver method args ty =>
    exact isWritten_invoke (hchild receiver List.mem_cons_self)
      (fun arg ha => hchild arg (List.mem_cons_of_mem _ ha)) h
  | call method args ty =>
    refine isWritten_call (fun arg ha => hchild arg ha) (fun params body hm => ?_) h
    have hbody : body ∈ (Expr.lambda params body).children := List.mem_cons_self
    exact ih _ hm body (Expr.nodes_subset hbody body.self_mem_nodes)
  | _ => exact h.not_throw.elim

theorem written_of_yields_write {expr : Expr} {text : String} (h : Yields (write expr) text) :
    ∃ pieces precedence, Written expr pieces precedence ∧ text = spell pieces := by
  rw [write, ← bind_pure_comp] at h
  obtain ⟨result, hr, h⟩ := h.bind
  obtain rfl := h.pure_eq
  obtain ⟨pieces, hw, ht⟩ := written_of_yields hr
  exact ⟨pieces, _, hw, ht⟩

end ServiceQuery.Uri
