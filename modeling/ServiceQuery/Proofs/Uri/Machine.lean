import Mathlib.Data.List.Forall2
import ServiceQuery.Proofs.Traverse
import ServiceQuery.Proofs.Uri.Reader

/-!
# How texts are read

A text is read as an operand of a precedence if the machine, on any stack that leaves such an
operand whole, comes to a state that settles as the operand would. The lemmas say how texts that are
read are put together: in parentheses, after a sign, around an operator, as arguments and in lists.

## Main definitions

* `Uri.Fits`: a stack that leaves an operand of a precedence whole.
* `Uri.Shifts`, `Uri.Reads`: tokens and a text are read as an expression of a precedence.

## Main statements

* `Uri.settle_join`: settling the left operand first changes nothing.
* `Uri.Reads.group`, `Uri.Reads.not`, `Uri.Reads.negate`, `Uri.Reads.binary`, `Uri.Reads.call`,
  `Uri.Reads.among`: texts are put together.
* `Uri.Reads.read?_eq`: a text that is read is read from the start to the end.
-/

namespace ServiceQuery

namespace Expr

theorem joinLeft_of_ne {op : BinaryOp} {left right : Expr}
    (h : ∀ first second, right ≠ .binary op first second) :
    left.joinLeft op right = .binary op left right := by
  cases right with
  | binary inner first second =>
    rw [joinLeft, if_neg]
    rintro rfl
    exact h first second rfl
  | _ => rfl

/-- Operands that are joined to the left may be joined in any order. -/
theorem joinLeft_joinLeft (op : BinaryOp) (a b c : Expr) :
    (a.joinLeft op b).joinLeft op c = a.joinLeft op (b.joinLeft op c) := by
  induction c using induction_children with | node c ih =>
  by_cases hc : ∃ first second, c = .binary op first second
  · obtain ⟨first, second, rfl⟩ := hc
    simp only [joinLeft, if_true]
    rw [ih first List.mem_cons_self]
  · have hne : ∀ first second, c ≠ .binary op first second :=
      fun first second h => hc ⟨first, second, h⟩
    rw [joinLeft_of_ne hne, joinLeft_of_ne hne, joinLeft, if_pos rfl]

theorem join_join {op : BinaryOp} (h : op.isLogical = true) (a b c : Expr) :
    (a.join op b).join op c = a.join op (b.join op c) := by
  simp only [join, if_pos h]
  exact joinLeft_joinLeft op a b c

end Expr

namespace Uri

theorem run_append (first second : List Token) (state : State) :
    run (first ++ second) state = (run first state).bind (run second) :=
  List.foldlM_append

theorem run_cons (token : Token) (rest : List Token) (state : State) :
    run (token :: rest) state = (step state token).bind (run rest) :=
  List.foldlM_cons

/-! ### Stacks -/

theorem operatorPrecedence_lt (op : BinaryOp) : operatorPrecedence op < Precedence.unary := by
  cases op <;> decide

/-- Conjunctions and disjunctions are told apart from all operators by their precedence. -/
theorem eq_of_isLogical {op op' : BinaryOp} (h : op'.isLogical = true)
    (hp : operatorPrecedence op' = operatorPrecedence op) : op' = op := by
  revert h hp
  cases op' <;> cases op <;> decide

/-- The innermost operator binds less tightly than an operand of the level, or it is the same
conjunction or disjunction. -/
def Fits (level : Precedence) : List Frame → Prop
  | .unary _ :: _ => Precedence.unary ≤ level
  | .binary op _ :: stack =>
    operatorPrecedence op < level ∨
      operatorPrecedence op = level ∧ op.isLogical = true ∧ Fits level stack
  | _ => True

theorem Fits.mono {level level' : Precedence} (h : level ≤ level') {stack : List Frame}
    (hf : Fits level stack) : Fits level' stack := by
  induction stack with
  | nil => trivial
  | cons frame stack ih =>
    cases frame with
    | unary op => exact Nat.le_trans hf h
    | binary op left =>
      obtain hlt | ⟨heq, hl, hf⟩ := hf
      · exact .inl (Nat.lt_of_lt_of_le hlt h)
      · obtain heq' | hlt := Nat.eq_or_lt_of_le h
        · exact .inr ⟨heq.trans heq', hl, ih hf⟩
        · exact .inl (heq ▸ hlt)
    | _ => trivial

theorem settle_unary {level : Precedence} (h : level ≤ .unary) (op : UnaryOp)
    (stack : List Frame) (expr : Expr) :
    settle level (.unary op :: stack) expr = settle level stack (.unary op expr .object) := by
  rw [settle, if_pos h]

theorem settle_binary {op : BinaryOp} {level : Precedence} (h : level ≤ operatorPrecedence op)
    (left : Expr) (stack : List Frame) (expr : Expr) :
    settle level (.binary op left :: stack) expr = settle level stack (left.join op expr) := by
  rw [settle, if_pos h]

theorem settle_of_lt {op : BinaryOp} {level : Precedence} (h : operatorPrecedence op < level)
    (left : Expr) (stack : List Frame) (expr : Expr) :
    settle level (.binary op left :: stack) expr = (.binary op left :: stack, expr) := by
  rw [settle, if_neg (Nat.not_le.2 h)]

/-- What an operator of a fitting stack can be: looser than the new one, or the same. -/
theorem Fits.binary_cases {op op' : BinaryOp} {left : Expr} {stack : List Frame}
    (hf : Fits (operatorPrecedence op) (.binary op' left :: stack)) :
    operatorPrecedence op' < operatorPrecedence op ∨
      op' = op ∧ op.isLogical = true ∧ Fits (operatorPrecedence op) stack := by
  obtain hlt | ⟨heq, hl, hf⟩ := hf
  · exact .inl hlt
  · have hop := eq_of_isLogical hl heq
    exact .inr ⟨hop, hop ▸ hl, hf⟩

theorem Fits.not_unary {op : BinaryOp} {op' : UnaryOp} {stack : List Frame}
    (hf : Fits (operatorPrecedence op) (.unary op' :: stack)) : False :=
  Nat.not_le.2 (operatorPrecedence_lt op) hf

/-- Settling for an operator leaves a stack that its right operand fits on. -/
theorem Fits.settle {op : BinaryOp} {stack : List Frame} (hf : Fits (operatorPrecedence op) stack)
    (expr : Expr) : Fits (operatorPrecedence op) (settle (operatorPrecedence op) stack expr).1 := by
  induction stack generalizing expr with
  | nil => trivial
  | cons frame stack ih =>
    cases frame with
    | unary op' => exact hf.not_unary.elim
    | binary op' left =>
      obtain hlt | ⟨rfl, -, hf⟩ := hf.binary_cases
      · rw [settle_of_lt hlt]
        exact .inl hlt
      · rw [settle_binary (Nat.le_refl _)]
        exact ih hf _
    | _ => trivial

/-- Settling the left operand of an operator first changes nothing: on a fitting stack only the same
conjunction or disjunction is settled, and its operands may be joined in any order. -/
theorem settle_join {op : BinaryOp} {stack : List Frame} (hf : Fits (operatorPrecedence op) stack)
    (left right : Expr) {level : Precedence} (hl : level ≤ operatorPrecedence op) :
    settle level (settle (operatorPrecedence op) stack left).1
        ((settle (operatorPrecedence op) stack left).2.join op right) =
      settle level stack (left.join op right) := by
  induction stack generalizing left with
  | nil => rfl
  | cons frame stack ih =>
    cases frame with
    | unary op' => exact hf.not_unary.elim
    | binary op' first =>
      obtain hlt | ⟨rfl, hlog, hf⟩ := hf.binary_cases
      · rw [settle_of_lt hlt]
      · rw [settle_binary (Nat.le_refl _), ih hf, Expr.join_join hlog, settle_binary hl]
    | _ => rfl

/-- Operators other than conjunctions and disjunctions settle nothing on a fitting stack. -/
theorem settle_of_fits (op : BinaryOp) (h : op.isLogical = false) {stack : List Frame}
    (hf : Fits (operatorPrecedence op) stack) (expr : Expr) :
    settle (operatorPrecedence op) stack expr = (stack, expr) := by
  match stack with
  | .unary _ :: _ => exact hf.not_unary.elim
  | .binary op' left :: stack =>
    obtain hlt | ⟨-, hlog, -⟩ := hf.binary_cases
    · exact settle_of_lt hlt left stack expr
    · exact absurd hlog (by simp [h])
  | [] | .group :: _ | .call .. :: _ | .among .. :: _ => rfl

/-! ### Tokens -/

/-- What may follow an expression: nothing, or a character that ends words and opens nothing. -/
def Delimited : List Char → Prop
  | [] => True
  | c :: _ => c = ' ' ∨ c = ')' ∨ c = ','

/-- The tokens of a text, whatever may follow it. -/
def Scans (text : String) (tokens : List Token) : Prop :=
  ∀ rest, Delimited rest → scan [] (text.toList ++ rest) = tokens ++ scan [] rest

theorem scan_cons {c : Char} (h : isDelimiter c = false) (word rest : List Char) :
    scan word (c :: rest) = scan (word ++ [c]) rest := by
  simp only [isDelimiter, Bool.or_eq_false_iff, beq_eq_false_iff_ne] at h
  obtain ⟨⟨⟨⟨⟨hspace, hopened⟩, hclosed⟩, hcomma⟩, hquote⟩, hminus⟩ := h
  rw [scan, if_neg hopened, if_neg hclosed, if_neg hcomma, if_neg hminus, if_neg hquote,
    if_neg hspace]

theorem scan_append {chars : List Char} (hc : ∀ c ∈ chars, isDelimiter c = false)
    (word rest : List Char) : scan word (chars ++ rest) = scan (word ++ chars) rest := by
  induction chars generalizing word with
  | nil => simp
  | cons c chars ih =>
    have hcs : ∀ d ∈ chars, isDelimiter d = false := fun d h => hc d (List.mem_cons_of_mem c h)
    rw [List.cons_append, scan_cons (hc c List.mem_cons_self), ih hcs, List.append_assoc,
      List.singleton_append]

theorem scanQuoted_append {chars : List Char} (hc : '\'' ∉ chars) (content rest : List Char) :
    scanQuoted content (chars ++ '\'' :: rest) = .quoted (content ++ chars) :: scan [] rest := by
  induction chars generalizing content with
  | nil => rw [List.append_nil, List.nil_append, scanQuoted, if_pos rfl]
  | cons c chars ih =>
    rw [List.mem_cons, not_or] at hc
    rw [List.cons_append, scanQuoted, if_neg (Ne.symm hc.1), ih hc.2, List.append_assoc,
      List.singleton_append]

theorem scan_delimited {rest : List Char} (h : Delimited rest) (word : List Char) :
    scan word rest = wordToken word ++ scan [] rest := by
  cases rest with
  | nil => exact (List.append_nil _).symm
  | cons c rest =>
    obtain rfl | rfl | rfl := h
    all_goals rfl

theorem scan_space (rest : List Char) : scan [] (' ' :: rest) = scan [] rest :=
  rfl

theorem scan_comma (rest : List Char) : scan [] (',' :: rest) = .comma :: scan [] rest :=
  rfl

theorem scan_closed (rest : List Char) : scan [] (')' :: rest) = .closed :: scan [] rest :=
  rfl

theorem scan_minus (rest : List Char) : scan [] ('-' :: rest) = .minus :: scan [] rest :=
  rfl

theorem scan_quote (rest : List Char) : scan [] ('\'' :: rest) = scanQuoted [] rest :=
  rfl

theorem scan_opened (word rest : List Char) :
    scan word ('(' :: rest) =
      (if word.isEmpty then .opened else .function word) :: scan [] rest :=
  rfl

namespace Scans

variable {text first second : String} {tokens tokens₁ tokens₂ : List Token}

theorem empty : Scans "" [] := fun _ _ => rfl

theorem word (hne : text ≠ "") (hc : ∀ c ∈ text.toList, isDelimiter c = false) :
    Scans text [.word text.toList] := by
  intro rest hr
  have hw : text.toList.isEmpty = false := by simpa using hne
  rw [scan_append hc, List.nil_append, scan_delimited hr, wordToken, hw]
  rfl

theorem quoted (hc : '\'' ∉ text.toList) : Scans ("'" ++ text ++ "'") [.quoted text.toList] := by
  intro rest _
  have hs : ("'" ++ text ++ "'").toList ++ rest = '\'' :: (text.toList ++ '\'' :: rest) := by simp
  rw [hs, scan_quote]
  exact scanQuoted_append hc [] rest

theorem minus (h : Scans text tokens) : Scans ("-" ++ text) (.minus :: tokens) := by
  intro rest hr
  have hs : ("-" ++ text).toList ++ rest = '-' :: (text.toList ++ rest) := by simp
  rw [hs, scan_minus, h rest hr, List.cons_append]

theorem spaced (h₁ : Scans first tokens₁) (h₂ : Scans second tokens₂) :
    Scans (first ++ " " ++ second) (tokens₁ ++ tokens₂) := by
  intro rest hr
  have hs : (first ++ " " ++ second).toList ++ rest =
      first.toList ++ ' ' :: (second.toList ++ rest) := by simp
  rw [hs, h₁ (' ' :: _) (.inl rfl), scan_space, h₂ rest hr, List.append_assoc]

theorem separated (h₁ : Scans first tokens₁) (h₂ : Scans second tokens₂) :
    Scans (first ++ "," ++ second) (tokens₁ ++ .comma :: tokens₂) := by
  intro rest hr
  have hs : (first ++ "," ++ second).toList ++ rest =
      first.toList ++ ',' :: (second.toList ++ rest) := by simp
  rw [hs, h₁ (',' :: _) (.inr (.inr rfl)), scan_comma, h₂ rest hr, List.append_assoc,
    List.cons_append]

theorem function (name : String) (hc : ∀ c ∈ name.toList, isDelimiter c = false)
    (h : Scans text tokens) :
    Scans (name ++ "(" ++ text ++ ")")
      ((if name.toList.isEmpty then .opened else .function name.toList) ::
        (tokens ++ [.closed])) := by
  intro rest _
  have hs : (name ++ "(" ++ text ++ ")").toList ++ rest =
      name.toList ++ '(' :: (text.toList ++ ')' :: rest) := by simp
  rw [hs, scan_append hc, List.nil_append, scan_opened, h (')' :: rest) (.inr (.inl rfl)),
    scan_closed]
  simp

theorem group (h : Scans text tokens) :
    Scans ("(" ++ text ++ ")") (.opened :: (tokens ++ [.closed])) := by
  simpa using function "" (by simp) h

end Scans

/-! ### Operands -/

/-- On a stack that leaves an operand of the level whole, the tokens bring the machine to a state
that settles as if the expression had been read at once. -/
def Shifts (tokens : List Token) (level : Precedence) (expr : Expr) : Prop :=
  ∀ stack, Fits level stack → ∃ stack' expr',
    run tokens (stack, .operand) = some (stack', .after expr') ∧
      ∀ k ≤ level, settle k stack' expr' = settle k stack expr

/-- The level of an operand on the right: only conjunctions and disjunctions take one of their own
precedence. -/
def rightLevel (op : BinaryOp) : Precedence :=
  if op.isLogical then operatorPrecedence op else operatorPrecedence op + 1

theorem operatorPrecedence_le_rightLevel (op : BinaryOp) :
    operatorPrecedence op ≤ rightLevel op := by
  cases op <;> decide

theorem Fits.right {op : BinaryOp} {stack : List Frame} (hf : Fits (operatorPrecedence op) stack)
    (left : Expr) : Fits (rightLevel op) (.binary op left :: stack) := by
  by_cases h : op.isLogical = true
  · rw [rightLevel, if_pos h]
    exact .inr ⟨rfl, h, hf⟩
  · rw [rightLevel, if_neg h]
    exact .inl (Nat.lt_succ_self _)

theorem operator?_operatorWord (op : BinaryOp) : operator? (operatorWord op).toList = some op := by
  cases op <;> decide

theorem operatorWord_ne_in (op : BinaryOp) : (operatorWord op).toList ≠ "in".toList := by
  cases op <;> decide

/-- The word of an operator settles its left operand. -/
theorem stepAfter_operatorWord (op : BinaryOp) (stack : List Frame) (expr : Expr) :
    stepAfter stack expr (.word (operatorWord op).toList) =
      some (.binary op (settle (operatorPrecedence op) stack expr).2 ::
        (settle (operatorPrecedence op) stack expr).1, .operand) := by
  rw [stepAfter, if_neg (operatorWord_ne_in op), operator?_operatorWord]
  rfl

/-- A frame that takes operands with commas between them, up to a closing parenthesis. -/
structure Collects {α : Type} (frame : List α → Frame) (operand : α → Expr)
    (result : List α → Option Expr) : Prop where
  fits : ∀ taken stack, Fits 0 (frame taken :: stack)
  settled : ∀ taken stack expr, settle 0 (frame taken :: stack) expr = (frame taken :: stack, expr)
  comma : ∀ {taken stack stack' item expr},
    settle 0 stack expr = (frame taken :: stack', operand item) →
    stepAfter stack expr .comma = some (frame (taken ++ [item]) :: stack', .operand)
  closed : ∀ {taken stack stack' item expr},
    settle 0 stack expr = (frame taken :: stack', operand item) →
    stepAfter stack expr .closed =
      (result (taken ++ [item])).map fun whole => (stack', .after whole)

theorem collects_call (function : String) :
    Collects (.call function) id (applied? function) where
  fits _ _ := trivial
  settled _ _ _ := rfl
  comma h := by simp only [stepAfter, h, id]
  closed h := by simp only [stepAfter, h, id]

theorem collects_among (item : Expr) :
    Collects (.among item) .constant (fun values => some (item.isIn values)) where
  fits _ _ := trivial
  settled _ _ _ := rfl
  comma h := by simp only [stepAfter, h]
  closed h := by simp only [stepAfter, h, Option.map_some]

namespace Shifts

variable {tokens tokens₁ tokens₂ : List Token} {level : Precedence} {expr left right : Expr}

theorem mono {k : Precedence} (hk : k ≤ level) (h : Shifts tokens level expr) :
    Shifts tokens k expr := by
  intro stack hf
  obtain ⟨stack', expr', hrun, hs⟩ := h stack (hf.mono hk)
  exact ⟨stack', expr', hrun, fun j hj => hs j (Nat.le_trans hj hk)⟩

/-- A token that is an operand by itself. -/
theorem single {token : Token}
    (h : ∀ stack, stepOperand stack token = some (stack, .after expr)) :
    Shifts [token] level expr := by
  intro stack _
  refine ⟨stack, expr, ?_, fun _ _ => rfl⟩
  rw [run_cons, step, h]
  rfl

theorem unary {op : UnaryOp} {token : Token}
    (ht : ∀ stack, stepOperand stack token = some (.unary op :: stack, .operand))
    (h : Shifts tokens .unary expr) :
    Shifts (token :: tokens) .unary (.unary op expr .object) := by
  intro stack _
  obtain ⟨stack', expr', hrun, hs⟩ := h (.unary op :: stack) (Nat.le_refl _)
  refine ⟨stack', expr', ?_, fun k hk => ?_⟩
  · rw [run_cons, step, ht]
    exact hrun
  · rw [hs k hk, settle_unary hk]

theorem binary {op : BinaryOp} (hl : Shifts tokens₁ (operatorPrecedence op) left)
    (hr : Shifts tokens₂ (rightLevel op) right) :
    Shifts (tokens₁ ++ .word (operatorWord op).toList :: tokens₂) (operatorPrecedence op)
      (left.join op right) := by
  intro stack hf
  obtain ⟨stack₁, left', hrun₁, hs₁⟩ := hl stack hf
  -- after the operator the stack is the settled one, whatever the left operand has left on it
  have hsettled := hs₁ (operatorPrecedence op) (Nat.le_refl _)
  obtain ⟨stack₂, right', hrun₂, hs₂⟩ := hr _
    ((hf.settle left).right (settle (operatorPrecedence op) stack left).2)
  refine ⟨stack₂, right', ?_, fun k hk => ?_⟩
  · rw [run_append, hrun₁, Option.bind_some, run_cons, step, stepAfter_operatorWord, hsettled]
    exact hrun₂
  · rw [hs₂ k (Nat.le_trans hk (operatorPrecedence_le_rightLevel op)), settle_binary hk,
      settle_join hf left right hk]

theorem group (h : Shifts tokens 0 expr) :
    Shifts (.opened :: (tokens ++ [.closed])) level expr := by
  intro stack _
  obtain ⟨stack', expr', hrun, hs⟩ := h (.group :: stack) trivial
  refine ⟨stack, expr, ?_, fun _ _ => rfl⟩
  have hsettled : settle 0 stack' expr' = (.group :: stack, expr) := hs 0 (Nat.le_refl _)
  rw [run_cons, step, stepOperand, Option.bind_some, run_append, hrun, Option.bind_some, run_cons,
    step, stepAfter, hsettled]
  rfl

end Shifts

/-- A text that is read as an expression, as an operand of a precedence. -/
def Reads (text : String) (level : Precedence) (expr : Expr) : Prop :=
  ∃ tokens, Scans text tokens ∧ Shifts tokens level expr

/-- The texts of operands with commas between them are read one after another. -/
theorem Collects.run_join {α : Type} {frame : List α → Frame} {operand : α → Expr}
    {result : List α → Option Expr} (hc : Collects frame operand result) {texts : List String}
    {items : List α} (h : List.Forall₂ (fun text item => Reads text 0 (operand item)) texts items)
    (hne : items ≠ []) :
    ∃ tokens, Scans (Text.join "," texts) tokens ∧ ∀ taken stack,
      run (tokens ++ [.closed]) (frame taken :: stack, .operand) =
        (result (taken ++ items)).map fun whole => (stack, .after whole) := by
  induction h with
  | nil => exact absurd rfl hne
  | @cons text item texts items hitem hrest ih =>
    obtain ⟨tokens, hscan, hshift⟩ := hitem
    -- the state after the first operand, before a comma or the closing parenthesis
    have hfirst : ∀ taken stack, ∃ stack' expr',
        run tokens (frame taken :: stack, .operand) = some (stack', .after expr') ∧
          settle 0 stack' expr' = (frame taken :: stack, operand item) := by
      intro taken stack
      obtain ⟨stack', expr', hrun, hs⟩ := hshift _ (hc.fits taken stack)
      exact ⟨stack', expr', hrun, (hs 0 (Nat.le_refl _)).trans (hc.settled taken stack _)⟩
    cases hrest with
    | nil =>
      refine ⟨tokens, by simpa [Text.join] using hscan, fun taken stack => ?_⟩
      obtain ⟨stack', expr', hrun, hs⟩ := hfirst taken stack
      rw [run_append, hrun, Option.bind_some, run_cons, step, hc.closed hs]
      cases result (taken ++ [item]) <;> rfl
    | @cons text' item' texts items hitem' hrest =>
      obtain ⟨tokens', hscan', hrun'⟩ := ih (List.cons_ne_nil _ _)
      refine ⟨tokens ++ .comma :: tokens', ?_, fun taken stack => ?_⟩
      · rw [Text.join, String.intercalate_cons_cons]
        exact hscan.separated hscan'
      · obtain ⟨stack', expr', hrun, hs⟩ := hfirst taken stack
        rw [List.append_assoc, run_append, hrun, Option.bind_some, List.cons_append, run_cons, step,
          hc.comma hs, Option.bind_some, hrun', List.append_assoc, List.singleton_append]

/-- Functions take arguments, and their names are words. -/
theorem applied?_eq_some {function : String} {args : List Expr} {expr : Expr}
    (h : applied? function args = some expr) :
    args ≠ [] ∧ function.toList.isEmpty = false ∧
      ∀ c ∈ function.toList, isDelimiter c = false := by
  unfold applied? at h
  split at h
  all_goals first
    | exact ⟨List.cons_ne_nil _ _, by decide, by simp [isDelimiter]⟩
    | cases h

/-- The values of a list are read up to its end; there may be none. -/
theorem run_values (item : Expr) {texts : List String} {values : List Value}
    (h : List.Forall₂ (fun text value => Reads text 0 (.constant value)) texts values) :
    ∃ tokens, Scans (Text.join "," texts) tokens ∧ ∀ stack,
      run (tokens ++ [.closed]) (.among item [] :: stack, .operand) =
        some (stack, .after (item.isIn values)) := by
  by_cases hne : values = []
  · subst hne
    obtain rfl := List.forall₂_nil_right_iff.1 h
    exact ⟨[], Scans.empty, fun _ => rfl⟩
  · obtain ⟨tokens, hscan, hrun⟩ := (collects_among item).run_join h hne
    exact ⟨tokens, hscan, fun stack => hrun [] stack⟩

namespace Reads

variable {text first second : String} {level : Precedence} {expr left right : Expr}

theorem mono {k : Precedence} (hk : k ≤ level) (h : Reads text level expr) : Reads text k expr := by
  obtain ⟨tokens, hscan, hshift⟩ := h
  exact ⟨tokens, hscan, hshift.mono hk⟩

theorem word (hne : text ≠ "") (hc : ∀ c ∈ text.toList, isDelimiter c = false)
    (hnot : text ≠ "not") : Reads text level (operandOf text.toList) := by
  refine ⟨_, Scans.word hne hc, Shifts.single fun stack => ?_⟩
  rw [stepOperand, if_neg (fun h => hnot (String.toList_injective h))]

theorem quoted {value : String} (hc : '\'' ∉ text.toList)
    (h : readString? text.toList = some value) :
    Reads ("'" ++ text ++ "'") level (.constant (.string value)) := by
  refine ⟨_, Scans.quoted hc, Shifts.single fun stack => ?_⟩
  rw [stepOperand, h]
  rfl

theorem group (h : Reads text level expr) {k : Precedence} : Reads ("(" ++ text ++ ")") k expr := by
  obtain ⟨tokens, hscan, hshift⟩ := h
  exact ⟨_, hscan.group, (hshift.mono (Nat.zero_le _)).group⟩

theorem not (h : Reads text .unary expr) :
    Reads ("not " ++ text) .unary (.unary .not expr .object) := by
  obtain ⟨tokens, hscan, hshift⟩ := h
  have hword : Scans "not" [.word "not".toList] := Scans.word (by decide) (by simp [isDelimiter])
  exact ⟨_, hword.spaced hscan, hshift.unary fun _ => rfl⟩

theorem negate (h : Reads text .unary expr) :
    Reads ("-" ++ text) .unary (.unary .negate expr .object) := by
  obtain ⟨tokens, hscan, hshift⟩ := h
  exact ⟨_, hscan.minus, hshift.unary fun _ => rfl⟩

theorem binary {op : BinaryOp} (hl : Reads first (operatorPrecedence op) left)
    (hr : Reads second (rightLevel op) right) :
    Reads (first ++ " " ++ operatorWord op ++ " " ++ second) (operatorPrecedence op)
      (left.join op right) := by
  obtain ⟨tokens₁, hscan₁, hshift₁⟩ := hl
  obtain ⟨tokens₂, hscan₂, hshift₂⟩ := hr
  have hword : Scans (operatorWord op) [.word (operatorWord op).toList] := by
    refine Scans.word ?_ ?_
    · cases op <;> decide
    · cases op <;> simp [operatorWord, isDelimiter]
  refine ⟨_, (hscan₁.spaced hword).spaced hscan₂, ?_⟩
  rw [List.append_assoc, List.singleton_append]
  exact hshift₁.binary hshift₂

/-- A function with the texts of its arguments. -/
theorem call {function : String} {texts : List String} {args : List Expr}
    (h : List.Forall₂ (fun text arg => Reads text 0 arg) texts args)
    (happ : applied? function args = some expr) :
    Reads (function ++ "(" ++ Text.join "," texts ++ ")") level expr := by
  obtain ⟨hargs, hne, hc⟩ := applied?_eq_some happ
  obtain ⟨tokens, hscan, hrun⟩ := (collects_call function).run_join h hargs
  refine ⟨_, hscan.function function hc, fun stack _ => ⟨stack, expr, ?_, fun _ _ => rfl⟩⟩
  rw [hne, if_neg (by decide), run_cons, step, stepOperand, Option.bind_some, String.ofList_toList,
    hrun, List.nil_append, happ]
  rfl

/-- A test whether an item is among values. -/
theorem among {texts : List String} {values : List Value} (hi : Reads text .relational expr)
    (h : List.Forall₂ (fun text value => Reads text 0 (.constant value)) texts values) :
    Reads (text ++ " in (" ++ Text.join "," texts ++ ")") .relational (expr.isIn values) := by
  obtain ⟨tokens, hscan, hshift⟩ := hi
  obtain ⟨listed, hlist, hrunList⟩ := run_values expr h
  have hin : Scans "in" [.word "in".toList] := Scans.word (by decide) (by simp [isDelimiter])
  have htext : text ++ " in (" ++ Text.join "," texts ++ ")" =
      text ++ " " ++ "in" ++ " " ++ ("(" ++ Text.join "," texts ++ ")") := by
    have hopened : " in (" = " " ++ "in" ++ " " ++ "(" := by decide
    simp only [hopened, String.append_assoc]
  rw [htext]
  refine ⟨_, (hscan.spaced hin).spaced hlist.group, fun stack hf => ?_⟩
  obtain ⟨stack', expr', hrun, hs⟩ := hshift stack hf
  have hsettled : settle .relational stack' expr' = (stack, expr) :=
    (hs _ (Nat.le_refl _)).trans (settle_of_fits .lessThan rfl hf expr)
  refine ⟨stack, expr.isIn values, ?_, fun _ _ => rfl⟩
  rw [List.append_assoc, run_append, hrun, Option.bind_some, List.singleton_append, run_cons, step,
    stepAfter, if_pos rfl, hsettled]
  exact hrunList stack

/-- A text that is read is read from its start to its end. -/
theorem read?_eq (h : Reads text level expr) : read? text = some expr := by
  obtain ⟨tokens, hscan, hshift⟩ := h
  obtain ⟨stack', expr', hrun, hs⟩ := hshift [] trivial
  have hscan : scan [] text.toList = tokens := by
    have h := hscan [] trivial
    rw [List.append_nil] at h
    exact h.trans (List.append_nil tokens)
  have hsettled : settle 0 stack' expr' = ([], expr) := hs 0 (Nat.zero_le _)
  rw [read?, hscan, hrun]
  simp only [hsettled]

end Reads

end Uri

end ServiceQuery
