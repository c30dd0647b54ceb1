import ServiceQuery.Proofs.Monad
import ServiceQuery.Proofs.Text
import ServiceQuery.Proofs.Uri.Machine
import ServiceQuery.Proofs.Uri.Skeleton

/-!
# The text of an expression tells its skeleton

Parentheses are written exactly where the reader needs them: whatever operators are nested, the text
of an expression is read back as the expression, up to what the text leaves out.
-/

namespace ServiceQuery

namespace Uri

/-! ### What writing gives -/

/-- A result of writing, with some writer. -/
def Yields {α : Type} (step : WriteM α) (result : α) : Prop :=
  ∃ writer writer', step.run.run writer = (.ok result, writer')

namespace Yields

variable {α β : Type} {a b : α}

theorem bind {step : WriteM α} {next : α → WriteM β} {b : β} (h : Yields (step >>= next) b) :
    ∃ a, Yields step a ∧ Yields (next a) b := by
  obtain ⟨writer, writer', h⟩ := h
  rw [run_bind] at h
  rcases hs : step.run.run writer with ⟨e | a, writer₁⟩
  · rw [hs] at h
    cases h
  · rw [hs] at h
    exact ⟨a, ⟨writer, writer₁, hs⟩, writer₁, writer', h⟩

theorem pure_eq (h : Yields (pure a) b) : a = b := by
  obtain ⟨writer, writer', h⟩ := h
  cases h
  rfl

theorem lift_eq {x : Except CompileError α} (h : Yields (liftM x) a) : x = .ok a := by
  obtain ⟨writer, writer', h⟩ := h
  cases x with
  | ok b =>
    cases h
    rfl
  | error e => cases h

theorem not_throw {e : CompileError} (h : Yields (throw e) a) : False := by
  obtain ⟨writer, writer', h⟩ := h
  cases h

theorem functionCall {method : String} {function : Option String} {args : WriteM (List String)}
    {result : String × Precedence} (h : Yields (functionCall method function args) result) :
    ∃ name texts, function = some name ∧ Yields args texts ∧
      result = (name ++ "(" ++ Text.join "," texts ++ ")", .primary) := by
  cases function with
  | none => exact h.not_throw.elim
  | some name =>
    obtain ⟨texts, ht, h⟩ := h.bind
    exact ⟨name, texts, rfl, ht, h.pure_eq.symm⟩

end Yields

/-! ### Operands -/

/-- A left operand, in parentheses if it binds less tightly. -/
theorem reads_operandText_left {operand : String × Precedence} {expr : Expr}
    (h : Reads operand.1 operand.2 expr) (parent : Precedence) :
    Reads (operandText parent false operand) parent expr := by
  rw [operandText]
  split
  · exact h.group
  · next hp => exact h.mono (by simpa using hp)

theorem isLogical_iff (op : BinaryOp) :
    op.isLogical = true ↔ operatorPrecedence op ≤ Precedence.conjunction := by
  cases op <;> decide

/-- A right operand, which is in parentheses too if it binds as tightly as an operator that is
neither a conjunction nor a disjunction. -/
theorem reads_operandText_right {operand : String × Precedence} {expr : Expr}
    (h : Reads operand.1 operand.2 expr) (op : BinaryOp) :
    Reads (operandText (operatorPrecedence op) true operand) (rightLevel op) expr := by
  rw [operandText]
  split
  · exact h.group
  · next hp =>
    have hle : operatorPrecedence op ≤ operand.2 := Nat.le_of_not_lt fun hlt => hp (.inl hlt)
    refine h.mono ?_
    rw [rightLevel]
    split
    · exact hle
    · next hlog =>
      rw [isLogical_iff, Nat.not_le] at hlog
      exact Nat.lt_of_le_of_ne hle fun heq => hp (.inr ⟨rfl, heq.symm, hlog⟩)

/-! ### Literals and paths -/

theorem not_isDelimiter_of_isDigit {c : Char} (h : c.isDigit = true) : isDelimiter c = false := by
  rw [Bool.eq_false_iff]
  intro hd
  simp only [isDelimiter, Bool.or_eq_true, beq_iff_eq] at hd
  obtain ((((rfl | rfl) | rfl) | rfl) | rfl) | rfl := hd
  all_goals exact absurd h (by decide)

/-- The text of an integer that is not negative is a word of digits. -/
theorem isDigit_of_mem_toString {n : Int32} (hn : 0 ≤ n) {c : Char} (hc : c ∈ (toString n).toList) :
    c.isDigit = true := by
  rw [toList_toString hn] at hc
  exact Nat.isDigit_of_mem_toDigits (by decide) (by decide) hc

theorem reads_int32 {n : Int32} (hn : 0 ≤ n) {level : Precedence} :
    Reads (toString n) level (.constant (.int32 n)) := by
  have hdigits : (toString n).toList.all Char.isDigit = true :=
    List.all_eq_true.2 fun c hc => isDigit_of_mem_toString hn hc
  have hne : toString n ≠ "" := by
    intro h
    have hl := toList_toString hn
    rw [h] at hl
    exact Nat.toDigits_ne_nil hl.symm
  have hnot : toString n ≠ "not" := by
    intro h
    rw [h] at hdigits
    exact absurd hdigits (by decide)
  have hoperand : operandOf (toString n).toList = .constant (.int32 n) := by
    rw [operandOf, if_pos hdigits, readNumber_toString hn]
  rw [← hoperand]
  exact Reads.word hne
    (fun c hc => not_isDelimiter_of_isDigit (isDigit_of_mem_toString hn hc)) hnot

theorem reads_literal {value : Value} (hv : IsLiteral value) {text : String}
    (h : literal value = .ok text) {level : Precedence} : Reads text level (.constant value) := by
  cases hv with
  | null =>
    cases h
    exact Reads.word (by decide) (by simp [isDelimiter]) (by decide)
  | bool b =>
    cases b <;> cases h
    · exact Reads.word (by decide) (by simp [isDelimiter]) (by decide)
    · exact Reads.word (by decide) (by simp [isDelimiter]) (by decide)
  | int32 hn =>
    cases h
    exact reads_int32 hn
  | string value =>
    cases h
    exact Reads.quoted (quote_not_mem_encode _) (readString?_encode value)

theorem reads_literals {values : List Value} (hv : ∀ value ∈ values, IsLiteral value)
    {texts : List String} (h : Yields (values.mapM fun value => liftM (literal value)) texts) :
    List.Forall₂ (fun text value => Reads text 0 (.constant value)) texts values := by
  induction values generalizing texts with
  | nil =>
    obtain rfl := h.pure_eq
    exact .nil
  | cons value values ih =>
    rw [List.forall_mem_cons] at hv
    rw [List.mapM_cons] at h
    obtain ⟨text, ht, h⟩ := h.bind
    obtain ⟨rest, hr, h⟩ := h.bind
    obtain rfl := h.pure_eq
    exact .cons (reads_literal hv.1 ht.lift_eq) (ih hv.2 hr)

/-- A membership test is read back if its item is. -/
theorem reads_membership {items : List Value} (hi : ∀ value ∈ items, IsLiteral value)
    {item : WriteM (String × Precedence)} {expr : Expr}
    (ih : ∀ operand, Yields item operand → Reads operand.1 operand.2 expr)
    {result : String × Precedence} (h : Yields (membership items item) result) :
    Reads result.1 result.2 (expr.isIn items) := by
  obtain ⟨texts, ht, h⟩ := h.bind
  obtain ⟨operand, ho, h⟩ := h.bind
  obtain ⟨_, _, h⟩ := h.bind
  obtain rfl := h.pure_eq
  exact Reads.among (reads_operandText_left (ih operand ho) .relational) (reads_literals hi ht)

/-- A word that stands for a path. -/
structure IsPathText (text : String) (expr : Expr) : Prop where
  chars : ∀ c ∈ text.toList, isDelimiter c = false
  start : ∃ c rest, text.toList = c :: rest ∧ c.isDigit = false
  plain : text ∉ ["not", "null", "true", "false"]
  path : pathOf (Text.split (· == '/') text.toList) = expr

theorem IsPathText.reads {text : String} {expr : Expr} (h : IsPathText text expr)
    {level : Precedence} : Reads text level expr := by
  obtain ⟨hc, ⟨c, rest, hs, hdigit⟩, hplain, hpath⟩ := h
  simp only [List.mem_cons, List.not_mem_nil, or_false, not_or] at hplain
  obtain ⟨hnot, hnull, htrue, hfalse⟩ := hplain
  have hne : text ≠ "" := by
    rintro rfl
    cases hs
  have hoperand : operandOf text.toList = expr := by
    have hword {word : String} (h : text ≠ word) : text.toList ≠ word.toList :=
      fun heq => h (String.toList_injective heq)
    rw [operandOf, if_neg (by simp [hs, hdigit]), if_neg (hword hnull), if_neg (hword htrue),
      if_neg (hword hfalse), hpath]
  rw [← hoperand]
  exact Reads.word hne hc hnot

theorem pathOf_append {pieces : List (List Char)} (h : pieces ≠ []) (name : String) :
    pathOf (pieces ++ [name.toList]) = .member (pathOf pieces) name .object := by
  obtain ⟨piece, pieces, rfl⟩ := List.exists_cons_of_ne_nil h
  simp [pathOf]

theorem isPathText_input : IsPathText "$it" (.input ⟨0, .object⟩) where
  chars := by simp [isDelimiter]
  start := ⟨'$', ['i', 't'], by decide, by decide⟩
  plain := by decide
  path := rfl

theorem IsName.split {name : String} (h : IsName name) :
    Text.split (· == '/') name.toList = [name.toList] :=
  Text.split_of_forall fun c hc => by simp [(h.chars c hc).2]

theorem isPathText_name {name : String} (h : IsName name) :
    IsPathText name (.member (.input ⟨0, .object⟩) name .object) where
  chars c hc := (h.chars c hc).1
  start := h.start
  plain hm := h.plain (by
    simp only [List.mem_cons, List.not_mem_nil, or_false] at hm ⊢
    tauto)
  path := by
    have hit : name.toList ≠ "$it".toList := fun heq =>
      h.plain (String.toList_injective heq ▸ List.mem_cons_self)
    rw [h.split]
    simp only [pathOf, if_neg hit, List.foldl_nil, String.ofList_toList]

theorem IsPathText.append {text name : String} {expr : Expr} (h : IsPathText text expr)
    (hname : IsName name) : IsPathText (text ++ "/" ++ name) (.member expr name .object) where
  chars := by
    intro c hc
    have hc : c ∈ text.toList ∨ c = '/' ∨ c ∈ name.toList := by simpa using hc
    obtain hc | rfl | hc := hc
    · exact h.chars c hc
    · decide
    · exact (hname.chars c hc).1
  start := by
    obtain ⟨c, rest, hs, hdigit⟩ := h.start
    exact ⟨c, rest ++ '/' :: name.toList, by simp [hs], hdigit⟩
  plain := by
    -- no word has a slash
    intro hm
    have hslash : '/' ∈ (text ++ "/" ++ name).toList := by simp
    generalize text ++ "/" ++ name = word at hm hslash
    revert word
    decide
  path := by
    have htext : (text ++ "/" ++ name).toList = text.toList ++ '/' :: name.toList := by simp
    rw [htext, Text.split_append (by decide), hname.split, pathOf_append (Text.split_ne_nil _),
      h.path]

/-- A member is written by its name, after a slash if it is not one of the element itself. -/
theorem Yields.member {source : Expr} {name : String} {ty : Ty} {result : String × Precedence}
    (hname : IsName name) (h : Yields (writePrec (.member source name ty)) result) :
    (∃ ref, source = .input ref) ∧ result = (name, .primary) ∨
      ∃ operand, Yields (writePrec source) operand ∧
        result = (operand.1 ++ "/" ++ name, .primary) := by
  have hlength : name ≠ "Length" := by
    rintro rfl
    exact hname.plain (by decide)
  have hcount : name ≠ "Count" := by
    rintro rfl
    exact hname.plain (by decide)
  rw [writePrec.eq_def] at h
  dsimp only at h
  rw [if_neg (by simp [hlength]), if_neg (by simp [hcount])] at h
  split at h
  · exact .inl ⟨⟨_, rfl⟩, h.pure_eq.symm⟩
  · obtain ⟨_, _, h⟩ := h.bind
    obtain ⟨operand, ho, h⟩ := h.bind
    exact .inr ⟨operand, ho, h.pure_eq.symm⟩

theorem isPathText_of_yields {expr : Expr} (hp : IsMemberPath expr) {result : String × Precedence}
    (h : Yields (writePrec expr) result) :
    IsPathText result.1 expr.skeleton := by
  induction hp generalizing result with
  | input ref =>
    obtain rfl := h.pure_eq
    exact isPathText_input
  | @member source name ty _ hname ih =>
    obtain ⟨⟨ref, rfl⟩, rfl⟩ | ⟨operand, ho, rfl⟩ := h.member hname
    · exact isPathText_name hname
    · exact (ih ho).append hname
  | convert _ ih =>
    exact ih h

/-! ### Functions -/

/-- A function is read as the method with a receiver that it is written for. -/
theorem applied?_receiverFunction {method function : String} {args : List Expr}
    (h : receiverFunction? method args.length = some function) (receiver : Expr) :
    applied? function (receiver :: args) = some (.invoke receiver method args .object) := by
  generalize hn : args.length = n at h
  unfold receiverFunction? at h
  split at h
  all_goals cases h
  all_goals
    first
    | obtain rfl := List.length_eq_zero_iff.1 hn
    | obtain ⟨a, rfl⟩ := List.length_eq_one_iff.1 hn
    | obtain ⟨a, b, rfl⟩ := List.length_eq_two.1 hn
    rfl

/-- A function is read as the method without a receiver that it is written for. -/
theorem applied?_function {method function : String} {args : List Expr}
    (hm : method ∈ ["Round", "Floor", "Ceiling"])
    (h : function? method args.length = some function) :
    applied? function args = some (.call method args .object) := by
  generalize hn : args.length = n at h
  unfold function? at h
  split at h
  · exact absurd hm (by decide)
  all_goals cases h
  all_goals
    obtain ⟨a, rfl⟩ := List.length_eq_one_iff.1 hn
    rfl

/-- Constant arrays are no operands. -/
theorem membershipItems?_eq_none {expr : Expr} (h : Writable expr) (method : String) :
    membershipItems? method expr = none := by
  unfold membershipItems?
  split
  · split
    · obtain ⟨⟨⟩⟩ | ⟨⟨⟩⟩ := h
    · rfl
  · rfl

/-! ### Expressions -/

theorem writePrec_invoke {receiver : Expr} (h : Writable receiver) (method : String)
    (args : List Expr) (ty : Ty) :
    writePrec (.invoke receiver method args ty) =
      functionCall method (receiverFunction? method args.length) (do
        let operand ← writePrec receiver
        let args ← writeList args
        pure (operand.1 :: args)) := by
  rw [writePrec.eq_def]
  simp only [membershipItems?_eq_none h]

theorem writePrec_call {method : String} (hm : method ∈ ["Round", "Floor", "Ceiling"])
    (args : List Expr) (ty : Ty) :
    writePrec (.call method args ty) =
      functionCall method (function? method args.length) (writeList args) := by
  have hq : quantifier? method = none := by
    revert hm method
    decide
  have hc : method ≠ "Contains" := by
    rintro rfl
    exact absurd hm (by decide)
  have hitems (array : Expr) : membershipItems? method array = none := by
    unfold membershipItems?
    rw [if_neg (by simpa using hc)]
  rw [writePrec.eq_def]
  simp only [hq, hitems]
  split
  · next h => cases h
  · rfl
  · rfl

/-- The arguments of a function are read back if each is. -/
theorem reads_writeList {args : List Expr}
    (ih : ∀ arg ∈ args, ∀ result, Yields (writePrec arg) result →
      Reads result.1 result.2 arg.skeleton)
    {texts : List String} (h : Yields (writeList args) texts) :
    List.Forall₂ (fun text arg => Reads text 0 arg) texts (Expr.skeletons args) := by
  induction args generalizing texts with
  | nil =>
    obtain rfl := h.pure_eq
    rw [Expr.skeletons]
    exact .nil
  | cons arg args iha =>
    rw [List.forall_mem_cons] at ih
    obtain ⟨operand, ho, h⟩ := h.bind
    obtain ⟨rest, hr, h⟩ := h.bind
    obtain rfl := h.pure_eq
    rw [Expr.skeletons]
    exact .cons ((ih.1 operand ho).mono (Nat.zero_le _)) (iha ih.2 hr)

theorem length_skeletons (args : List Expr) : (Expr.skeletons args).length = args.length := by
  induction args with
  | nil => rfl
  | cons arg args ih => rw [Expr.skeletons, List.length_cons, ih, List.length_cons]

/-- What is written for an expression is read back as its skeleton. -/
theorem reads_of_yields {expr : Expr} (he : Writable expr) {result : String × Precedence}
    (h : Yields (writePrec expr) result) : Reads result.1 result.2 expr.skeleton := by
  -- the text of a node is a sequence of steps by definition, so that what it yields is taken apart
  -- without an equation for each kind of node
  induction he generalizing result with
  | @literal value hv =>
    have hs : (Expr.constant value).skeleton = .constant value := by cases hv <;> rfl
    obtain ⟨text, ht, h⟩ := h.bind
    obtain rfl := h.pure_eq
    rw [hs]
    exact reads_literal hv ht.lift_eq
  | path hp => exact (isPathText_of_yields hp h).reads
  | @unary op operand ty _ ih =>
    cases op with
    | convert =>
      exact ih h
    | not =>
      obtain ⟨operand, ho, h⟩ := h.bind
      obtain rfl := h.pure_eq
      exact (reads_operandText_left (ih ho) .unary).not
    | negate =>
      obtain ⟨operand, ho, h⟩ := h.bind
      obtain rfl := h.pure_eq
      exact (reads_operandText_left (ih ho) .unary).negate
  | @binary op left right _ _ numeric ihl ihr =>
    obtain ⟨first, hf, h⟩ := h.bind
    obtain ⟨second, hs, h⟩ := h.bind
    have hadd : (op == .add && (isString left || isString right)) = false := by
      by_cases hop : op = .add
      · simp [numeric hop]
      · simp [hop]
    rw [hadd, if_neg (by decide)] at h
    obtain rfl := h.pure_eq
    rw [Expr.skeleton]
    exact (reads_operandText_left (ihl hf) _).binary (reads_operandText_right (ihr hs) op)
  | @invoke receiver method args ty hr _ ihr iha =>
    rw [writePrec_invoke hr] at h
    obtain ⟨function, texts, hf, ht, rfl⟩ := h.functionCall
    obtain ⟨operand, ho, ht⟩ := ht.bind
    obtain ⟨rest, hrest, ht⟩ := ht.bind
    obtain rfl := ht.pure_eq
    rw [← length_skeletons] at hf
    have hargs := reads_writeList (fun arg harg result => iha arg harg) hrest
    rw [Expr.skeleton]
    exact Reads.call (.cons ((ihr ho).mono (Nat.zero_le _)) hargs)
      (applied?_receiverFunction hf receiver.skeleton)
  | @call method args ty rounds _ iha =>
    rw [writePrec_call rounds] at h
    obtain ⟨function, texts, hf, ht, rfl⟩ := h.functionCall
    rw [← length_skeletons] at hf
    have hargs := reads_writeList (fun arg harg result => iha arg harg) ht
    rw [Expr.skeleton]
    · exact Reads.call hargs (applied?_function rounds hf)
    · rintro element items item rfl
      exact absurd rounds (by decide)
  | @invokeContains element items item ty hi _ ih =>
    exact reads_membership hi (fun operand ho => ih ho) h
  | @callContains element items item ty hi _ ih =>
    exact reads_membership hi (fun operand ho => ih ho) h

theorem read?_of_yields {expr : Expr} (he : Writable expr) {text : String}
    (h : Yields (write expr) text) : read? text = some expr.skeleton := by
  rw [write, ← bind_pure_comp] at h
  obtain ⟨result, hr, h⟩ := h.bind
  obtain rfl := h.pure_eq
  exact (reads_of_yields he hr).read?_eq

namespace Sample

/-- A member of the element. -/
def field (name : String) (ty : Ty) : Expr := .member (.input ⟨3, .record []⟩) name ty

/-- The negative of what remains to be paid, doubled, is below ten. The difference on the right of a
difference needs its parentheses. -/
def remains : Expr :=
  .binary .lessThan
    (.binary .multiply
      (.unary .negate
        (.binary .subtract (field "Due" .int32)
          (.binary .subtract (field "Paid" .int32) (.constant (.int32 1)))) .int32)
      (.constant (.int32 2)))
    (.constant (.int32 10))

/-- The status is one of two, or the name of the customer does not contain a text. -/
def chosen : Expr :=
  .binary .orElse
    (.call "Contains" [.constant (.array .string [.string "new", .string "it's"]),
      .unary .convert (field "Status" .int32) .string] .bool)
    (.unary .not
      (.invoke (.invoke (.member (field "Customer" (.record [])) "Name" .string) "ToLower" []
        .string) "Contains" [.constant (.string "a b")] .bool) .bool)

/-- Three conditions, grouped to the right. -/
def dueOrders : Expr := .binary .andAlso remains (.binary .andAlso chosen (field "Open" .bool))

/-- The same conditions, grouped to the left. -/
def regrouped : Expr := .binary .andAlso (.binary .andAlso remains chosen) (field "Open" .bool)

def text : String :=
  "-(Due sub (Paid sub 1)) mul 2 lt 10 and (Status in ('new','it%27%27s') or " ++
    "not contains(tolower(Customer/Name),'a%20b')) and Open"

theorem writable_field {name : String} (h : IsName name) (ty : Ty) : Writable (field name ty) :=
  .path (.member (.input _) h)

theorem writable_remains : Writable remains := by
  have hdue : IsName "Due" := ⟨by simp [isDelimiter], ⟨_, _, rfl, by decide⟩, by decide⟩
  have hpaid : IsName "Paid" := ⟨by simp [isDelimiter], ⟨_, _, rfl, by decide⟩, by decide⟩
  have hint {n : Int32} (h : 0 ≤ n) : Writable (.constant (.int32 n)) := .literal (.int32 h)
  have hrest : Writable (.binary .subtract (field "Paid" .int32) (.constant (.int32 1))) :=
    .binary (writable_field hpaid _) (hint (by decide)) (by decide)
  refine .binary (.binary (.unary (.binary (writable_field hdue _) hrest ?_)) (hint ?_) ?_)
    (hint ?_) ?_
  all_goals decide

theorem writable_chosen : Writable chosen := by
  have hstatus : IsName "Status" := ⟨by simp [isDelimiter], ⟨_, _, rfl, by decide⟩, by decide⟩
  have hcustomer : IsName "Customer" := ⟨by simp [isDelimiter], ⟨_, _, rfl, by decide⟩, by decide⟩
  have hname : IsName "Name" := ⟨by simp [isDelimiter], ⟨_, _, rfl, by decide⟩, by decide⟩
  have hitems : ∀ value ∈ [Value.string "new", .string "it's"], IsLiteral value := by
    simp [IsLiteral.string]
  have hlower : Writable (.invoke (.member (field "Customer" (.record [])) "Name" .string)
      "ToLower" [] .string) :=
    .invoke (.path (.member (.member (.input _) hcustomer) hname)) (List.forall_mem_nil _)
  have hcontains : ∀ arg ∈ [Expr.constant (.string "a b")], Writable arg :=
    List.forall_mem_singleton.2 (.literal (.string _))
  exact .binary (.callContains hitems (.unary (writable_field hstatus _)))
    (.unary (.invoke hlower hcontains)) (by decide)

theorem writable_open : Writable (field "Open" .bool) :=
  writable_field ⟨by simp [isDelimiter], ⟨_, _, rfl, by decide⟩, by decide⟩ _

theorem writable_dueOrders : Writable dueOrders :=
  .binary writable_remains (.binary writable_chosen writable_open (by decide)) (by decide)

theorem writable_regrouped : Writable regrouped :=
  .binary (.binary writable_remains writable_chosen (by decide)) writable_open (by decide)

end Sample

/-- The text of an expression is read back as its skeleton, so that only expressions with the same
skeleton have the same text. -/
theorem read?_write {expr : Expr} (he : Writable expr) {writer writer' : Writer} {text : String}
    (h : (write expr).run.run writer = (.ok text, writer')) :
    read? text = some expr.skeleton ∧
      ∀ {other : Expr} {w w' : Writer}, Writable other →
        (write other).run.run w = (.ok text, w') → other.skeleton = expr.skeleton := by
  have hread : read? text = some expr.skeleton := read?_of_yields he ⟨writer, writer', h⟩
  refine ⟨hread, fun {other w w'} ho h' => ?_⟩
  have hother : read? text = some other.skeleton := read?_of_yields ho ⟨w, w', h'⟩
  exact Option.some.inj (hother.symm.trans hread)

theorem read?_write_dueOrders :
    Writable Sample.dueOrders ∧ Writable Sample.regrouped ∧
      (write Sample.dueOrders).run.run {} = (.ok Sample.text, ⟨[], .v401⟩) ∧
      (write Sample.regrouped).run.run {} = (.ok Sample.text, ⟨[], .v401⟩) ∧
      read? Sample.text = some Sample.dueOrders.skeleton ∧
      Sample.regrouped.skeleton = Sample.dueOrders.skeleton := by
  have hrun : (write Sample.dueOrders).run.run {} = (.ok Sample.text, ⟨[], .v401⟩) := by
    set_option maxRecDepth 4000 in rfl
  have hrun' : (write Sample.regrouped).run.run {} = (.ok Sample.text, ⟨[], .v401⟩) := by
    set_option maxRecDepth 4000 in rfl
  have hread := read?_write Sample.writable_dueOrders hrun
  exact ⟨Sample.writable_dueOrders, Sample.writable_regrouped, hrun, hrun', hread.1,
    hread.2 Sample.writable_regrouped hrun'⟩

end Uri

end ServiceQuery
