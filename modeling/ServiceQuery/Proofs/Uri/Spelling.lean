import ServiceQuery.Proofs.Monad
import ServiceQuery.Proofs.Uri.Pieces
import ServiceQuery.Uri.Request

/-!
# What a text is made of

The text of a path or of an option is put together from words of the protocol, from names, and from
data: numbers, and strings that are encoded. A property of texts that is kept when texts are put
together holds of all that is written if it holds of the words, of data and of the names.

## Main definitions

* `Uri.IsData`: a text with the characters of data.
* `Expr.names`, `Apply.names`, `SequenceOption.names`, `Resource.segmentNames`: the names that are
  written.
* `Uri.Gives`: what holds of whatever a step gives.
* `Uri.Spelling`: a property of texts that is kept when they are put together, and holds of words
  and of data.

## Main statements

* `Uri.isData_literal`: the text of a value is data.
* `Uri.Spelling.written`: the property holds of the text of an expression if it does of its names.
* `Uri.Spelling.path`, `Uri.Spelling.gives_applyText`, `Uri.Spelling.gives_selectors`: the same for
  paths and options.
* `Uri.ofChain_ok`: an address is put together from a path and options.
-/

namespace ServiceQuery

namespace Uri

/-! ### Data -/

/-- The characters of data. -/
def isDataChar (c : Char) : Bool := Percent.isUnreserved c || c == '%' || c == '\''

/-- A text with the characters of data. -/
def IsData (text : String) : Prop := ∀ c ∈ text.toList, isDataChar c = true

instance (text : String) : Decidable (IsData text) :=
  decidable_of_iff (text.toList.all isDataChar = true) List.all_eq_true

theorem isData_append {first second : String} :
    IsData (first ++ second) ↔ IsData first ∧ IsData second := by
  simp only [IsData, String.toList_append, List.forall_mem_append]

theorem isData_ofList {chars : List Char} :
    IsData (String.ofList chars) ↔ ∀ c ∈ chars, isDataChar c = true := by
  rw [IsData, String.toList_ofList]

theorem isDataChar_of_isUnreserved {c : Char} (h : Percent.isUnreserved c = true) :
    isDataChar c = true := by
  simp [isDataChar, h]

theorem isDataChar_of_mem_toDigits {n : Nat} {c : Char} (h : c ∈ Nat.toDigits 10 n) :
    isDataChar c = true := by
  have hd : c.isDigit = true := Nat.isDigit_of_mem_toDigits (by decide) (by decide) h
  exact isDataChar_of_isUnreserved (by simp [Percent.isUnreserved, Char.isAlphanum, hd])

theorem isData_nat (n : Nat) : IsData (toString n) := by
  intro c hc
  exact isDataChar_of_mem_toDigits (Nat.toList_repr ▸ hc)

theorem isData_int (n : Int) : IsData (toString n) := by
  cases n with
  | ofNat n => exact isData_nat n
  | negSucc n =>
    have ht : toString (Int.negSucc n) = "-" ++ toString (n + 1) := rfl
    rw [ht, isData_append]
    exact ⟨by decide, isData_nat (n + 1)⟩

theorem isData_encode (text : String) : IsData (Percent.encode text) := by
  intro c hc
  obtain rfl | h := Percent.mem_encode hc
  · decide
  · exact isDataChar_of_isUnreserved h

theorem isDataChar_of_mem_positional {n : Nat} {power : Int} {c : Char}
    (h : c ∈ Number.positional n power) : isDataChar c = true := by
  have hdigit {c : Char} (h : c ∈ Number.natDigits n) : isDataChar c = true :=
    isDataChar_of_mem_toDigits h
  rw [Number.positional.eq_def] at h
  dsimp only at h
  split at h
  · split at h
    · exact hdigit h
    · obtain h | h := List.mem_append.1 h
      · exact hdigit h
      · rw [List.eq_of_mem_replicate h]
        decide
  · split at h
    · -- the point stands among the digits
      obtain h | h := List.mem_append.1 h
      · exact hdigit (List.mem_of_mem_take h)
      · obtain rfl | h := List.mem_cons.1 h
        · decide
        · exact hdigit (List.mem_of_mem_drop h)
    · -- or before them, after a zero
      simp only [List.cons_append, List.mem_cons, List.mem_append, List.mem_replicate] at h
      obtain rfl | rfl | ⟨-, rfl⟩ | h := h
      · decide
      · decide
      · decide
      · exact hdigit h

theorem isData_floatLiteral (x : Float) : IsData (floatLiteral x) := by
  have hnonFinite (isNaN negative : Bool) : IsData (Number.nonFiniteText isNaN negative) := by
    cases isNaN <;> cases negative <;> decide
  have htext : IsData (Number.float64Text x) := by
    rw [Number.float64Text]
    split
    · exact hnonFinite _ _
    · dsimp only [Number.signed]
      rw [isData_ofList]
      split
      · rw [List.forall_mem_cons]
        exact ⟨by decide, fun c => isDataChar_of_mem_positional⟩
      · exact fun c => isDataChar_of_mem_positional
  rw [floatLiteral]
  split
  · decide
  · split
    · split <;> decide
    · exact htext

theorem isData_decimal (d : Decimal) : IsData d.text := by
  have hmagnitude : ∀ c ∈ Decimal.magnitudeText d.mantissa d.scale, isDataChar c = true := by
    intro c hc
    rw [Decimal.magnitudeText] at hc
    split at hc
    · exact isDataChar_of_mem_toDigits hc
    · simp only [List.mem_append, List.mem_cons, List.mem_replicate] at hc
      obtain (hc | rfl | ⟨-, rfl⟩) | hc := hc
      · exact isDataChar_of_mem_toDigits hc
      · decide
      · decide
      · exact isDataChar_of_mem_toDigits hc
  rw [Decimal.text, isData_ofList]
  split
  · rw [List.forall_mem_cons]
    exact ⟨by decide, hmagnitude⟩
  · exact hmagnitude

/-- The text of a value is data, whatever the characters of a string are. -/
theorem isData_literal {value : Value} {text : String} (h : literal value = .ok text) :
    IsData text := by
  cases value with
  | null =>
    cases h
    decide
  | bool b =>
    cases b <;> cases h <;> decide
  | int32 n =>
    cases h
    exact isData_int n.toInt
  | int64 n =>
    cases h
    exact isData_int n.toInt
  | single x =>
    cases h
    exact isData_floatLiteral x.toFloat
  | double x =>
    cases h
    exact isData_floatLiteral x
  | decimal d =>
    cases h
    exact isData_decimal d
  | string value =>
    cases h
    rw [stringLiteral, isData_append, isData_append]
    exact ⟨⟨by decide, isData_encode _⟩, by decide⟩
  | array element items => cases h
  | record fields => cases h

end Uri

/-! ### Names -/

namespace Expr

/-- The names that a node itself writes. -/
def ownNames : Expr → List String
  | parameter param => [param.name]
  | member _ name _ => [name]
  | lambda params _ => params.map Param.name
  | _ => []

/-- The names that an expression writes. -/
def names (expr : Expr) : List String := expr.nodes.flatMap ownNames

theorem ownNames_subset (expr : Expr) : expr.ownNames ⊆ expr.names :=
  subset_flatMap_nodes ownNames expr

theorem names_subset {child expr : Expr} (h : child ∈ expr.children) : child.names ⊆ expr.names :=
  flatMap_nodes_subset ownNames h

end Expr

/-- The names that a grouping writes. -/
def Apply.names (apply : Apply) : List String :=
  (apply.predicates ++ apply.grouping ++ apply.aggregations.filterMap Aggregation.expr).flatMap
    Expr.names ++ apply.aggregations.map Aggregation.name

/-- The names that a sequence option writes. -/
def SequenceOption.names : SequenceOption → List String
  | .filter predicates => predicates.flatMap Expr.names
  | .orderBy selectors => selectors.flatMap (·.expr.names)
  | _ => []

/-- The names that the segment of a resource writes. -/
def Resource.segmentNames (resource : Resource) : List String :=
  let parameters :=
    match resource.origin with
    | some (.function parameters _) => parameters
    | _ => []
  resource.name :: (parameters ++ resource.key?.getD []).map Prod.fst

namespace Uri

/-! ### What holds of whatever a step gives -/

/-- Whatever the step gives has the property. -/
def Gives {α : Type} (P : α → Prop) (step : WriteM α) : Prop := ∀ a, Yields step a → P a

namespace Gives

variable {α β : Type} {P : α → Prop} {Q : β → Prop} {x : WriteM α}

theorem pure {a : α} (h : P a) : Gives P (pure a) := by
  intro b hb
  rwa [← hb.pure_eq]

theorem throw (e : CompileError) : Gives P (throw e) := fun _ ha => ha.not_throw.elim

theorem bind {f : α → WriteM β} (h : Gives P x) (hf : ∀ a, P a → Gives Q (f a)) :
    Gives Q (x >>= f) := by
  intro b hb
  obtain ⟨a, ha, hb⟩ := hb.bind
  exact hf a (h a ha) b hb

theorem map {f : α → β} (h : Gives P x) (hf : ∀ a, P a → Q (f a)) : Gives Q (f <$> x) := by
  rw [← bind_pure_comp]
  exact h.bind fun a ha => .pure (hf a ha)

theorem mapM {f : α → WriteM β} {as : List α} (h : ∀ a ∈ as, Gives Q (f a)) :
    Gives (fun bs => ∀ b ∈ bs, Q b) (as.mapM f) := by
  induction as with
  | nil => exact .pure (by simp)
  | cons a as ih =>
    rw [List.forall_mem_cons] at h
    rw [List.mapM_cons]
    refine h.1.bind fun b hb => (ih h.2).bind fun bs hbs => .pure ?_
    exact List.forall_mem_cons.2 ⟨hb, hbs⟩

end Gives

/-! ### Properties of texts that are put together -/

/-- The words and signs of the protocol in paths and options, other than the names of options. -/
def words : List String :=
  ["", " ", "/", "(", ")", ":", ",", "=", "-", "$it", "/$count", "not ", " in (", "/any()",
    "length", "concat", "contains", "startswith", "endswith", "tolower", "toupper", "trim",
    "indexof", "substring", "round", "floor", "ceiling", "any", "all", "or", "and", "eq", "ne",
    "lt", "le", "gt", "ge", "add", "sub", "mul", "div", "mod", " and ", "$count as ", " with ",
    " as ", "sum", "average", "min", "max", "countdistinct", "$count", "aggregate(", "filter(",
    "groupby(", " desc"]

/-- A property of texts that is kept when they are put together, and that words and data have. -/
structure Spelling (P : String → Prop) : Prop where
  append : ∀ {first second : String}, P first → P second → P (first ++ second)
  word : ∀ text ∈ words, P text
  data : ∀ {text : String}, IsData text → P text

theorem mem_words_receiverFunction? {method function : String} {args : Nat}
    (h : receiverFunction? method args = some function) : function ∈ words := by
  rw [receiverFunction?.eq_def] at h
  split at h
  all_goals cases h
  all_goals decide

theorem mem_words_function? {method function : String} {args : Nat}
    (h : function? method args = some function) : function ∈ words := by
  rw [function?.eq_def] at h
  split at h
  all_goals cases h
  all_goals decide

theorem mem_words_quantifier? {method quantifier : String}
    (h : quantifier? method = some quantifier) : quantifier ∈ words := by
  rw [quantifier?.eq_def] at h
  split at h
  all_goals cases h
  all_goals decide

theorem mem_words_operatorWord (op : BinaryOp) : operatorWord op ∈ words := by
  cases op <;> decide

theorem mem_words_keyword (method : AggregationMethod) : method.keyword ∈ words := by
  cases method <;> decide

namespace Spelling

variable {P : String → Prop} (hP : Spelling P)

include hP

theorem join {separator : String} (hs : P separator) {texts : List String}
    (h : ∀ text ∈ texts, P text) : P (Text.join separator texts) := by
  induction texts with
  | nil => exact hP.word "" (by decide)
  | cons text texts ih =>
    rw [List.forall_mem_cons] at h
    cases texts with
    | nil => simpa [Text.join] using h.1
    | cons next rest =>
      rw [Text.join, String.intercalate_cons_cons]
      exact hP.append (hP.append h.1 hs) (ih h.2)

/-! #### Expressions -/

theorem append_word {text word : String} (h : P text) (hw : word ∈ words) : P (text ++ word) :=
  hP.append h (hP.word word hw)

theorem word_append {text word : String} (hw : word ∈ words) (h : P text) : P (word ++ text) :=
  hP.append (hP.word word hw) h

theorem call {function text : String} (hf : function ∈ words) (h : P text) :
    P (function ++ "(" ++ text ++ ")") :=
  hP.append_word (hP.append (hP.append_word (hP.word function hf) (by decide)) h) (by decide)

theorem callPieces {function : String} (hf : function ∈ words) {args : List (List Piece)}
    (h : ∀ arg ∈ args, P (spell arg)) : P (spell (callPieces function args)) := by
  rw [spell_callPieces]
  refine hP.call hf (hP.join (hP.word "," (by decide)) ?_)
  simpa using h

theorem operandText {operand : String × Precedence} (h : P operand.1) (parent : Precedence)
    (right : Bool) : P (operandText parent right operand) := by
  rw [Uri.operandText]
  split
  · exact hP.append_word (hP.word_append (by decide) h) (by decide)
  · exact h

theorem membershipPieces {item : List Piece} (h : P (spell item)) (precedence : Precedence)
    {items : List Value} {values : List String} (hv : items.mapM literal = .ok values) :
    P (spell (membershipPieces item precedence values)) := by
  have hvalues : ∀ value ∈ values, P value := by
    intro text ht
    obtain ⟨value, -, hl⟩ := Except.exists_of_mapM_eq_ok hv ht
    exact hP.data (isData_literal hl)
  rw [spell_membershipPieces]
  refine hP.append_word (hP.append (hP.append_word ?_ (by decide)) ?_) (by decide)
  · exact hP.operandText h _ _
  · exact hP.join (hP.word "," (by decide)) hvalues

/-- The property holds of the text of an expression if it holds of its names. -/
theorem written {expr : Expr} {pieces : List Piece} {precedence : Precedence}
    (h : Written expr pieces precedence) (hn : ∀ name ∈ expr.names, P name) : P (spell pieces) := by
  induction h with
  | constant ok =>
    rw [spell_singleton]
    exact hP.data (isData_literal ok)
  | input ref => exact hP.word "$it" (by decide)
  | parameter param =>
    rw [spell_singleton]
    exact hn param.name (Expr.ownNames_subset _ List.mem_cons_self)
  | length ty asks inner ih =>
    have hsource := ih fun name hm => hn name (Expr.names_subset List.mem_cons_self hm)
    exact hP.callPieces (by decide) (by simpa using hsource)
  | count ty asks inner ih =>
    have hsource := ih fun name hm => hn name (Expr.names_subset List.mem_cons_self hm)
    rw [spell_append, spell_singleton]
    exact hP.append_word hsource (by decide)
  | property ty asks =>
    rw [spell_singleton]
    exact hn _ (Expr.ownNames_subset _ List.mem_cons_self)
  | segment ty asks inside inner ih =>
    have hsource := ih fun name hm => hn name (Expr.names_subset List.mem_cons_self hm)
    have hname := hn _ (Expr.ownNames_subset _ List.mem_cons_self)
    rw [spell_append, spell_singleton]
    exact hP.append hsource (hP.word_append (by decide) hname)
  | convert ty inner ih =>
    exact ih fun name hm => hn name (Expr.names_subset List.mem_cons_self hm)
  | not ty inner ih | negate ty inner ih =>
    have hoperand := ih fun name hm => hn name (Expr.names_subset List.mem_cons_self hm)
    rw [spell_cons, spell_operandPieces]
    exact hP.word_append (by decide) (hP.operandText hoperand _ _)
  | concat strings inLeft inRight ihl ihr =>
    have hleft := ihl fun name hm => hn name (Expr.names_subset List.mem_cons_self hm)
    have hright := ihr fun name hm => hn name (Expr.names_subset (by simp [Expr.children]) hm)
    exact hP.callPieces (by decide) (by simp [hleft, hright])
  | operator numbers inLeft inRight ihl ihr =>
    have hleft := ihl fun name hm => hn name (Expr.names_subset List.mem_cons_self hm)
    have hright := ihr fun name hm => hn name (Expr.names_subset (by simp [Expr.children]) hm)
    rw [spell_append, spell_cons, spell_operandPieces, spell_operandPieces]
    refine hP.append (hP.operandText hleft _ _) (hP.append ?_ (hP.operandText hright _ _))
    exact hP.append_word (hP.word_append (by decide) (hP.word _ (mem_words_operatorWord _)))
      (by decide)
  | invokeIn ty array ok inner ih =>
    have hitem := ih fun name hm => hn name (Expr.names_subset (by simp [Expr.children]) hm)
    exact hP.membershipPieces hitem _ ok
  | callIn ty array ok inner ih =>
    have hitem := ih fun name hm => hn name (Expr.names_subset (by simp [Expr.children]) hm)
    exact hP.membershipPieces hitem _ ok
  | @invoke receiver method function pieces precedence args ty stands inner inArgs ihr iha =>
    have hreceiver := ihr fun name hm => hn name (Expr.names_subset List.mem_cons_self hm)
    refine hP.callPieces (mem_words_receiverFunction? stands) ?_
    rw [List.forall_mem_cons, List.forall_mem_map]
    refine ⟨hreceiver, ?_⟩
    refine fun arg ha => iha arg ha fun name hm => hn name (Expr.names_subset ?_ hm)
    exact List.mem_cons_of_mem _ (List.mem_map_of_mem ha)
  | @call method function args ty stands inArgs iha =>
    refine hP.callPieces (mem_words_function? stands) ?_
    rw [List.forall_mem_map]
    refine fun arg ha => iha arg ha fun name hm => hn name (Expr.names_subset ?_ hm)
    exact List.mem_map_of_mem ha
  | nonempty ty inner ih =>
    have hsource := ih fun name hm => hn name (Expr.names_subset List.mem_cons_self hm)
    rw [spell_append, spell_singleton]
    exact hP.append_word hsource (by decide)
  | @quantified method quantifier source body param pieces inside precedence loose ty stands inner
      inBody ihs ihb =>
    have hlambda : (Expr.lambda [param] body).names ⊆
        (Expr.call method [source, .lambda [param] body] ty).names :=
      Expr.names_subset (by simp [Expr.children])
    have hsource := ihs fun name hm => hn name (Expr.names_subset List.mem_cons_self hm)
    have hparam := hn param.name (hlambda (Expr.ownNames_subset _ List.mem_cons_self))
    have hbody := ihb fun name hm => hn name (hlambda (Expr.names_subset List.mem_cons_self hm))
    have hword :=
      hP.word_append (by decide : "/" ∈ words) (hP.word _ (mem_words_quantifier? stands))
    rw [spell_append, spell_cons, spell_cons, spell_append, spell_singleton]
    refine hP.append hsource (hP.append hword (hP.append ?_ (hP.append_word hbody (by decide))))
    exact hP.append_word (hP.word_append (by decide) hparam) (by decide)

theorem gives_writePrec {expr : Expr} (h : ∀ name ∈ expr.names, P name) :
    Gives (fun result => P result.1) (writePrec expr) := by
  intro result hr
  obtain ⟨pieces, hw, ht⟩ := written_of_yields hr
  rw [ht]
  exact hP.written hw h

theorem gives_write {expr : Expr} (h : ∀ name ∈ expr.names, P name) : Gives P (write expr) :=
  (hP.gives_writePrec h).map fun _ => id

theorem gives_conjunction {predicates : List Expr}
    (h : ∀ name ∈ predicates.flatMap Expr.names, P name) : Gives P (conjunction predicates) := by
  have htexts : Gives (fun texts => ∀ text ∈ texts, P text) (predicates.mapM fun predicate =>
      Uri.operandText .conjunction false <$> writePrec predicate) := by
    refine .mapM fun predicate hp => ?_
    have hnames := fun name hm => h name (List.mem_flatMap.2 ⟨predicate, hp, hm⟩)
    exact (hP.gives_writePrec hnames).map fun operand ho => hP.operandText ho _ _
  exact htexts.bind fun texts ht => .pure (hP.join (hP.word " and " (by decide)) ht)

/-! #### Options -/

theorem gives_aggregationText {aggregation : Aggregation}
    (he : ∀ expr ∈ aggregation.expr, ∀ name ∈ expr.names, P name) (hn : P aggregation.name) :
    Gives P (aggregationText aggregation) := by
  rw [aggregationText]
  split
  · exact .pure (hP.word_append (by decide) hn)
  · next heq _ =>
    refine (hP.gives_write (he _ heq)).bind fun text ht => .pure ?_
    refine hP.append (hP.append_word (hP.append (hP.append_word ht ?_) (hP.word _ ?_)) ?_) hn
    · decide
    · exact mem_words_keyword _
    · decide
  · exact .throw _

theorem gives_aggregateText? {apply : Apply} (h : ∀ name ∈ apply.names, P name) :
    Gives (fun text => ∀ piece ∈ text, P piece) (aggregateText? apply) := by
  have htexts : Gives (fun texts => ∀ text ∈ texts, P text)
      (apply.aggregations.mapM aggregationText) := by
    refine .mapM fun aggregation ha => hP.gives_aggregationText (fun expr he name hm => ?_) ?_
    · refine h name (List.mem_append_left _ (List.mem_flatMap.2 ⟨expr, ?_, hm⟩))
      exact List.mem_append_right _ (List.mem_filterMap.2 ⟨aggregation, ha, he⟩)
    · exact h _ (List.mem_append_right _ (List.mem_map_of_mem ha))
  rw [aggregateText?]
  split
  · exact .pure (by simp)
  · refine htexts.bind fun texts ht => .pure ?_
    rintro piece ⟨⟩
    have hjoin := hP.join (hP.word "," (by decide)) ht
    exact hP.append_word (hP.word_append (by decide) hjoin) (by decide)

/-- The property holds of the transformations of a grouping if it holds of its names. -/
theorem gives_applyText {apply : Apply} (h : ∀ name ∈ apply.names, P name) :
    Gives P (applyText apply) := by
  have hexpr (expr : Expr) (hm : expr ∈ apply.predicates ++ apply.grouping) :
      ∀ name ∈ expr.names, P name := fun name hn =>
    h name (List.mem_append_left _ (List.mem_flatMap.2 ⟨expr, List.mem_append_left _ hm, hn⟩))
  have hpredicates : ∀ name ∈ apply.predicates.flatMap Expr.names, P name := by
    intro name hm
    obtain ⟨predicate, hp, hm⟩ := List.mem_flatMap.1 hm
    exact hexpr predicate (List.mem_append_left _ hp) name hm
  have hkeys : Gives (fun texts => ∀ text ∈ texts, P text) (apply.grouping.mapM write) :=
    .mapM fun key hk => hP.gives_write (hexpr key (List.mem_append_right _ hk))
  have hcomma := hP.word "," (by decide)
  unfold applyText
  extract_lets afterFilters
  have hafter (filters : List String) (hf : ∀ text ∈ filters, P text) :
      Gives P (afterFilters filters) := by
    have hjoin (groups : List String) (hg : ∀ text ∈ groups, P text) :
        P (Text.join "/" (filters ++ groups)) :=
      hP.join (hP.word "/" (by decide)) (List.forall_mem_append.2 ⟨hf, hg⟩)
    refine (hP.gives_aggregateText? h).bind fun aggregate ha => ?_
    dsimp only
    split
    · exact .pure (hjoin _ fun text hm => ha text (Option.mem_toList.1 hm))
    · refine hkeys.bind fun keys hk => .pure (hjoin _ (List.forall_mem_singleton.2 ?_))
      have hlist := hP.append_word
        (hP.word_append (by decide : "(" ∈ words) (hP.join hcomma hk)) (by decide : ")" ∈ words)
      refine hP.append_word (hP.word_append (by decide) (hP.append hlist ?_)) (by decide)
      cases aggregate with
      | none => exact hP.word "" (by decide)
      | some text => exact hP.append hcomma (ha text rfl)
  clear_value afterFilters
  split
  · exact hafter [] (by simp)
  · refine (hP.gives_conjunction hpredicates).bind fun text ht => hafter _ ?_
    rw [List.forall_mem_singleton]
    exact hP.append_word (hP.word_append (by decide) ht) (by decide)

theorem gives_selectorText {selector : OrderSelector}
    (h : ∀ name ∈ selector.expr.names, P name) : Gives P (selectorText selector) := by
  refine (hP.gives_write h).bind fun text ht => .pure ?_
  split
  · exact hP.append_word ht (by decide)
  · exact ht

theorem gives_selectors {selectors : List OrderSelector}
    (h : ∀ name ∈ selectors.flatMap (·.expr.names), P name) :
    Gives (fun texts => ∀ text ∈ texts, P text) (selectors.mapM selectorText) :=
  .mapM fun key hk => hP.gives_selectorText fun name hm =>
    h name (List.mem_flatMap.2 ⟨key, hk, hm⟩)

/-! #### Paths -/

theorem namedLiterals {values : List (String × Value)} {text : String}
    (hn : ∀ name ∈ values.map Prod.fst, P name) (h : namedLiterals values = .ok text) : P text := by
  rw [Uri.namedLiterals, Except.bind_eq_ok] at h
  obtain ⟨texts, ht, h⟩ := h
  obtain rfl := Except.pure_eq_ok.1 h
  refine hP.join (hP.word "," (by decide)) fun text hm => ?_
  obtain ⟨value, hv, hvalue⟩ := Except.exists_of_mapM_eq_ok ht hm
  obtain ⟨data, hd, hp⟩ := Except.bind_eq_ok.1 hvalue
  obtain rfl := Except.pure_eq_ok.1 hp
  refine hP.append (hP.append_word (hn _ (List.mem_map_of_mem hv)) (by decide)) ?_
  exact hP.data (isData_literal hd)

theorem keyText {config : Config} {keys : List (String × Value)} {text : String}
    (hn : ∀ name ∈ keys.map Prod.fst, P name) (h : keyText config keys = .ok text) : P text := by
  rw [Uri.keyText.eq_def] at h
  split at h
  · rw [Except.bind_eq_ok] at h
    obtain ⟨value, hv, h⟩ := h
    obtain rfl := Except.pure_eq_ok.1 h
    have hvalue := hP.data (isData_literal hv)
    split
    · exact hP.word_append (by decide) hvalue
    · exact hP.append_word (hP.word_append (by decide) hvalue) (by decide)
  · rw [Except.bind_eq_ok] at h
    obtain ⟨values, hv, h⟩ := h
    obtain rfl := Except.pure_eq_ok.1 h
    exact hP.append_word (hP.word_append (by decide) (hP.namedLiterals hn hv)) (by decide)

theorem segment {config : Config} {resource : Resource} {text : String}
    (hn : ∀ name ∈ resource.segmentNames, P name) (h : segment config resource = .ok text) :
    P text := by
  rw [Resource.segmentNames, List.forall_mem_cons, List.map_append, List.forall_mem_append] at hn
  obtain ⟨hname, hparameters, hkeys⟩ := hn
  unfold Uri.segment at h
  extract_lets afterParameters at h
  have hafter (parameters : String) (hp : P parameters)
      (h : afterParameters parameters = .ok text) : P text := by
    have hfirst : P (resource.name ++ parameters) := hP.append hname hp
    dsimp only [afterParameters] at h
    split at h
    · next heq =>
      rw [heq] at hkeys
      obtain ⟨key, hk, h⟩ := Except.bind_eq_ok.1 h
      obtain rfl := Except.pure_eq_ok.1 h
      exact hP.append hfirst (hP.keyText hkeys hk)
    · obtain rfl := Except.pure_eq_ok.1 h
      exact hP.append_word hfirst (by decide)
  clear_value afterParameters
  split at h
  · next heq =>
    rw [heq] at hparameters
    obtain ⟨values, hv, h⟩ := Except.bind_eq_ok.1 h
    refine hafter _ ?_ h
    exact hP.append_word (hP.word_append (by decide) (hP.namedLiterals hparameters hv)) (by decide)
  · exact hafter "" (hP.word "" (by decide)) h

/-- The property holds of a path if it holds of its names, whatever the values of its keys and
parameters are. -/
theorem path {config : Config} {chain : Chain} {text : String}
    (hn : ∀ name ∈ chain.resources.flatMap Resource.segmentNames, P name)
    (h : path config chain = .ok text) : P text := by
  rw [Uri.path, Except.bind_eq_ok] at h
  obtain ⟨segments, hs, h⟩ := h
  obtain rfl := Except.pure_eq_ok.1 h
  refine hP.append (hP.join (hP.word "/" (by decide)) fun text hm => ?_) ?_
  · obtain ⟨resource, hr, hsegment⟩ := Except.exists_of_mapM_eq_ok hs hm
    refine hP.segment (fun name hname => ?_) hsegment
    exact hn name (List.mem_flatMap.2 ⟨resource, hr, hname⟩)
  · split
    · exact hP.word _ (by decide)
    · exact hP.word _ (by decide)

end Spelling

/-! ### Addresses -/

/-- A path after the root of the service. -/
def rooted (config : Config) (path : String) : String :=
  if config.serviceRoot.isEmpty then path else config.serviceRoot ++ "/" ++ path

/-- The address with a path and options. -/
def addressOf (config : Config) (path : String) (texts : List String) : String :=
  rooted config path ++ if texts.isEmpty then "" else "?" ++ Text.join "&" texts

theorem ofChain_ok {config : Config} {chain : Chain} {uri : String} {version : ProtocolVersion}
    (h : ofChain config chain = .ok (uri, version)) :
    ∃ path texts, Uri.path config chain = .ok path ∧ Yields (options chain.leaf) texts ∧
      uri = addressOf config path texts := by
  rw [ofChain, Except.bind_eq_ok] at h
  obtain ⟨path, hpath, h⟩ := h
  rcases hrun : (options chain.leaf).run.run {} with ⟨e | texts, writer⟩
  · simp only [hrun, Except.bind_eq_ok, reduceCtorEq, false_and, exists_false] at h
  · rw [hrun] at h
    obtain ⟨rfl, rfl⟩ := Prod.mk.inj (Except.ok.inj h)
    exact ⟨path, texts, hpath, ⟨_, _, hrun⟩, rfl⟩

end Uri

theorem Config.mem_serviceRoot {config : Config} {c : Char} (h : c ∈ config.serviceRoot.toList) :
    c ∈ config.baseUri.toList := by
  rw [serviceRoot, String.toList_ofList] at h
  have hm := List.dropWhile_subset _ (List.mem_reverse.1 h)
  exact List.mem_reverse.1 hm

end ServiceQuery
