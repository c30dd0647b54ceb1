import ServiceQuery.Path.Parser
import ServiceQuery.Proofs.Monad
import ServiceQuery.Proofs.Text

/-!
# Reading the text of a path

The names in the text of a path stand between slashes. White space around them and slashes without a
name in between make no difference. A classifier with a state of its own is asked about each name
that is not reserved, in order, until it fails for the first time.
-/

namespace ServiceQuery

namespace Segment

/-- Whether the segment is reserved by the protocol. -/
def isReserved : Segment → Bool
  | system _ => true
  | property _ _ _ => false

/-- What a property has been classified as. -/
def structural? : Segment → Option Bool
  | system _ => none
  | property _ _ structural => some structural

/-- The named values of a segment. -/
def values : Segment → List (String × String)
  | system _ => []
  | property _ values _ => values

end Segment

namespace Path

/-! ### Names between slashes -/

/-- The text can stand between slashes as a segment without values. -/
structure IsSegmentText (text : String) : Prop where
  ne_empty : text ≠ ""
  trimmed : Text.trim text.toList = text.toList
  slash : '/' ∉ text.toList
  parenthesis : '(' ∉ text.toList

instance (text : String) : Decidable (IsSegmentText text) :=
  decidable_of_iff
    (text ≠ "" ∧ Text.trim text.toList = text.toList ∧ '/' ∉ text.toList ∧ '(' ∉ text.toList)
    ⟨fun h => ⟨h.1, h.2.1, h.2.2.1, h.2.2.2⟩,
      fun h => ⟨h.ne_empty, h.trimmed, h.slash, h.parenthesis⟩⟩

/-- The texts in which names stand between slashes: white space without a name, a name with white
space around it, or two such texts with a slash between them. -/
inductive Spelled : List String → List Char → Prop where
  | blank {text : List Char} (h : Text.Blank text) : Spelled [] text
  | name {name : String} {text : List Char} (h : Text.Padded name.toList text) :
    Spelled [name] text
  | slash {names others : List String} {first second : List Char} (h : Spelled names first)
    (ho : Spelled others second) : Spelled (names ++ others) (first ++ '/' :: second)

/-- The plainest of these texts. -/
theorem spelled_join (names : List String) : Spelled names (Text.join "/" names).toList := by
  induction names with
  | nil => exact .blank (List.forall_mem_nil _)
  | cons name names ih =>
    cases names with
    | nil => simpa [Text.join] using Spelled.name (Text.padded_self name.toList)
    | cons next rest =>
      rw [Text.toList_join_cons rfl]
      exact (Spelled.name (Text.padded_self name.toList)).slash ih

/-- The segments on both sides of a slash are found apart from each other. -/
theorem segmentTexts_slash (first second : List Char) :
    segmentTexts (first ++ '/' :: second) = segmentTexts first ++ segmentTexts second := by
  rw [segmentTexts, Text.split_append rfl, List.map_append, List.filter_append]
  rfl

/-- Between two slashes stands one segment, unless there is only white space. -/
theorem segmentTexts_of_notMem {text : List Char} (h : '/' ∉ text) :
    segmentTexts text = [Text.trim text].filter fun piece => !piece.isEmpty := by
  have hslash : ∀ c ∈ text, (c == '/') = false := by
    rintro c hc
    exact beq_eq_false_iff_ne.2 fun heq => h (heq ▸ hc)
  rw [segmentTexts, Text.split_of_forall hslash]
  rfl

theorem slash_notMem_of_blank {text : List Char} (h : Text.Blank text) : '/' ∉ text :=
  fun hm => absurd (h _ hm) (by decide)

/-- The names are found again in every text in which they stand. -/
theorem segmentTexts_of_spelled {names : List String} {text : List Char} (h : Spelled names text)
    (hn : ∀ name ∈ names, IsSegmentText name) : segmentTexts text = names.map String.toList := by
  induction h with
  | @blank text h =>
    have hpadded : Text.Padded [] text := ⟨text, [], h, List.forall_mem_nil _, by simp⟩
    have htrim : Text.trim text = [] := Text.trim_of_padded hpadded
    rw [segmentTexts_of_notMem (slash_notMem_of_blank h), htrim]
    rfl
  | @name name text h =>
    have hname := hn name List.mem_cons_self
    have htrim : Text.trim text = name.toList := (Text.trim_of_padded h).trans hname.trimmed
    have hslash : '/' ∉ text := by
      obtain ⟨before, after, hb, ha, rfl⟩ := h
      simp [slash_notMem_of_blank hb, slash_notMem_of_blank ha, hname.slash]
    rw [segmentTexts_of_notMem hslash, htrim, List.filter_cons_of_pos]
    · rfl
    · simpa using hname.ne_empty
  | slash h ho ih iho =>
    rw [List.forall_mem_append] at hn
    rw [segmentTexts_slash, ih hn.1, iho hn.2, List.map_append]

/-- Segments are found again in the text in which they are joined. -/
theorem segmentTexts_join {names : List String} (h : ∀ name ∈ names, IsSegmentText name) :
    segmentTexts (Text.join "/" names).toList = names.map String.toList :=
  segmentTexts_of_spelled (spelled_join names) h

/-! ### Names that are classified -/

/-- Whether a segment text is reserved by the protocol. -/
def isReservedText (text : String) : Bool := text.toList.head? == some '$'

section Classified

variable {m : Type → Type} [Monad m] (isStructural : String → m Bool)

/-- The property of a name, once the name is classified. -/
def propertyM (name : String) : m Segment := do
  let structural ← isStructural name
  pure (.property name [] structural)

theorem segmentM_of_unreserved {name : String} (h : IsSegmentText name)
    (hu : name.toList.head? ≠ some '$') :
    segmentM isStructural name.toList = propertyM isStructural name := by
  have hvalues : splitValues name.toList = (name, []) := by
    have hopen : ∀ c ∈ name.toList, (c == '(') = false :=
      fun c hc => beq_eq_false_iff_ne.2 fun heq => h.parenthesis (heq ▸ hc)
    rw [splitValues, Text.splitOnce_of_forall hopen, String.ofList_toList]
  unfold segmentM
  split
  · next heq => exact absurd (by rw [heq]; rfl) hu
  · rw [hvalues]
    rfl

theorem segmentM_of_reserved {name : String} (h : name.toList.head? = some '$') :
    segmentM isStructural name.toList = pure (.system name) := by
  unfold segmentM
  split
  · rw [String.ofList_toList]
  · next hne =>
    obtain ⟨rest, hrest⟩ := List.head?_eq_some_iff.1 h
    exact absurd hrest (hne rest)

/-- The segment of a name. -/
def namedM (name : String) : m Segment :=
  if isReservedText name then pure (.system name) else propertyM isStructural name

/-- Names are read, one after the other, from every text in which they stand. -/
theorem parseM_of_spelled [LawfulMonad m] {names : List String} {text : String}
    (h : Spelled names text.toList) (hn : ∀ name ∈ names, IsSegmentText name) :
    parseM isStructural text = names.mapM (namedM isStructural) := by
  rw [parseM, segmentTexts_of_spelled h hn]
  clear h
  induction names with
  | nil => rfl
  | cons name names ih =>
    rw [List.forall_mem_cons] at hn
    have hname : segmentM isStructural name.toList = namedM isStructural name := by
      rw [namedM]
      split
      · next hr => exact segmentM_of_reserved isStructural (beq_iff_eq.1 hr)
      · next hr => exact segmentM_of_unreserved isStructural hn.1 fun heq => hr (beq_iff_eq.2 heq)
    rw [List.map_cons, List.mapM_cons, List.mapM_cons, hname, ih hn.2]

end Classified

/-! ### A classifier with a state -/

section Reading

variable {σ : Type} (ask : String → ExceptT CompileError (StateM σ) Bool)

/-- The names that a classifier is asked about. -/
def asked (names : List String) : List String := names.filter fun name => !isReservedText name

/-- The classifier answers for the names, one after the other, each time in the state in which it
was left the time before. -/
inductive Answers : σ → List String → List Bool → σ → Prop where
  | nil (s : σ) : Answers s [] [] s
  | cons {name : String} {names : List String} {answer : Bool} {answers : List Bool} {s t u : σ}
    (first : (ask name).run.run s = (.ok answer, t)) (rest : Answers t names answers u) :
    Answers s (name :: names) (answer :: answers) u

/-- The path of names, in which those that are not reserved are properties classified by the
answers, in order. -/
structure IsPathOf (names : List String) (answers : List Bool) (path : Path) : Prop where
  identifiers : path.identifiers = names
  reserved : ∀ segment ∈ path, segment.isReserved = isReservedText segment.identifier
  structural : path.filterMap Segment.structural? = answers
  values : ∀ segment ∈ path, segment.values = []

/-- How the reading of names ends, and the state in which it leaves the classifier. -/
inductive Reading (s : σ) (names : List String) : Except CompileError Path × σ → Prop where
  /-- The classifier has answered for all of the names. -/
  | done {answers : List Bool} {path : Path} {t : σ}
    (answered : Answers ask s (asked names) answers t) (isPath : IsPathOf names answers path) :
    Reading s names (.ok path, t)
  /-- The classifier has failed for the first time. -/
  | failed {before after : List String} {name : String} {answers : List Bool} {error : CompileError}
    {t u : σ} (split : asked names = before ++ name :: after)
    (answered : Answers ask s before answers t)
    (failure : (ask name).run.run t = (.error error, u)) : Reading s names (.error error, u)

variable {ask} {name : String} {names : List String} {answers : List Bool} {answer : Bool}
  {path : Path} {s t : σ}

theorem asked_cons_of_reserved (h : isReservedText name = true) :
    asked (name :: names) = asked names := List.filter_cons_of_neg (by simp [h])

theorem asked_cons_of_unreserved (h : isReservedText name = false) :
    asked (name :: names) = name :: asked names := List.filter_cons_of_pos (by simp [h])

theorem IsPathOf.system (h : IsPathOf names answers path) (hr : isReservedText name = true) :
    IsPathOf (name :: names) answers (.system name :: path) where
  identifiers := congrArg (name :: ·) h.identifiers
  reserved := List.forall_mem_cons.2 ⟨hr.symm, h.reserved⟩
  structural := h.structural
  values := List.forall_mem_cons.2 ⟨rfl, h.values⟩

theorem IsPathOf.property (h : IsPathOf names answers path) (hr : isReservedText name = false)
    (answer : Bool) :
    IsPathOf (name :: names) (answer :: answers) (.property name [] answer :: path) where
  identifiers := congrArg (name :: ·) h.identifiers
  reserved := List.forall_mem_cons.2 ⟨hr.symm, h.reserved⟩
  structural := congrArg (answer :: ·) h.structural
  values := List.forall_mem_cons.2 ⟨rfl, h.values⟩

/-- A reserved name before others is read without a question. -/
theorem Reading.system {outcome : Except CompileError Path} (hr : isReservedText name = true)
    (h : Reading ask s names (outcome, t)) :
    Reading ask s (name :: names) ((.system name :: ·) <$> outcome, t) := by
  cases h with
  | done answered isPath =>
    rw [← asked_cons_of_reserved hr] at answered
    exact .done answered (isPath.system hr)
  | failed split answered failure =>
    exact .failed ((asked_cons_of_reserved hr).trans split) answered failure

/-- A property before others is read after an answer. -/
theorem Reading.property {u : σ} {outcome : Except CompileError Path}
    (hr : isReservedText name = false) (first : (ask name).run.run s = (.ok answer, t))
    (h : Reading ask t names (outcome, u)) :
    Reading ask s (name :: names) ((.property name [] answer :: ·) <$> outcome, u) := by
  cases h with
  | done answered isPath =>
    have hanswered := answered.cons first
    rw [← asked_cons_of_unreserved hr] at hanswered
    exact .done hanswered (isPath.property hr answer)
  | @failed before after last answers error t' u split answered failure =>
    have hsplit : asked (name :: names) = (name :: before) ++ last :: after := by
      rw [asked_cons_of_unreserved hr, split, List.cons_append]
    exact .failed hsplit (.cons first answered) failure

/-- The names are read one after the other. -/
theorem reading_mapM (names : List String) (s : σ) :
    Reading ask s names ((names.mapM (namedM ask)).run.run s) := by
  induction names generalizing s with
  | nil => exact .done (.nil s) ⟨rfl, List.forall_mem_nil _, rfl, List.forall_mem_nil _⟩
  | cons name names ih =>
    have hcons : (name :: names).mapM (namedM ask) =
        namedM ask name >>= fun segment => (segment :: ·) <$> names.mapM (namedM ask) := by
      rw [List.mapM_cons]
      simp only [map_eq_pure_bind]
    rw [hcons]
    cases hr : isReservedText name with
    | true =>
      have hname : (namedM ask name).run.run s = (.ok (.system name), s) := by
        rw [namedM, hr]
        rfl
      rw [Stateful.run_bind_of_ok hname, Stateful.run_map]
      exact (ih s).system hr
    | false =>
      -- the state in which the classifier is left is the one that the other names are read in
      have hname : namedM ask name = propertyM ask name := by
        rw [namedM, hr]
        rfl
      cases hask : (ask name).run.run s with
      | mk outcome t =>
        cases outcome with
        | error error =>
          have hfail : (propertyM ask name).run.run s = (.error error, t) :=
            Stateful.run_bind_of_error hask
          rw [hname, Stateful.run_bind_of_error hfail]
          exact .failed (asked_cons_of_unreserved hr) (.nil s) hask
        | ok answer =>
          have hread : (propertyM ask name).run.run s = (.ok (.property name [] answer), t) :=
            Stateful.run_bind_of_ok hask
          rw [hname, Stateful.run_bind_of_ok hread, Stateful.run_map]
          exact (ih t).property hr hask

end Reading

/-- Segments without slash, parenthesis and outer white space are read from the text in which they
are joined, and from every text with further slashes and white space around them. The classifier is
asked about those that are not reserved, in order, and its first failure is the failure of the
reading. -/
theorem parseM_spelled {names : List String} (hn : ∀ name ∈ names, IsSegmentText name) :
    Spelled names (Text.join "/" names).toList ∧
      ∀ (σ : Type) (ask : String → ExceptT CompileError (StateM σ) Bool) (text : String) (s : σ),
        Spelled names text.toList → Reading ask s names ((parseM ask text).run.run s) := by
  refine ⟨spelled_join names, fun σ ask text s h => ?_⟩
  rw [parseM_of_spelled ask h hn]
  exact reading_mapM names s

namespace Sample

/-- A classifier that records what it is asked about, and does not know one of the names. -/
def recorder (name : String) : ExceptT CompileError (StateM (List String)) Bool := do
  modify (· ++ [name])
  if name = "Secret" then throw (.unknownMember "Order" name) else pure (name == "Ship to")

def shipping : List String := ["Orders", "$ref", "*", "Ship to"]

def hidden : List String := ["Orders", "Secret", "$ref", "Total"]

def shippingText : String := "// Orders/\t$ref /*/ /Ship to\n"

theorem spelled_shipping : Spelled shipping shippingText.toList :=
  have orders : Spelled ["Orders"] " Orders".toList := .name ⟨[' '], [], by decide, by decide, rfl⟩
  have ref : Spelled ["$ref"] "\t$ref ".toList := .name ⟨['\t'], [' '], by decide, by decide, rfl⟩
  have star : Spelled ["*"] "*".toList := .name (Text.padded_self _)
  have space : Spelled [] " ".toList := .blank (by decide)
  have ship : Spelled ["Ship to"] "Ship to\n".toList :=
    .name ⟨[], ['\n'], by decide, by decide, rfl⟩
  have empty : Spelled [] [] := .blank (by decide)
  empty.slash (empty.slash (orders.slash (ref.slash (star.slash (space.slash ship)))))

end Sample

theorem parseM_spelled_shipping :
    (∀ name ∈ Sample.shipping, IsSegmentText name) ∧
      Spelled Sample.shipping Sample.shippingText.toList ∧
      Reading Sample.recorder [] Sample.shipping
        (.ok [.property "Orders" [] false, .system "$ref", .property "*" [] false,
          .property "Ship to" [] true], ["Orders", "*", "Ship to"]) ∧
      Reading Sample.recorder [] Sample.hidden
        (.error (.unknownMember "Order" "Secret"), ["Orders", "Secret"]) := by
  have hshipping : ∀ name ∈ Sample.shipping, IsSegmentText name := by decide
  have hread : (parseM Sample.recorder Sample.shippingText).run.run [] =
      (.ok [.property "Orders" [] false, .system "$ref", .property "*" [] false,
        .property "Ship to" [] true], ["Orders", "*", "Ship to"]) := by
    rw [parseM_of_spelled _ Sample.spelled_shipping hshipping]
    rfl
  have hhidden : ∀ name ∈ Sample.hidden, IsSegmentText name := by decide
  have hfail : (parseM Sample.recorder (Text.join "/" Sample.hidden)).run.run [] =
      (.error (.unknownMember "Order" "Secret"), ["Orders", "Secret"]) := by
    rw [parseM_of_spelled _ (spelled_join _) hhidden]
    rfl
  refine ⟨hshipping, Sample.spelled_shipping, ?_, ?_⟩
  · rw [← hread]
    exact (parseM_spelled hshipping).2 _ Sample.recorder _ [] Sample.spelled_shipping
  · rw [← hfail]
    exact (parseM_spelled hhidden).2 _ Sample.recorder _ [] (spelled_join _)

end Path

end ServiceQuery
