import ServiceQuery.Path.Basic
import ServiceQuery.Proofs.Monad

/-!
# Texts of paths

The text of a path is a name followed by nested options. Parentheses, commas and semicolons part the
names, so that names without such marks can be told from the text, and so can what each of the
nested names is: one that is selected or one that is expanded.
-/

namespace ServiceQuery

namespace Path

/-! ### Reserved segments -/

/-- The token is the first reserved segment of the path. -/
def FirstReserved (path : Path) (token : String) : Prop :=
  ∃ before after, path = before ++ .system token :: after ∧ ∀ other, .system other ∉ before

variable {rest path : Path} {token : String} {e : CompileError}

theorem firstReserved_system {first : String} :
    FirstReserved (.system first :: rest) token ↔ first = token := by
  constructor
  · rintro ⟨before, after, h, hbefore⟩
    cases before with
    | nil =>
      cases h
      rfl
    | cons segment before =>
      cases h
      exact absurd List.mem_cons_self (hbefore first)
  · rintro rfl
    exact ⟨[], rest, rfl, fun other => List.not_mem_nil⟩

theorem firstReserved_property {name : String} {values : List (String × String)}
    {structural : Bool} :
    FirstReserved (.property name values structural :: rest) token ↔ FirstReserved rest token := by
  constructor
  · rintro ⟨before, after, h, hbefore⟩
    cases before with
    | nil => cases h
    | cons segment before =>
      cases h
      exact ⟨before, after, rfl, fun other hm => hbefore other (List.mem_cons_of_mem _ hm)⟩
  · rintro ⟨before, after, rfl, hbefore⟩
    refine ⟨.property name values structural :: before, after, rfl, fun other hm => ?_⟩
    obtain h | hm := List.mem_cons.1 hm
    · cases h
    · exact hbefore other hm

theorem exists_firstReserved :
    (∃ token, FirstReserved path token) ↔ ∃ token, .system token ∈ path := by
  induction path with
  | nil => simp [FirstReserved]
  | cons segment rest ih =>
    cases segment with
    | system first => simp [firstReserved_system]
    | property name values structural => simp [firstReserved_property, ih]

/-- A path is refused for its first reserved segment, and for nothing else. -/
theorem checked_eq_error :
    checked path = .error e ↔
      ∃ token, e = .illegalSystemToken token ∧ FirstReserved path token := by
  induction path with
  | nil => simp [checked, FirstReserved]
  | cons segment rest ih =>
    cases segment with
    | system first => simp [checked, firstReserved_system, eq_comm]
    | property name values structural =>
      simp only [checked, Except.map_eq_error, ih, firstReserved_property]

theorem eq_of_checked {legal : Path} (h : checked path = .ok legal) : legal = path := by
  induction path generalizing legal with
  | nil =>
    cases h
    rfl
  | cons segment rest ih =>
    cases segment with
    | system first => cases h
    | property name values structural =>
      obtain ⟨inner, hinner, rfl⟩ := Except.map_eq_ok.1 h
      rw [ih hinner]

end Path

/-! ### Nested names -/

/-- The characters that part names. -/
def Path.isMark (c : Char) : Bool := c ∈ ['(', ')', ',', ';', '=', '$']

/-- The name holds none of the characters that part names. -/
def Path.Unmarked (name : String) : Prop := ∀ c ∈ name.toList, isMark c = false

instance (name : String) : Decidable (Path.Unmarked name) :=
  decidable_of_iff (name.toList.all (!Path.isMark ·) = true) (by simp [Path.Unmarked])

/-- How the names after another one are written. What is told of a name beside its characters is of
type `σ`, and it decides how the next one is written. -/
structure Nesting (σ : Type) where
  /-- What stands before a name, given what is told of the one before it. -/
  lead : σ → σ → String
  /-- What stands behind a name and all that is nested in it. -/
  finish : σ → String
  /-- What stands in the place of a next name. -/
  close : σ → String
  /-- What leads to a next name begins with a mark, which closes nothing. -/
  lead_head : ∀ s a, ∃ c tail, (lead s a).toList = c :: tail ∧ Path.isMark c = true ∧ c ≠ ')'
  lead_inj : ∀ s a b x y, (lead s a).toList ++ x = (lead s b).toList ++ y → a = b ∧ x = y
  finish_closes : ∀ s, ∀ c ∈ (finish s).toList, c = ')'
  close_closes : ∀ s, ∀ c ∈ (close s).toList, c = ')'

namespace Nesting

/-- A run of structural properties is selected, and navigations are expanded. A selection stays open
for the structural property that comes next. -/
def selectExpand : Nesting Bool where
  lead
    | false, false => "($expand="
    | false, true => "($select="
    | true, false => ";$expand="
    | true, true => ","
  finish structural := if structural then "" else ")"
  close structural := if structural then ")" else ""
  lead_head s a := by cases s <;> cases a <;> exact ⟨_, _, rfl, by decide, by decide⟩
  lead_inj s a b x y h := by cases s <;> cases a <;> cases b <;> simp_all
  finish_closes s := by cases s <;> simp
  close_closes s := by cases s <;> simp

/-- Every name is expanded. -/
def expand : Nesting Unit where
  lead _ _ := "(($expand="
  finish _ := "))"
  close _ := ""
  lead_head _ _ := ⟨_, _, rfl, by decide, by decide⟩
  lead_inj _ _ _ x y h := ⟨rfl, List.append_cancel_left h⟩
  finish_closes _ := by simp
  close_closes _ := by simp

variable {σ : Type} (nesting : Nesting σ)

/-- The names after one of which `s` is told. -/
def nested (s : σ) : List (String × σ) → String
  | [] => nesting.close s
  | (name, a) :: rest => nesting.lead s a ++ name ++ nested a rest ++ nesting.finish a

/-- Nothing follows but closing parentheses. -/
def Closes (rest : List Char) : Prop := ∀ c ∈ rest.head?, c = ')'

/-- A name ends before the rest. -/
def Marked (rest : List Char) : Prop := ∀ c ∈ rest.head?, Path.isMark c = true

theorem Closes.append {closing rest : List Char} (h : ∀ c ∈ closing, c = ')') (hr : Closes rest) :
    Closes (closing ++ rest) := by
  cases closing with
  | nil => exact hr
  | cons c closing =>
    intro d hd
    cases hd
    exact h c List.mem_cons_self

theorem Closes.marked {rest : List Char} (h : Closes rest) : Marked rest := by
  intro c hc
  rw [h c hc]
  decide

/-- A name ends where the first mark is. -/
theorem name_inj {first second : String} (hf : Path.Unmarked first) (hs : Path.Unmarked second)
    {x y : List Char} (hx : Marked x) (hy : Marked y)
    (h : first.toList ++ x = second.toList ++ y) : first = second ∧ x = y := by
  have hname {name : String} {rest : List Char} (hn : Path.Unmarked name) (hr : Marked rest) :
      (name.toList ++ rest).takeWhile (fun c => !Path.isMark c) = name.toList := by
    rw [List.takeWhile_append_of_pos fun c hc => by simp [hn c hc]]
    cases rest with
    | nil => simp
    | cons c rest => simp [hr c rfl]
  have heq : first = second := by
    rw [← String.toList_inj, ← hname hf hx, h, hname hs hy]
  subst heq
  exact ⟨rfl, List.append_cancel_left h⟩

theorem marked_nested (s : σ) (rest : List (String × σ)) {x : List Char} (hx : Closes x) :
    Marked ((nesting.nested s rest).toList ++ x) := by
  cases rest with
  | nil => exact (hx.append (nesting.close_closes s)).marked
  | cons next rest =>
    obtain ⟨c, tail, hlead, hmark, -⟩ := nesting.lead_head s next.2
    intro d hd
    simp only [nested, String.toList_append, hlead, List.cons_append, List.head?_cons,
      Option.mem_some] at hd
    exact hd ▸ hmark

/-- Where no name comes next, no name is begun. -/
theorem close_ne_lead {s a : σ} {x y : List Char} (hx : Closes x) :
    (nesting.close s).toList ++ x ≠ (nesting.lead s a).toList ++ y := by
  intro h
  obtain ⟨c, tail, hlead, -, hc⟩ := nesting.lead_head s a
  refine hc (hx.append (nesting.close_closes s) c ?_)
  rw [h, hlead]
  rfl

/-- Nested names can be told from their text, whatever closes them. -/
theorem nested_inj {s : σ} {first second : List (String × σ)}
    (hf : ∀ next ∈ first, Path.Unmarked next.1) (hs : ∀ next ∈ second, Path.Unmarked next.1)
    {x y : List Char} (hx : Closes x) (hy : Closes y)
    (h : (nesting.nested s first).toList ++ x = (nesting.nested s second).toList ++ y) :
    first = second ∧ x = y := by
  induction first generalizing s second x y with
  | nil =>
    cases second with
    | nil => exact ⟨rfl, List.append_cancel_left h⟩
    | cons next second =>
      simp only [nested, String.toList_append, List.append_assoc] at h
      exact absurd h (nesting.close_ne_lead hx)
  | cons name first ih =>
    obtain ⟨name, a⟩ := name
    rw [List.forall_mem_cons] at hf
    cases second with
    | nil =>
      simp only [nested, String.toList_append, List.append_assoc] at h
      exact absurd h.symm (nesting.close_ne_lead hy)
    | cons other second =>
      obtain ⟨other, b⟩ := other
      rw [List.forall_mem_cons] at hs
      simp only [nested, String.toList_append, List.append_assoc] at h
      -- what stands before the name tells its kind, and its first mark where it ends
      obtain ⟨rfl, hnames⟩ := nesting.lead_inj _ _ _ _ _ h
      have hx := hx.append (nesting.finish_closes a)
      have hy := hy.append (nesting.finish_closes a)
      obtain ⟨rfl, hrest⟩ := name_inj hf.1 hs.1 (nesting.marked_nested a first hx)
        (nesting.marked_nested a second hy) hnames
      obtain ⟨rfl, hend⟩ := ih hf.2 hs.2 hx hy hrest
      exact ⟨rfl, List.append_cancel_left hend⟩

/-- The text of a path: its first name and the nested ones, of which `tell` is told. -/
def text (start : σ) (tell : Segment → σ) : Path → String
  | [] => ""
  | first :: rest => first.identifier ++
    nesting.nested start (rest.map fun segment => (segment.identifier, tell segment))

/-- Equal texts name the same segments and tell the same of them, the first one apart. -/
theorem text_inj {start : σ} {tell : Segment → σ} {first second : Path} (hf : first ≠ [])
    (hs : second ≠ []) (hfirst : ∀ segment ∈ first, Path.Unmarked segment.identifier)
    (hsecond : ∀ segment ∈ second, Path.Unmarked segment.identifier)
    (h : nesting.text start tell first = nesting.text start tell second) :
    Path.identifiers first = Path.identifiers second ∧
      first.tail.map tell = second.tail.map tell := by
  obtain ⟨a, first, rfl⟩ := List.exists_cons_of_ne_nil hf
  obtain ⟨b, second, rfl⟩ := List.exists_cons_of_ne_nil hs
  rw [List.forall_mem_cons] at hfirst hsecond
  have hend : Closes [] := by simp [Closes]
  have hmarked (rest : List (String × σ)) : Marked (nesting.nested start rest).toList := by
    simpa using nesting.marked_nested start rest hend
  have h := congrArg String.toList h
  simp only [text, String.toList_append] at h
  obtain ⟨hname, hrest⟩ := name_inj hfirst.1 hsecond.1 (hmarked _) (hmarked _) h
  have hunmarked {rest : Path} (hr : ∀ segment ∈ rest, Path.Unmarked segment.identifier) :
      ∀ next ∈ rest.map fun segment => (segment.identifier, tell segment),
        Path.Unmarked next.1 := by
    intro next hn
    obtain ⟨segment, hm, rfl⟩ := List.mem_map.1 hn
    exact hr segment hm
  obtain ⟨htold, -⟩ := nesting.nested_inj (hunmarked hfirst.2) (hunmarked hsecond.2) hend hend
    (congrArg (· ++ []) hrest)
  refine ⟨?_, ?_⟩
  · have hnames := congrArg (List.map Prod.fst) htold
    simp only [List.map_map, Function.comp_def] at hnames
    simp only [Path.identifiers, List.map_cons, hname, hnames]
  · have hkinds := congrArg (List.map Prod.snd) htold
    simpa only [List.map_map, Function.comp_def, List.tail_cons] using hkinds

end Nesting

namespace Path

/-! ### The two texts of a path -/

/-- The names of a path with what a select and expand text tells of them. -/
def shape (path : Path) : List (String × Bool) :=
  path.map fun segment => (segment.identifier, segment.isStructural)

/-- The options after a segment and the rest of a selection are one nesting in two states. -/
theorem nested_texts (path : Path) :
    optionsText path =
        (fun legal => Nesting.selectExpand.nested false (shape legal)) <$> checked path ∧
      selectionText path =
        (fun legal => Nesting.selectExpand.nested true (shape legal)) <$> checked path := by
  induction path with
  | nil => exact ⟨rfl, rfl⟩
  | cons segment rest ih =>
    cases segment with
    | system token => exact ⟨rfl, rfl⟩
    | property name values structural =>
      -- the flag of a segment is the state of what follows it
      cases structural with
      | true =>
        simp only [optionsText, selectionText, checked, ih.2]
        cases checked rest with
        | error e => exact ⟨rfl, rfl⟩
        | ok legal =>
          exact ⟨congrArg Except.ok String.append_empty.symm,
            congrArg Except.ok String.append_empty.symm⟩
      | false =>
        simp only [optionsText, selectionText, checked, ih.1]
        cases checked rest with
        | error e => exact ⟨rfl, rfl⟩
        | ok legal => exact ⟨rfl, rfl⟩

theorem selectExpandText_eq (path : Path) :
    selectExpandText path =
      Nesting.selectExpand.text false Segment.isStructural <$> checked path := by
  cases path with
  | nil => rfl
  | cons segment rest =>
    cases segment with
    | system token => rfl
    | property name values structural =>
      simp only [selectExpandText, checked, (nested_texts rest).1]
      cases checked rest with
      | error e => rfl
      | ok legal => rfl

theorem expandText_eq (path : Path) :
    expandText path = Nesting.expand.text () (fun _ => ()) <$> checked path := by
  induction path with
  | nil => rfl
  | cons segment rest ih =>
    cases segment with
    | system token => rfl
    | property name values structural =>
      cases rest with
      | nil => exact congrArg Except.ok String.append_empty.symm
      | cons next rest =>
        rw [expandText, ih, checked]
        cases hr : checked (next :: rest) with
        | error e => rfl
        | ok legal =>
          obtain rfl := eq_of_checked hr
          refine congrArg Except.ok ?_
          simp only [Nesting.text, Nesting.nested, Nesting.expand, List.map_cons,
            ← String.append_assoc]
          rfl

/-- A text fails for the first reserved segment of its path. -/
theorem map_checked_eq_error {α : Type} {f : Path → α} {path : Path} {e : CompileError} :
    f <$> checked path = .error e ↔
      ∃ token, e = .illegalSystemToken token ∧ FirstReserved path token :=
  Except.map_eq_error.trans checked_eq_error

/-- A text fails if there is a reserved segment. -/
theorem exists_map_checked_eq_error {α : Type} {f : Path → α} {path : Path} :
    (∃ e, f <$> checked path = .error e) ↔ ∃ token, .system token ∈ path := by
  rw [← exists_firstReserved]
  simp only [map_checked_eq_error]
  constructor
  · rintro ⟨_, token, -, h⟩
    exact ⟨token, h⟩
  · rintro ⟨token, h⟩
    exact ⟨_, token, rfl, h⟩

/-- No name of the path holds a character that parts names. -/
def HasUnmarkedNames (path : Path) : Prop := ∀ segment ∈ path, Unmarked segment.identifier

/-- Paths with the same text have the same names, and the same is told of them. -/
theorem eq_of_map_checked {σ : Type} (nesting : Nesting σ) {start : σ} {tell : Segment → σ}
    {first second : Path} (hf : first ≠ []) (hs : second ≠ []) (hfirst : HasUnmarkedNames first)
    (hsecond : HasUnmarkedNames second) {text : String}
    (h₁ : nesting.text start tell <$> checked first = .ok text)
    (h₂ : nesting.text start tell <$> checked second = .ok text) :
    identifiers first = identifiers second ∧ first.tail.map tell = second.tail.map tell := by
  obtain ⟨legal, hlegal, htext⟩ := Except.map_eq_ok.1 h₁
  obtain rfl := eq_of_checked hlegal
  obtain ⟨other, hother, rfl⟩ := Except.map_eq_ok.1 h₂
  obtain rfl := eq_of_checked hother
  exact nesting.text_inj hf hs hfirst hsecond htext

/-- A path has its texts unless a segment of it is reserved, of which the first is reported. The
select and expand text tells all names of a path and, the first one apart, which of them are
structural; the text that expands every segment tells the names. -/
theorem texts_faithful {first second : Path} (hf : first ≠ []) (hs : second ≠ []) :
    (((∃ e, selectExpandText first = .error e) ↔ ∃ token, .system token ∈ first) ∧
      ∀ e, selectExpandText first = .error e ↔
        ∃ token, e = .illegalSystemToken token ∧ FirstReserved first token) ∧
    (((∃ e, expandText first = .error e) ↔ ∃ token, .system token ∈ first) ∧
      ∀ e, expandText first = .error e ↔
        ∃ token, e = .illegalSystemToken token ∧ FirstReserved first token) ∧
    (HasUnmarkedNames first → HasUnmarkedNames second →
      (∀ text, selectExpandText first = .ok text → selectExpandText second = .ok text →
        identifiers first = identifiers second ∧
          first.tail.map Segment.isStructural = second.tail.map Segment.isStructural) ∧
      ∀ text, expandText first = .ok text → expandText second = .ok text →
        identifiers first = identifiers second) := by
  simp only [selectExpandText_eq, expandText_eq]
  refine ⟨⟨exists_map_checked_eq_error, fun e => map_checked_eq_error⟩,
    ⟨exists_map_checked_eq_error, fun e => map_checked_eq_error⟩, fun hfirst hsecond => ?_⟩
  refine ⟨fun text h₁ h₂ => ?_, fun text h₁ h₂ => ?_⟩
  · exact eq_of_map_checked Nesting.selectExpand hf hs hfirst hsecond h₁ h₂
  · exact (eq_of_map_checked Nesting.expand hf hs hfirst hsecond h₁ h₂).1

/-- The lines of orders with their numbers, where the first segment may be anything. -/
def numberedLines (values : List (String × String)) (structural : Bool) : Path :=
  [.property "Orders" values structural, .property "Id" [] true, .property "Items" [] false,
    .property "Line" [] true]

theorem texts_faithful_numberedLines :
    selectExpandText (numberedLines [] false) =
        .ok "Orders($select=Id;$expand=Items($select=Line))" ∧
      selectExpandText (numberedLines [("Top", "2")] true) =
        .ok "Orders($select=Id;$expand=Items($select=Line))" ∧
      identifiers (numberedLines [] false) = identifiers (numberedLines [("Top", "2")] true) ∧
      expandText (numberedLines [] true ++ [.system "$ref", .system "$count"]) =
        .error (.illegalSystemToken "$ref") := by
  have hnames (values : List (String × String)) (structural : Bool) :
      HasUnmarkedNames (numberedLines values structural) := by
    have hall : Unmarked "Orders" ∧ Unmarked "Id" ∧ Unmarked "Items" ∧ Unmarked "Line" := by decide
    simpa [HasUnmarkedNames, numberedLines, Segment.identifier] using hall
  have htext (values : List (String × String)) (structural : Bool) :
      selectExpandText (numberedLines values structural) =
        .ok "Orders($select=Id;$expand=Items($select=Line))" := rfl
  have hne (values : List (String × String)) (structural : Bool) (more : Path) :
      numberedLines values structural ++ more ≠ [] := List.cons_ne_nil _ _
  refine ⟨htext _ _, htext _ _, ?_, ?_⟩
  · have hagree := (texts_faithful (hne [] false []) (hne [("Top", "2")] true [])).2.2
    exact ((hagree (hnames _ _) (hnames _ _)).1 _ (htext _ _) (htext _ _)).1
  · have hfails := (texts_faithful (hne [] true [.system "$ref", .system "$count"])
      (hne [] true [])).2.1.2
    exact (hfails _).2 ⟨_, rfl, numberedLines [] true, [.system "$count"], rfl,
      by simp [numberedLines]⟩

end Path

end ServiceQuery
