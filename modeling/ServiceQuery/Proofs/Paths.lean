import Mathlib.Data.List.TakeWhile
import ServiceQuery.Proofs.Occurrence

/-!
# What a projection asks a service for

A projection reads chains of members from the element. Each of them is classified by the service
model and then selected or expanded. A chain of structural properties is selected as a whole, and
one that begins with a navigation is expanded with all navigations in it.
-/

namespace ServiceQuery

namespace Path

/-! ### Names in texts -/

/-- The text begins with a parenthesis. -/
def Delimited (text : String) : Prop := ∃ rest, text = "(" ++ rest ∨ text = ")" ++ rest

/-- The name stands in the text after an expand option, up to a parenthesis. -/
def ExpandsBelow (text name : String) : Prop :=
  ∃ before after, text = before ++ "$expand=" ++ name ++ after ∧ Delimited after

/-- The navigations of the path stand in the text after expand options. -/
def ExpandsNavigations (text : String) (path : Path) : Prop :=
  ∀ segment ∈ path, segment.isStructural = false → ExpandsBelow text segment.identifier

/-- The name stands in the text as one that is expanded: at its beginning or after an expand option,
and up to its end or to a parenthesis. -/
def Expands (text name : String) : Prop :=
  ∃ before after, text = before ++ name ++ after ∧
    (before = "" ∨ ∃ outer, before = outer ++ "$expand=") ∧ (after = "" ∨ Delimited after)

theorem Delimited.append {text : String} (h : Delimited text) (rest : String) :
    Delimited (text ++ rest) := by
  obtain ⟨inner, rfl | rfl⟩ := h
  · exact ⟨inner ++ rest, .inl (String.append_assoc ..)⟩
  · exact ⟨inner ++ rest, .inr (String.append_assoc ..)⟩

theorem ExpandsBelow.append {text name : String} (h : ExpandsBelow text name)
    (before after : String) : ExpandsBelow (before ++ text ++ after) name := by
  obtain ⟨left, right, rfl, hr⟩ := h
  exact ⟨before ++ left, right ++ after, by simp only [String.append_assoc], hr.append after⟩

theorem ExpandsBelow.expands {text name : String} (h : ExpandsBelow text name) :
    Expands text name := by
  obtain ⟨before, after, rfl, hr⟩ := h
  exact ⟨before ++ "$expand=", after, rfl, .inr ⟨before, rfl⟩, .inr hr⟩

theorem expandsBelow_self (before name : String) {options : String}
    (h : options = "" ∨ Delimited options) :
    ExpandsBelow (before ++ "$expand=" ++ name ++ options ++ ")") name := by
  refine ⟨before, options ++ ")", String.append_assoc .., ?_⟩
  obtain rfl | h := h
  · exact ⟨"", .inr rfl⟩
  · exact h.append ")"

theorem ExpandsNavigations.cons_structural {text : String} {rest : Path}
    (h : ExpandsNavigations text rest) (before name : String) (values : List (String × String)) :
    ExpandsNavigations (before ++ text) (.property name values true :: rest) := by
  intro segment hmem hnav
  obtain rfl | hmem := List.mem_cons.1 hmem
  · cases hnav
  · simpa using (h segment hmem hnav).append before ""

theorem ExpandsNavigations.cons_navigation {options : String} {rest : Path}
    (h : ExpandsNavigations options rest) (hopen : options = "" ∨ Delimited options)
    (before name : String) (values : List (String × String)) :
    ExpandsNavigations (before ++ "$expand=" ++ name ++ options ++ ")")
      (.property name values false :: rest) := by
  intro segment hmem hnav
  obtain rfl | hmem := List.mem_cons.1 hmem
  · exact expandsBelow_self before name hopen
  · exact (h segment hmem hnav).append (before ++ "$expand=" ++ name) ")"

/-- The options of a path and the rest of a selection expand the navigations in them. -/
theorem expandsNavigations_texts (path : Path) :
    (∀ text, path.optionsText = .ok text →
      (text = "" ∨ Delimited text) ∧ ExpandsNavigations text path) ∧
    ∀ text, path.selectionText = .ok text → ExpandsNavigations text path := by
  induction path with
  | nil =>
    refine ⟨fun text h => ?_, fun text h => List.forall_mem_nil _⟩
    cases h
    exact ⟨.inl rfl, List.forall_mem_nil _⟩
  | cons segment rest ih =>
    obtain ⟨hoptions, hselection⟩ := ih
    cases segment with
    | system token => exact ⟨fun text h => (nomatch h), fun text h => (nomatch h)⟩
    | property name values structural =>
      cases structural with
      | true =>
        -- a structural segment stands in a selection, whose rest expands the navigations
        refine ⟨fun text h => ?_, fun text h => ?_⟩
        all_goals
          simp only [optionsText, selectionText, Except.bind_eq_ok, Except.pure_eq_ok] at h
          obtain ⟨inner, hi, rfl⟩ := h
          have hinner := hselection inner hi
        · have hopen : Delimited ("($select=" ++ name ++ inner) :=
            ⟨"$select=" ++ name ++ inner, .inl (by simp [← String.append_assoc])⟩
          exact ⟨.inr hopen, hinner.cons_structural ("($select=" ++ name) name values⟩
        · exact hinner.cons_structural ("," ++ name) name values
      | false =>
        -- a navigation is expanded here, and those after it in its options
        refine ⟨fun text h => ?_, fun text h => ?_⟩
        all_goals
          simp only [optionsText, selectionText, Except.bind_eq_ok, Except.pure_eq_ok] at h
          obtain ⟨inner, hi, rfl⟩ := h
          obtain ⟨hinside, hinner⟩ := hoptions inner hi
        · have hopen : Delimited ("($expand=" ++ name ++ inner ++ ")") :=
            ⟨"$expand=" ++ name ++ inner ++ ")", .inl (by simp [← String.append_assoc])⟩
          exact ⟨.inr hopen, hinner.cons_navigation hinside "(" name values⟩
        · exact hinner.cons_navigation hinside ";" name values

/-- The text of a path expands its navigations. -/
theorem expands_selectExpandText {path : Path} {text : String}
    (h : path.selectExpandText = .ok text) :
    ∀ segment ∈ path, segment.isStructural = false → Expands text segment.identifier := by
  intro segment hmem hnav
  cases path with
  | nil => cases hmem
  | cons first rest =>
    cases first with
    | system token => cases h
    | property name values structural =>
      simp only [selectExpandText, Except.bind_eq_ok, Except.pure_eq_ok] at h
      obtain ⟨options, ho, rfl⟩ := h
      obtain ⟨hopen, hbelow⟩ := (expandsNavigations_texts rest).1 options ho
      obtain rfl | hmem := List.mem_cons.1 hmem
      · exact ⟨"", options, by rw [String.empty_append]; rfl, .inl rfl, hopen⟩
      · simpa using ((hbelow segment hmem hnav).append name "").expands

end Path

/-! ### What is asked for -/

theorem mem_addDistinct (item : String) (items : List String) : item ∈ addDistinct item items := by
  rw [addDistinct]
  split
  next h => exact List.contains_iff_mem.1 h
  next => exact List.mem_append_right items (List.mem_singleton_self item)

theorem subset_addDistinct (item : String) (items : List String) :
    items ⊆ addDistinct item items := by
  rw [addDistinct]
  split
  · exact List.Subset.refl items
  · exact List.subset_append_left items [item]

namespace ProjectionPaths

/-- The path is among those that are asked for: one that begins with a structural property is
selected up to its first navigation, and any other is expanded. -/
structure Fetches (paths : ProjectionPaths) (first : Segment) (rest : Path) : Prop where
  select : first.isStructural = true →
    "/".intercalate (Path.identifiers ((first :: rest).takeWhile Segment.isStructural)) ∈
      paths.select
  expand : first.isStructural = false →
    ∃ text ∈ paths.expand, Path.selectExpandText (first :: rest) = .ok text

/-- The second paths ask for all that the first ask for. -/
structure Grows (paths grown : ProjectionPaths) : Prop where
  select : paths.select ⊆ grown.select
  expand : paths.expand ⊆ grown.expand

theorem Grows.refl (paths : ProjectionPaths) : paths.Grows paths :=
  ⟨List.Subset.refl _, List.Subset.refl _⟩

theorem Grows.trans {a b c : ProjectionPaths} (hab : a.Grows b) (hbc : b.Grows c) : a.Grows c :=
  ⟨List.Subset.trans hab.select hbc.select, List.Subset.trans hab.expand hbc.expand⟩

theorem Fetches.grow {paths grown : ProjectionPaths} {first : Segment} {rest : Path}
    (h : paths.Fetches first rest) (hg : paths.Grows grown) : grown.Fetches first rest where
  select hs := hg.select (h.select hs)
  expand hn := by
    obtain ⟨text, hmem, ht⟩ := h.expand hn
    exact ⟨text, hg.expand hmem, ht⟩

/-- A path that is added is asked for, with all that was asked for before. -/
theorem add_eq_ok {paths grown : ProjectionPaths} {path : Path} (h : paths.add path = .ok grown) :
    paths.Grows grown ∧ ∀ first rest, path = first :: rest → grown.Fetches first rest := by
  cases path with
  | nil =>
    cases h
    exact ⟨.refl paths, fun first rest hp => (nomatch hp)⟩
  | cons first rest =>
    cases hs : first.isStructural with
    | true =>
      simp only [add, hs, if_true] at h
      cases h
      refine ⟨⟨subset_addDistinct _ _, List.Subset.refl _⟩, fun _ _ hp => ?_⟩
      cases hp
      exact ⟨fun _ => mem_addDistinct _ _, fun hn => (nomatch hs.symm.trans hn)⟩
    | false =>
      simp only [add, hs, Bool.false_eq_true, if_false, Except.bind_eq_ok, Except.pure_eq_ok] at h
      obtain ⟨text, ht, rfl⟩ := h
      refine ⟨⟨List.Subset.refl _, subset_addDistinct _ _⟩, fun _ _ hp => ?_⟩
      cases hp
      exact ⟨fun hn => (nomatch hs.symm.trans hn), fun _ => ⟨text, mem_addDistinct _ _, ht⟩⟩

/-- Each of the paths that are collected is asked for. -/
theorem fetches_foldlM {metadata : Metadata} {elementType : Ty} {chains : List (List String)}
    {paths collected : ProjectionPaths}
    (h : chains.foldlM (fun paths names => do
      let path ← metadata.pathOf elementType names
      paths.add path) paths = .ok collected) :
    paths.Grows collected ∧ ∀ names ∈ chains, ∃ path,
      metadata.pathOf elementType names = .ok path ∧
        ∀ first rest, path = first :: rest → collected.Fetches first rest := by
  induction chains generalizing paths with
  | nil =>
    cases h
    exact ⟨.refl _, List.forall_mem_nil _⟩
  | cons names chains ih =>
    simp only [List.foldlM_cons, Except.bind_eq_ok] at h
    obtain ⟨added, ⟨path, hp, ha⟩, hrest⟩ := h
    obtain ⟨hadded, hfetches⟩ := add_eq_ok ha
    obtain ⟨hgrows, hchains⟩ := ih hrest
    refine ⟨hadded.trans hgrows, List.forall_mem_cons.2 ⟨⟨path, hp, ?_⟩, hchains⟩⟩
    exact fun first rest hcons => (hfetches first rest hcons).grow hgrows

end ProjectionPaths

namespace Lambda

/-- The paths of a projection are those that are collected from its chains. Nothing is selected
where the whole element is used. -/
theorem paths_eq_ok {param : Param} {body : Expr} {elementType : Ty} {metadata : Metadata}
    {paths : ProjectionPaths} (h : Lambda.paths ⟨[param], body⟩ elementType metadata = .ok paths) :
    ∃ collected : ProjectionPaths,
      (body.ReadsLongest param.name [] ∧ paths = { collected with select := [] } ∨
        paths = collected) ∧
      ∀ names, body.ReadsLongest param.name names → ∃ path,
        metadata.pathOf elementType names = .ok path ∧
          ∀ first rest, path = first :: rest → collected.Fetches first rest := by
  simp only [Lambda.paths, Except.bind_eq_ok, Except.pure_eq_ok] at h
  obtain ⟨_, hsingle, collected, hcollected, rfl⟩ := h
  cases hsingle
  refine ⟨collected, ?_, fun names hread => ?_⟩
  · split
    next hwhole => exact .inl ⟨Expr.mem_chainsFrom.1 (List.contains_iff_mem.1 hwhole), rfl⟩
    next => exact .inr rfl
  · obtain ⟨-, hfetched⟩ := ProjectionPaths.fetches_foldlM hcollected
    cases names with
    | nil => exact ⟨[], rfl, fun _ _ hp => (nomatch hp)⟩
    | cons name rest =>
      exact hfetched _ (List.mem_filter.2 ⟨Expr.mem_chainsFrom.2 hread, rfl⟩)

/-- The chains that a projection reads are asked for. One of structural properties is selected,
unless the whole element is, and all navigations of one that begins with a navigation are
expanded. -/
theorem paths_fetched {param : Param} {body : Expr} {elementType : Ty} {metadata : Metadata}
    {paths : ProjectionPaths} (h : Lambda.paths ⟨[param], body⟩ elementType metadata = .ok paths)
    {names : List String} (hread : body.ReadsLongest param.name names) :
    ∃ path, metadata.pathOf elementType names = .ok path ∧
      ∀ first rest, path = first :: rest →
        ((∀ segment ∈ path, segment.isStructural = true) →
          body.ReadsLongest param.name [] ∧ paths.select = [] ∨
            "/".intercalate path.identifiers ∈ paths.select) ∧
        (first.isStructural = false →
          ∀ segment ∈ path, segment.isStructural = false →
            ∃ item ∈ paths.expand, Path.Expands item segment.identifier) := by
  obtain ⟨collected, hpaths, hfetched⟩ := paths_eq_ok h
  obtain ⟨path, hp, hfetches⟩ := hfetched names hread
  refine ⟨path, hp, ?_⟩
  rintro first rest rfl
  have hfetch := hfetches first rest rfl
  have hexpand : paths.expand = collected.expand := by
    obtain ⟨-, rfl⟩ | rfl := hpaths <;> rfl
  constructor
  · intro hall
    have hselect := hfetch.select (hall first List.mem_cons_self)
    rw [List.takeWhile_eq_self_iff.2 hall] at hselect
    obtain ⟨hwhole, rfl⟩ | rfl := hpaths
    · exact .inl ⟨hwhole, rfl⟩
    · exact .inr hselect
  · intro hfirst segment hmem hnav
    obtain ⟨text, htext, hok⟩ := hfetch.expand hfirst
    exact ⟨text, hexpand ▸ htext, Path.expands_selectExpandText hok segment hmem hnav⟩

namespace Sample

/-- Orders with a customer and an address, each in a country. -/
def shop : Metadata :=
  (((((({} : Model).navigation "Order" "Customer" "Customer" false).structural "Order" "Ship"
    (.complex "Address")).navigation "Customer" "Country" "Country" false).navigation "Address"
    "Country" "Country" false).structural "Country" "Name" .string).metadata

def purchase : Param := ⟨"o", .entity "Order"⟩

def home : Expr :=
  .member (.member (.member purchase.toExpr "Customer" (.entity "Customer")) "Country"
    (.entity "Country")) "Name" .string

def destination : Expr :=
  .member (.member (.member purchase.toExpr "Ship" (.complex "Address")) "Country"
    (.entity "Country")) "Name" .string

end Sample

theorem paths_fetched_home :
    Lambda.paths ⟨[Sample.purchase], Sample.home⟩ (.entity "Order") Sample.shop =
        .ok ⟨[], ["Customer($expand=Country($select=Name))"]⟩ ∧
      Sample.home.ReadsLongest "o" ["Customer", "Country", "Name"] ∧
      ∃ item ∈ ["Customer($expand=Country($select=Name))"], Path.Expands item "Country" := by
  have hpaths : Lambda.paths ⟨[Sample.purchase], Sample.home⟩ (.entity "Order") Sample.shop =
      .ok ⟨[], ["Customer($expand=Country($select=Name))"]⟩ := rfl
  have hread : Sample.home.ReadsLongest "o" ["Customer", "Country", "Name"] :=
    Expr.mem_chainsFrom.1 (by decide)
  obtain ⟨path, hp, hfetched⟩ := paths_fetched hpaths hread
  cases hp
  exact ⟨hpaths, hread,
    (hfetched _ _ rfl).2 rfl (.property "Country" [] false) (.tail _ (.head _)) rfl⟩

/-- A navigation after a structural property is not asked for. -/
theorem paths_without_navigation :
    ∃ paths path,
      Lambda.paths ⟨[Sample.purchase], Sample.destination⟩ (.entity "Order") Sample.shop =
        .ok paths ∧
      Sample.destination.ReadsLongest "o" ["Ship", "Country", "Name"] ∧
      Sample.shop.pathOf (.entity "Order") ["Ship", "Country", "Name"] = .ok path ∧
      Segment.property "Country" [] false ∈ path ∧
      ¬∃ item ∈ paths.expand, Path.Expands item "Country" := by
  refine ⟨⟨["Ship"], []⟩,
    [.property "Ship" [] true, .property "Country" [] false, .property "Name" [] true],
    rfl, Expr.mem_chainsFrom.1 (by decide), rfl, .tail _ (.head _), ?_⟩
  rintro ⟨item, hmem, -⟩
  exact List.not_mem_nil hmem

end Lambda

end ServiceQuery
