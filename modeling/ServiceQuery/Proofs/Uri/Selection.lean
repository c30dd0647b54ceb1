import ServiceQuery.Proofs.Binding.Expands
import ServiceQuery.Proofs.Uri.Spelling
import ServiceQuery.Proofs.Version

/-!
# Where a selection begins

A request asks whether its address selects properties by looking for the beginning of a selection in
the text of the address. Nothing but the selection of the leaf and the nested selections of its
expanded paths can be found there: no other text has such a beginning in it, and none ends so that
what follows could complete one.
-/

namespace ServiceQuery

namespace Text

theorem occursIn_iff {part text : List Char} : occursIn part text = true ↔ part <:+: text := by
  induction text with
  | nil =>
    rw [occursIn, indexOf?, List.infix_nil]
    split <;> simp_all
  | cons c rest ih =>
    rw [occursIn] at ih
    rw [occursIn, indexOf?, List.infix_cons_iff, ← ih]
    split
    · next h => simp [List.isPrefixOf_iff_prefix.1 h]
    · next h =>
      rw [List.isPrefixOf_iff_prefix] at h
      simp [h]

/-- Each of the pieces that are joined is there. -/
theorem infix_join {separator : String} {pieces : List String} {piece : String}
    (h : piece ∈ pieces) : piece.toList <:+: (join separator pieces).toList := by
  induction pieces with
  | nil => cases h
  | cons first rest ih =>
    cases rest with
    | nil =>
      obtain rfl := List.mem_singleton.1 h
      simp [join]
    | cons next rest =>
      rw [join, String.intercalate_cons_cons, String.toList_append, String.toList_append]
      obtain rfl | h := List.mem_cons.1 h
      · rw [List.append_assoc]
        exact (List.prefix_append _ _).isInfix
      · exact (ih h).trans (List.suffix_append _ _).isInfix

/-- With a character before joined pieces, each piece has that character or the separator before
it. -/
theorem marked_infix_join {separator : String} {mark c : Char} (hs : separator.toList = [c])
    {pieces : List String} {piece : String} (h : piece ∈ pieces) :
    mark :: piece.toList <:+: mark :: (join separator pieces).toList ∨
      c :: piece.toList <:+: mark :: (join separator pieces).toList := by
  induction pieces generalizing mark with
  | nil => cases h
  | cons first rest ih =>
    cases rest with
    | nil =>
      obtain rfl := List.mem_singleton.1 h
      simp [join]
    | cons next rest =>
      have hjoin : (join separator (first :: next :: rest)).toList =
          first.toList ++ c :: (join separator (next :: rest)).toList := by
        rw [join, String.intercalate_cons_cons, String.toList_append, String.toList_append, hs,
          List.append_assoc]
        rfl
      rw [hjoin]
      obtain rfl | h := List.mem_cons.1 h
      · refine .inl (List.IsPrefix.isInfix ?_)
        rw [← List.cons_append]
        exact List.prefix_append _ _
      · have hrest : c :: piece.toList <:+: c :: (join separator (next :: rest)).toList :=
          or_self_iff.1 (ih h)
        refine .inr (hrest.trans (List.IsSuffix.isInfix ?_))
        rw [← List.cons_append]
        exact List.suffix_append _ _

end Text

namespace Uri

/-! ### Texts without a selection -/

/-- What a selection begins with. -/
def selectLabel : List Char := "$select=".toList

/-- No selection begins in the text, whatever follows it. -/
def inertChars : List Char → Bool
  | [] => true
  | c :: rest =>
    (c != '$' || !(selectLabel.isPrefixOf (c :: rest) || (c :: rest).isPrefixOf selectLabel)) &&
      inertChars rest

/-- No selection begins in the text, whatever follows it. -/
def Inert (text : String) : Prop := inertChars text.toList = true

instance (text : String) : Decidable (Inert text) :=
  inferInstanceAs (Decidable (inertChars text.toList = true))

theorem inertChars_cons {c : Char} {rest : List Char} :
    inertChars (c :: rest) = true ↔
      (c = '$' → ¬selectLabel <+: c :: rest ∧ ¬c :: rest <+: selectLabel) ∧
        inertChars rest = true := by
  rw [inertChars, Bool.and_eq_true]
  refine and_congr_left fun _ => ?_
  simp only [Bool.or_eq_true, bne_iff_ne, Bool.not_eq_true', ← Bool.not_eq_true,
    List.isPrefixOf_iff_prefix, ← imp_iff_not_or, not_or]

/-- A text that neither holds nor begins a beginning cannot be continued to one. -/
theorem inertChars_append {first second : List Char} (hf : inertChars first = true)
    (hs : inertChars second = true) : inertChars (first ++ second) = true := by
  induction first with
  | nil => exact hs
  | cons c rest ih =>
    obtain ⟨hc, hrest⟩ := inertChars_cons.1 hf
    rw [List.cons_append, inertChars_cons]
    refine ⟨fun hd => ?_, ih hrest⟩
    obtain ⟨hlong, hshort⟩ := hc hd
    have hpre : c :: rest <+: c :: (rest ++ second) := List.prefix_append (c :: rest) second
    constructor
    · intro hlabel
      exact (List.prefix_or_prefix_of_prefix hlabel hpre).elim hlong hshort
    · intro hlabel
      exact hshort (hpre.trans hlabel)

theorem inertChars_of_not_mem {chars : List Char} (h : '$' ∉ chars) : inertChars chars = true := by
  induction chars with
  | nil => rfl
  | cons c rest ih =>
    rw [List.mem_cons, not_or] at h
    exact inertChars_cons.2 ⟨fun hc => absurd hc.symm h.1, ih h.2⟩

theorem Inert.of_not_mem {text : String} (h : '$' ∉ text.toList) : Inert text :=
  inertChars_of_not_mem h

theorem Inert.append {first second : String} (hf : Inert first) (hs : Inert second) :
    Inert (first ++ second) := by
  rw [Inert, String.toList_append]
  exact inertChars_append hf hs

theorem not_infix_of_inertChars {chars : List Char} (h : inertChars chars = true) :
    ¬selectLabel <:+: chars := by
  induction chars with
  | nil =>
    intro hlabel
    exact absurd (List.infix_nil.1 hlabel) (by decide)
  | cons c rest ih =>
    obtain ⟨hc, hrest⟩ := inertChars_cons.1 h
    rw [List.infix_cons_iff, not_or]
    refine ⟨fun hlabel => ?_, ih hrest⟩
    -- the label begins with a dollar sign, and so does the text
    have hd : c = '$' := by
      obtain ⟨tail, ht⟩ := hlabel
      exact (List.cons.inj ht).1.symm
    exact (hc hd).1 hlabel

/-- What is written is inert if its names are. -/
theorem spelling_inert : Spelling Inert where
  append hf hs := hf.append hs
  word := by decide
  data {text} h := by
    refine .of_not_mem fun hm => ?_
    exact absurd (h '$' hm) (by decide)

end Uri

/-! ### Expanded paths -/

namespace Path

open Uri (Inert)

/-- A selection is nested in the text of a path. -/
def Nests (text : String) : Prop := Text.occursIn "($select=".toList text.toList = true

instance (text : String) : Decidable (Nests text) :=
  inferInstanceAs (Decidable (Text.occursIn "($select=".toList text.toList = true))

theorem nests_iff {text : String} : Nests text ↔ "($select=".toList <:+: text.toList :=
  Text.occursIn_iff

theorem Nests.append_left {text : String} (h : Nests text) (first : String) :
    Nests (first ++ text) := by
  rw [nests_iff, String.toList_append] at *
  exact h.trans (List.suffix_append _ _).isInfix

theorem Nests.append_right {text : String} (h : Nests text) (last : String) :
    Nests (text ++ last) := by
  rw [nests_iff, String.toList_append] at *
  exact h.trans (List.prefix_append _ _).isInfix

theorem inert_or_nests_around {text first last : String} (h : Inert text ∨ Nests text)
    (hf : Inert first) (hl : Inert last) :
    Inert (first ++ text ++ last) ∨ Nests (first ++ text ++ last) := by
  refine h.imp (fun hi => (hf.append hi).append hl) fun hn => ?_
  exact (hn.append_left first).append_right last

theorem inert_expandText {path : Path} {text : String}
    (hn : ∀ name ∈ path.identifiers, Inert name) (h : path.expandText = .ok text) : Inert text := by
  fun_induction expandText path generalizing text with
  | case1 =>
    cases h
    decide
  | case2 => cases h
  | case3 name =>
    cases h
    exact hn name List.mem_cons_self
  | case4 name values structural next rest ih =>
    obtain ⟨inner, hi, h⟩ := Except.bind_eq_ok.1 h
    obtain rfl := Except.pure_eq_ok.1 h
    have hname := hn name List.mem_cons_self
    have hinner := ih (fun other hm => hn other (List.mem_cons_of_mem _ hm)) hi
    have hlabel : Inert "(($expand=" := by decide
    exact ((hname.append hlabel).append hinner).append (by decide)

/-- In the options after a segment, the first structural segment begins a selection. -/
theorem inert_or_nests_optionsText {path : Path} {text : String}
    (hn : ∀ name ∈ path.identifiers, Inert name) (h : path.optionsText = .ok text) :
    Inert text ∨ Nests text := by
  induction path generalizing text with
  | nil =>
    cases h
    exact .inl (by decide)
  | cons segment rest ih =>
    cases segment with
    | system token => cases h
    | property name values structural =>
      cases structural with
      | false =>
        obtain ⟨inner, hi, h⟩ := Except.bind_eq_ok.1 h
        obtain rfl := Except.pure_eq_ok.1 h
        have hname := hn name List.mem_cons_self
        have hinner := ih (fun other hm => hn other (List.mem_cons_of_mem _ hm)) hi
        have hlabel : Inert "($expand=" := by decide
        exact inert_or_nests_around hinner (hlabel.append hname) (by decide)
      | true =>
        obtain ⟨inner, hi, h⟩ := Except.bind_eq_ok.1 h
        obtain rfl := Except.pure_eq_ok.1 h
        have hlabel : Nests "($select=" := by decide
        exact .inr ((hlabel.append_right name).append_right inner)

/-- The text of a path is inert, or a selection is nested in it. -/
theorem inert_or_nests {path : Path} {text : String}
    (hn : ∀ name ∈ path.identifiers, Inert name) (h : path.selectExpandText = .ok text) :
    Inert text ∨ Nests text := by
  cases path with
  | nil =>
    cases h
    exact .inl (by decide)
  | cons segment rest =>
    cases segment with
    | system token => cases h
    | property name values structural =>
      obtain ⟨options, ho, h⟩ := Except.bind_eq_ok.1 h
      obtain rfl := Except.pure_eq_ok.1 h
      have hname := hn name List.mem_cons_self
      have hoptions :=
        inert_or_nests_optionsText (fun other hm => hn other (List.mem_cons_of_mem _ hm)) ho
      exact hoptions.imp hname.append fun hnests => hnests.append_left name

end Path

/-- The names that the address of a chain writes outside of expanded and selected paths. -/
def Chain.writtenNames (chain : Chain) : List String :=
  chain.resources.flatMap Resource.segmentNames ++
    (chain.leaf.apply.toList.flatMap Apply.names ++
      chain.leaf.sequence.flatMap SequenceOption.names)

namespace Resource

/-- The option that expands paths, if there are any. -/
def expandTexts (leaf : Resource) : List String :=
  if leaf.expand.isEmpty then [] else ["$expand=" ++ Text.join "," leaf.expand]

/-- The option that selects properties, if there are any. -/
def selectTexts (leaf : Resource) : List String :=
  match leaf.projection with
  | some projection =>
    if projection.paths.isEmpty then [] else ["$select=" ++ Text.join "," projection.paths]
  | none => []

/-- The leaf selects properties, by itself or nested in a path. -/
def Selects (leaf : Resource) : Prop :=
  (∃ projection ∈ leaf.projection, projection.paths ≠ []) ∨ ∃ path ∈ leaf.expand, Path.Nests path

theorem selectTexts_eq_nil {leaf : Resource}
    (h : ¬∃ projection ∈ leaf.projection, projection.paths ≠ []) : leaf.selectTexts = [] := by
  rw [selectTexts]
  split
  · next projection hp =>
    by_cases he : projection.paths = []
    · rw [he]
      rfl
    · exact absurd ⟨projection, hp, he⟩ h
  · rfl

theorem selectTexts_eq {leaf : Resource} {projection : Projection}
    (hp : leaf.projection = some projection) (he : projection.paths ≠ []) :
    leaf.selectTexts = ["$select=" ++ Text.join "," projection.paths] := by
  rw [selectTexts, hp]
  simp [he]

end Resource

namespace Uri

/-! ### Options -/

theorem gives_optionText?_inert {option : SequenceOption} (h : ∀ name ∈ option.names, Inert name) :
    Gives (fun text => ∀ piece ∈ text, Inert piece) (optionText? option) := by
  have hsome {label text : String} (hl : Inert label) (ht : Inert text) :
      ∀ piece ∈ some (label ++ text), Inert piece := by
    rintro piece ⟨⟩
    exact hl.append ht
  cases option with
  | filter predicates =>
    cases predicates with
    | nil => exact .pure (by simp)
    | cons predicate rest =>
      exact (spelling_inert.gives_conjunction h).bind fun text ht => .pure (hsome (by decide) ht)
  | orderBy selectors =>
    cases selectors with
    | nil => exact .pure (by simp)
    | cons selector rest =>
      exact (spelling_inert.gives_selectors h).bind fun texts ht =>
        .pure (hsome (by decide) (spelling_inert.join (by decide) ht))
  | skip count => exact .pure (hsome (by decide) (spelling_inert.data (isData_nat count)))
  | take count => exact .pure (hsome (by decide) (spelling_inert.data (isData_nat count)))

/-- All options but two are inert. -/
theorem gives_options_inert {leaf : Resource}
    (happly : ∀ name ∈ leaf.apply.toList.flatMap Apply.names, Inert name)
    (hsequence : ∀ name ∈ leaf.sequence.flatMap SequenceOption.names, Inert name) :
    Gives (fun texts => ∃ before after,
      texts = before ++ (leaf.expandTexts ++ (leaf.selectTexts ++ after)) ∧
        (∀ text ∈ before, Inert text) ∧ ∀ text ∈ after, Inert text) (options leaf) := by
  have hoptions : Gives (fun texts => ∀ text ∈ texts, ∀ piece ∈ text, Inert piece)
      (leaf.sequence.mapM optionText?) :=
    .mapM fun option ho => gives_optionText?_inert fun name hm =>
      hsequence name (List.mem_flatMap.2 ⟨option, ho, hm⟩)
  unfold options
  extract_lets expand select custom afterApply
  have hafter (texts : List String) (ht : ∀ text ∈ texts, Inert text) :
      Gives (fun texts => ∃ before after,
        texts = before ++ (leaf.expandTexts ++ (leaf.selectTexts ++ after)) ∧
          (∀ text ∈ before, Inert text) ∧ ∀ text ∈ after, Inert text) (afterApply texts) := by
    refine hoptions.bind fun sequence hs => .pure ?_
    refine ⟨texts ++ sequence.filterMap id, countText leaf.count ++ custom, ?_, ?_, ?_⟩
    · simp only [List.append_assoc]
      rfl
    · rw [List.forall_mem_append]
      refine ⟨ht, fun text hm => ?_⟩
      obtain ⟨found, hf, hid⟩ := List.mem_filterMap.1 hm
      exact hs found hf text hid
    · rw [List.forall_mem_append]
      refine ⟨?_, ?_⟩
      · cases leaf.count <;> decide
      · rw [List.forall_mem_map]
        intro option _
        have hname := spelling_inert.data (isData_encode option.1)
        have hvalue := spelling_inert.data (isData_encode option.2)
        exact (hname.append (by decide)).append hvalue
  clear_value afterApply
  split
  · next apply ha =>
    rw [ha, Option.toList_some, List.flatMap_singleton] at happly
    split
    · exact hafter [] (by simp)
    · refine (spelling_inert.gives_applyText happly).bind fun text ht => hafter _ ?_
      rw [List.forall_mem_singleton]
      exact Inert.append (by decide) ht
  · exact hafter [] (by simp)

/-! ### Addresses -/

theorem inert_addressOf {config : Config} (hroot : '$' ∉ config.baseUri.toList) {path : String}
    (hpath : Inert path) {texts : List String} (ht : ∀ text ∈ texts, Inert text) :
    Inert (addressOf config path texts) := by
  have hservice : Inert config.serviceRoot :=
    .of_not_mem fun hm => hroot (Config.mem_serviceRoot hm)
  have hquery : Inert (Text.join "&" texts) := spelling_inert.join (by decide) ht
  refine Inert.append ?_ ?_
  · rw [rooted]
    split
    · exact hpath
    · exact (hservice.append (by decide)).append hpath
  · split
    · decide
    · exact Inert.append (by decide) hquery

/-- After the path of an address, each option has a question mark or an ampersand before it. -/
theorem marked_infix_addressOf (config : Config) (path : String) {texts : List String}
    {text : String} (h : text ∈ texts) :
    '?' :: text.toList <:+: (addressOf config path texts).toList ∨
      '&' :: text.toList <:+: (addressOf config path texts).toList := by
  have huri : (addressOf config path texts).toList =
      (rooted config path).toList ++ '?' :: (Text.join "&" texts).toList := by
    simp [addressOf, List.ne_nil_of_mem h]
  have hquery : '?' :: (Text.join "&" texts).toList <:+: (addressOf config path texts).toList := by
    rw [huri]
    exact (List.suffix_append _ _).isInfix
  have hseparator : "&".toList = ['&'] := by simp
  obtain hm | hm := Text.marked_infix_join hseparator h
  · exact .inl (hm.trans hquery)
  · exact .inr (hm.trans hquery)

theorem any_selectMarkers {text : List Char} :
    (Request.selectMarkers.any fun marker => Text.occursIn marker.toList text) = true ↔
      ∃ c ∈ ['?', '&', '(', ';'], c :: selectLabel <:+: text := by
  have hmarkers : Request.selectMarkers.map String.toList =
      ['?', '&', '(', ';'].map (· :: selectLabel) := by decide
  have hany : (Request.selectMarkers.any fun marker => Text.occursIn marker.toList text) =
      (Request.selectMarkers.map String.toList).any (Text.occursIn · text) := List.any_map.symm
  rw [hany, hmarkers, List.any_map, List.any_eq_true]
  simp only [Function.comp_apply, Text.occursIn_iff]

/-- The options of a leaf that selects nothing are inert. -/
theorem inert_of_not_selects {leaf : Resource} (h : ¬leaf.Selects)
    (hexpand : ∀ path ∈ leaf.expand, Inert path ∨ Path.Nests path) :
    leaf.selectTexts = [] ∧ ∀ text ∈ leaf.expandTexts, Inert text := by
  rw [Resource.Selects, not_or] at h
  refine ⟨Resource.selectTexts_eq_nil h.1, ?_⟩
  have hpaths (text : String) (hm : text ∈ leaf.expand) : Inert text :=
    (hexpand text hm).resolve_right fun hn => h.2 ⟨text, hm, hn⟩
  rw [Resource.expandTexts]
  split
  · exact List.forall_mem_nil _
  · rw [List.forall_mem_singleton]
    exact Inert.append (by decide) (spelling_inert.join (by decide) hpaths)

/-- A selection begins in an address that has the options of a leaf that selects. -/
theorem exists_marker_of_selects {leaf : Resource} (h : leaf.Selects) {texts : List String}
    (he : leaf.expandTexts ⊆ texts) (hs : leaf.selectTexts ⊆ texts) (config : Config)
    (path : String) :
    ∃ c ∈ ['?', '&', '(', ';'], c :: selectLabel <:+: (addressOf config path texts).toList := by
  obtain ⟨projection, hp, hpaths⟩ | ⟨text, hm, hn⟩ := h
  · -- the option begins with the label, so the mark before the option is the one looked for
    have hoption : "$select=" ++ Text.join "," projection.paths ∈ texts :=
      hs (by rw [Resource.selectTexts_eq hp hpaths]; exact List.mem_cons_self)
    have hlabel (c : Char) : c :: selectLabel <:+:
        c :: ("$select=" ++ Text.join "," projection.paths).toList := by
      rw [String.toList_append, ← List.cons_append]
      exact (List.prefix_append _ _).isInfix
    obtain hmark | hmark := marked_infix_addressOf config path hoption
    · exact ⟨'?', by simp, (hlabel '?').trans hmark⟩
    · exact ⟨'&', by simp, (hlabel '&').trans hmark⟩
  · have hoption : "$expand=" ++ Text.join "," leaf.expand ∈ texts :=
      he (by simp [Resource.expandTexts, List.ne_nil_of_mem hm])
    have hnested : '(' :: selectLabel <:+: ("$expand=" ++ Text.join "," leaf.expand).toList := by
      have hjoined : text.toList <:+: (Text.join "," leaf.expand).toList := Text.infix_join hm
      rw [String.toList_append]
      exact ((Path.nests_iff.1 hn).trans hjoined).trans (List.suffix_append _ _).isInfix
    refine ⟨'(', by simp, ?_⟩
    obtain hmark | hmark := marked_infix_addressOf config path hoption
    · exact (hnested.trans (List.suffix_cons _ _).isInfix).trans hmark
    · exact (hnested.trans (List.suffix_cons _ _).isInfix).trans hmark

/-- A selection is found in an address exactly if the leaf has one. -/
theorem ofChain_select {config : Config} {chain : Chain} {uri : String} {version : ProtocolVersion}
    (hroot : '$' ∉ config.baseUri.toList)
    (hnames : ∀ name ∈ chain.writtenNames, '$' ∉ name.toList)
    (hexpand : ∀ path ∈ chain.leaf.expand, Inert path ∨ Path.Nests path)
    (h : ofChain config chain = .ok (uri, version)) :
    (Request.selectMarkers.any fun marker => Text.occursIn marker.toList uri.toList) = true ↔
      chain.leaf.Selects := by
  have hinert (name : String) (hm : name ∈ chain.writtenNames) : Inert name :=
    .of_not_mem (hnames name hm)
  simp only [Chain.writtenNames, List.forall_mem_append] at hinert
  obtain ⟨hsegments, happly, hsequence⟩ := hinert
  obtain ⟨path, texts, hpath, htexts, rfl⟩ := ofChain_ok h
  obtain ⟨before, after, rfl, hbefore, hafter⟩ := gives_options_inert happly hsequence texts htexts
  rw [any_selectMarkers]
  constructor
  · rintro ⟨c, -, hmark⟩
    by_contra hnot
    obtain ⟨hselect, hexpand⟩ := inert_of_not_selects hnot hexpand
    have hall : ∀ text ∈ before ++ (chain.leaf.expandTexts ++ (chain.leaf.selectTexts ++ after)),
        Inert text := by
      rw [hselect, List.nil_append]
      simp only [List.forall_mem_append]
      exact ⟨hbefore, hexpand, hafter⟩
    have huri := inert_addressOf hroot (spelling_inert.path hsegments hpath) hall
    exact not_infix_of_inertChars huri ((List.suffix_cons c selectLabel).isInfix.trans hmark)
  · intro hselects
    refine exists_marker_of_selects hselects ?_ ?_ config path
    · intro text hm
      exact List.mem_append_right _ (List.mem_append_left _ hm)
    · intro text hm
      exact List.mem_append_right _ (List.mem_append_right _ (List.mem_append_left _ hm))

end Uri

/-! ### Requests -/

/-- The text of a path of names without a dollar sign is inert, or a selection is nested in it. -/
theorem Path.TextOver.inert_or_nests {names : List String} {text : String}
    (h : Path.TextOver names text) (hn : ∀ name ∈ names, '$' ∉ name.toList) :
    Uri.Inert text ∨ Path.Nests text := by
  obtain rfl | ⟨path, hpath, h⟩ := h
  · exact .inl (by decide)
  · have hinert (name : String) (hm : name ∈ path.identifiers) : Uri.Inert name :=
      .of_not_mem (hn name (hpath hm))
    obtain h | h := h
    · exact .inl (Path.inert_expandText hinert h)
    · exact Path.inert_or_nests hinert h

namespace Compiler

variable {compiler : Compiler} {expr reduced : Expr} {bound : BoundQuery} {request : Request}

/-- The leaf of a bound query expands paths of members that the reduced query names. -/
theorem expandsOver_of_bind (hr : compiler.reduce expr = .ok reduced)
    (hb : compiler.bind expr = .ok bound) :
    bound.chain.leaf.ExpandsOver reduced.namedMembers := by
  obtain ⟨found, query, m, hf, hq, rfl⟩ := bind_ok.1 hb
  cases hr.symm.trans hf
  have hleaf := Binding.bindQuery_expandsOver hq
  exact hleaf.mono (Expr.namedMembers_normalize reduced)

/-- A request that is compiled selects properties exactly if the projection of the leaf has a path
or a selection is nested in a path that the leaf expands. No string constant and no custom option
can feign a selection, if neither the base address nor a name has a dollar sign. -/
theorem compile_hasSelect (hr : compiler.reduce expr = .ok reduced)
    (hb : compiler.bind expr = .ok bound) (h : compiler.compile expr = .ok request)
    (hroot : '$' ∉ compiler.config.baseUri.toList)
    (hmembers : ∀ name ∈ reduced.namedMembers, '$' ∉ name.toList)
    (hnames : ∀ name ∈ bound.chain.writtenNames, '$' ∉ name.toList) :
    request.hasSelect = true ↔
      (∃ projection ∈ bound.chain.leaf.projection, projection.paths ≠ []) ∨
        ∃ path ∈ bound.chain.leaf.expand,
          Text.occursIn "($select=".toList path.toList = true := by
  obtain ⟨found, uri, hf, huri, -, hchecked⟩ := compile_eq_ok.1 h
  cases hb.symm.trans hf
  have hexpand : ∀ path ∈ bound.chain.leaf.expand, Uri.Inert path ∨ Path.Nests path :=
    fun path hm => ((expandsOver_of_bind hr hb).expand path hm).inert_or_nests hmembers
  rw [Request.hasSelect, uri_of_checked hchecked]
  exact Uri.ofChain_select hroot hnames hexpand huri

/-- Customers with a name and orders, which have a total. -/
def ordering : Metadata :=
  ({ entitySets := [("Customers", "Customer")]
     types := [
       ("Customer", ⟨[], [⟨"Name", .string, false⟩,
         ⟨"Orders", .collection (.entity "Order"), true⟩]⟩),
       ("Order", ⟨[], [⟨"Total", .int32, false⟩]⟩)] } : Model).metadata

/-- The customers whose name is the beginning of a selection. -/
def feigned : Expr :=
  .call "Where" [.root ⟨"Customers", .entity "Customer", .entitySet⟩,
    .lambda [⟨"c", .entity "Customer"⟩]
      (.binary .equal (.member (.parameter ⟨"c", .entity "Customer"⟩) "Name" .string)
        (.constant (.string "&$select=Name")))] (.collection (.entity "Customer"))

/-- The same customers with the totals of their orders. -/
def totals : Expr :=
  .call "Expand" [feigned, .constant (.string "Orders/Total")] (.collection (.entity "Customer"))

/-- A selection that is nested in an expanded path is found, and one in a constant is not. -/
theorem compile_hasSelect_totals :
    (∃ request, compile ⟨{}, ordering⟩ totals = .ok request ∧
      request.uri =
        "Customers?$filter=Name eq '%26%24select%3DName'&$expand=Orders($select=Total)" ∧
      request.hasSelect = true) ∧
    ∃ request, compile ⟨{}, ordering⟩ feigned = .ok request ∧
      request.uri = "Customers?$filter=Name eq '%26%24select%3DName'" ∧
      request.hasSelect = false := by
  -- what the theorem says of a query without a projection, from the texts that it needs to know
  have hselect (expr : Expr) (uri : String) (members written expand : List String)
      (hfields : Expr.namedMembers <$> reduce ⟨{}, ordering⟩ expr = .ok members)
      (hleaf : (fun bound => (bound.chain.writtenNames, bound.chain.leaf.expand,
        bound.chain.leaf.projection.isNone)) <$> bind ⟨{}, ordering⟩ expr =
          .ok (written, expand, true))
      (htext : Request.uri <$> compile ⟨{}, ordering⟩ expr = .ok uri)
      (hmembers : ∀ name ∈ members, '$' ∉ name.toList)
      (hwritten : ∀ name ∈ written, '$' ∉ name.toList) :
      ∃ request, compile ⟨{}, ordering⟩ expr = .ok request ∧ request.uri = uri ∧
        (request.hasSelect = true ↔
          ∃ path ∈ expand, Text.occursIn "($select=".toList path.toList = true) := by
    obtain ⟨reduced, hr, rfl⟩ := Except.map_eq_ok.1 hfields
    obtain ⟨bound, hb, hparts⟩ := Except.map_eq_ok.1 hleaf
    obtain ⟨request, h, huri⟩ := Except.map_eq_ok.1 htext
    simp only [Prod.mk.injEq, Option.isNone_iff_eq_none] at hparts
    obtain ⟨rfl, rfl, hnone⟩ := hparts
    have hiff := compile_hasSelect hr hb h (by decide) hmembers hwritten
    rw [hnone] at hiff
    exact ⟨request, h, huri, by simpa using hiff⟩
  constructor
  · obtain ⟨request, h, huri, hiff⟩ := hselect totals _ ["Name", "Orders", "Total"]
      ["Customers", "Name"] ["Orders($select=Total)"] rfl rfl rfl (by decide) (by decide)
    exact ⟨request, h, huri, hiff.2 (by decide)⟩
  · obtain ⟨request, h, huri, hiff⟩ := hselect feigned _ ["Name"] ["Customers", "Name"] []
      rfl rfl rfl (by decide) (by decide)
    exact ⟨request, h, huri, by simpa using hiff⟩

end Compiler

end ServiceQuery
