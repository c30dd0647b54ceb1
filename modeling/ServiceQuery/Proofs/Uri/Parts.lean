import Mathlib.Data.List.Forall2
import ServiceQuery.Proofs.Uri.Spelling

/-!
# The parts of an address

The question mark of an address stands before its options and an ampersand between two of them, so
that an address comes apart into its path and one part for each option. Strings and custom options
are encoded, and their characters cannot add a part or change one. Only a name can.
-/

namespace ServiceQuery

/-- An option of a request: one of the protocol, by its name, or a custom one. -/
inductive RequestOption where
  | system (name : String)
  | custom (name value : String)
  deriving DecidableEq

namespace RequestOption

/-- An option of the protocol that may be absent. -/
def systemIf (present : Bool) (name : String) : List RequestOption :=
  if present then [system name] else []

/-- A filter or an ordering is shown if there is something in it. -/
def ofSequence : SequenceOption → List RequestOption
  | .filter predicates => systemIf (!predicates.isEmpty) "$filter"
  | .orderBy selectors => systemIf (!selectors.isEmpty) "$orderby"
  | .skip _ => [system "$skip"]
  | .take _ => [system "$top"]

/-- A part begins with the name of its option. The name and the value of a custom option are encoded
and have one equals sign between them. -/
def Spells (part : String) : RequestOption → Prop
  | system name => ∃ text, part = name ++ "=" ++ text
  | custom name value => ∃ n v, part = n ++ "=" ++ v ∧ '=' ∉ n.toList ∧ '=' ∉ v.toList ∧
      Percent.decode? n.toList = some name ∧ Percent.decode? v.toList = some value

end RequestOption

theorem CustomOptions.mergeSort_entries (options : CustomOptions) :
    options.entries.mergeSort (·.1 ≤ ·.1) = options.entries :=
  List.mergeSort_of_pairwise (options.sorted.imp fun hlt => by simpa using Std.le_of_lt hlt)

namespace Resource

/-- The options of a resource that a request shows, in order. -/
def shown (resource : Resource) : List RequestOption :=
  RequestOption.systemIf (resource.apply.any (!·.isEmpty)) "$apply" ++
  resource.sequence.flatMap RequestOption.ofSequence ++
  RequestOption.systemIf (!resource.expand.isEmpty) "$expand" ++
  RequestOption.systemIf (resource.projection.any (!·.paths.isEmpty)) "$select" ++
  RequestOption.systemIf (resource.count != .none) "$count" ++
  (resource.custom.entries.mergeSort (·.1 ≤ ·.1)).map fun (name, value) => .custom name value

/-- The names that the options of a resource write. -/
def optionNames (resource : Resource) : List String :=
  resource.apply.toList.flatMap Apply.names ++ resource.sequence.flatMap SequenceOption.names ++
    resource.expand ++ resource.projection.toList.flatMap Projection.paths

end Resource

/-- The names that the address of a chain writes. -/
def Chain.names (chain : Chain) : List String :=
  chain.resources.flatMap Resource.segmentNames ++ chain.leaf.optionNames

theorem Text.mem_join {separator : String} {pieces : List String} {c : Char}
    (h : c ∈ (join separator pieces).toList) :
    c ∈ separator.toList ∨ ∃ piece ∈ pieces, c ∈ piece.toList := by
  induction pieces with
  | nil => simp [join] at h
  | cons piece pieces ih =>
    cases pieces with
    | nil => exact .inr ⟨piece, List.mem_cons_self, by simpa [join] using h⟩
    | cons next rest =>
      rw [join, String.intercalate_cons_cons, String.toList_append, String.toList_append,
        List.mem_append, List.mem_append] at h
      obtain (h | h) | h := h
      · exact .inr ⟨piece, List.mem_cons_self, h⟩
      · exact .inl h
      · obtain h | ⟨other, ho, hc⟩ := ih h
        · exact .inl h
        · exact .inr ⟨other, List.mem_cons_of_mem _ ho, hc⟩

namespace Uri

/-! ### Plain texts -/

/-- The characters that part an address. -/
def isReserved (c : Char) : Bool := c == '?' || c == '&' || c == '#'

/-- A text without characters that part an address. -/
def Plain (text : String) : Prop := ∀ c ∈ text.toList, isReserved c = false

instance (text : String) : Decidable (Plain text) :=
  decidable_of_iff (text.toList.all (!isReserved ·) = true) (by simp [Plain])

@[simp]
theorem plain_append {first second : String} :
    Plain (first ++ second) ↔ Plain first ∧ Plain second := by
  simp only [Plain, String.toList_append, List.forall_mem_append]

/-- What is written is plain if its names are. -/
theorem spelling_plain : Spelling Plain where
  append hf hs := plain_append.2 ⟨hf, hs⟩
  word := by decide
  data {text} h := by
    intro c hc
    rw [Bool.eq_false_iff]
    intro hr
    simp only [isReserved, Bool.or_eq_true, beq_iff_eq] at hr
    have hd := h c hc
    obtain (rfl | rfl) | rfl := hr
    all_goals exact absurd hd (by decide)

theorem plain_join {separator : String} (hs : Plain separator) {texts : List String}
    (h : ∀ text ∈ texts, Plain text) : Plain (Text.join separator texts) :=
  spelling_plain.join hs h

theorem plain_encode (text : String) : Plain (Percent.encode text) :=
  spelling_plain.data (isData_encode text)

/-! ### Options -/

/-- A plain part for an option. -/
def Spelled (part : String) (option : RequestOption) : Prop :=
  Plain part ∧ RequestOption.Spells part option

theorem spelled_system {label name text : String} (hl : label = name ++ "=") (hp : Plain label)
    (ht : Plain text) : Spelled (label ++ text) (.system name) :=
  ⟨plain_append.2 ⟨hp, ht⟩, text, by rw [hl]⟩

theorem spelled_systemIf {label name text : String} (absent : Bool) (hl : label = name ++ "=")
    (hp : Plain label) (ht : Plain text) :
    List.Forall₂ Spelled (if absent then [] else [label ++ text])
      (RequestOption.systemIf (!absent) name) := by
  cases absent with
  | true => exact .nil
  | false => exact .cons (spelled_system hl hp ht) .nil

theorem equals_not_mem_encode (text : String) : '=' ∉ (Percent.encode text).toList :=
  Percent.not_mem_encode (by decide) (by decide) text

theorem spelled_custom (name value : String) :
    Spelled (Percent.encode name ++ "=" ++ Percent.encode value) (.custom name value) := by
  refine ⟨?_, _, _, rfl, equals_not_mem_encode name, equals_not_mem_encode value,
    Percent.decode?_encode name, Percent.decode?_encode value⟩
  simp +decide [plain_encode]

theorem gives_optionText? {option : SequenceOption} (h : ∀ name ∈ option.names, Plain name) :
    Gives (fun text => List.Forall₂ Spelled text.toList (RequestOption.ofSequence option))
      (optionText? option) := by
  cases option with
  | filter predicates =>
    cases predicates with
    | nil => exact .pure .nil
    | cons predicate rest =>
      exact (spelling_plain.gives_conjunction h).bind fun text ht =>
        .pure (.cons (spelled_system rfl (by decide) ht) .nil)
  | orderBy selectors =>
    cases selectors with
    | nil => exact .pure .nil
    | cons selector rest =>
      exact (spelling_plain.gives_selectors h).bind fun texts ht =>
        .pure (.cons (spelled_system rfl (by decide) (plain_join (by decide) ht)) .nil)
  | skip count =>
    exact .pure (.cons (spelled_system rfl (by decide) (spelling_plain.data (isData_nat count))) .nil)
  | take count =>
    exact .pure (.cons (spelled_system rfl (by decide) (spelling_plain.data (isData_nat count))) .nil)

theorem gives_sequence {sequence : List SequenceOption}
    (h : ∀ name ∈ sequence.flatMap SequenceOption.names, Plain name) :
    Gives (fun texts => List.Forall₂ Spelled (texts.filterMap id)
      (sequence.flatMap RequestOption.ofSequence)) (sequence.mapM optionText?) := by
  induction sequence with
  | nil => exact .pure .nil
  | cons option sequence ih =>
    rw [List.flatMap_cons, List.forall_mem_append] at h
    rw [List.mapM_cons]
    refine (gives_optionText? h.1).bind fun text ht => (ih h.2).bind fun texts hts => .pure ?_
    rw [List.flatMap_cons]
    cases text with
    | none => exact List.rel_append ht hts
    | some text => exact List.rel_append ht hts

/-- The options of a resource are plain and stand in order, one text for each. -/
theorem gives_options {leaf : Resource} (hn : ∀ name ∈ leaf.optionNames, Plain name) :
    Gives (List.Forall₂ Spelled · leaf.shown) (options leaf) := by
  simp only [Resource.optionNames, List.forall_mem_append] at hn
  obtain ⟨⟨⟨happly, hsequence⟩, hexpand⟩, hselect⟩ := hn
  unfold options
  extract_lets expand select custom afterApply
  have hafter (texts : List String) (ht : List.Forall₂ Spelled texts
      (RequestOption.systemIf (leaf.apply.any (!·.isEmpty)) "$apply")) :
      Gives (List.Forall₂ Spelled · leaf.shown) (afterApply texts) := by
    refine (gives_sequence hsequence).bind fun sequence hs => .pure ?_
    refine List.rel_append (List.rel_append (List.rel_append (List.rel_append
      (List.rel_append ht hs) ?_) ?_) ?_) ?_
    · exact spelled_systemIf _ rfl (by decide) (plain_join (by decide) hexpand)
    · cases hp : leaf.projection with
      | none => simp [select, hp, RequestOption.systemIf]
      | some projection =>
        rw [hp, Option.toList_some, List.flatMap_singleton] at hselect
        simp only [select, hp, Option.any_some]
        exact spelled_systemIf _ rfl (by decide) (plain_join (by decide) hselect)
    · cases leaf.count with
      | none => exact .nil
      | true => exact .cons ⟨by decide, "true", rfl⟩ .nil
      | false => exact .cons ⟨by decide, "false", rfl⟩ .nil
    · rw [CustomOptions.mergeSort_entries]
      simp only [custom, List.forall₂_map_left_iff, List.forall₂_map_right_iff, List.forall₂_same]
      exact fun option _ => spelled_custom option.1 option.2
  clear_value afterApply
  cases ha : leaf.apply with
  | none =>
    rw [ha] at hafter
    exact hafter [] .nil
  | some apply =>
    rw [ha] at hafter happly
    dsimp only
    split
    · next he => exact hafter [] (by simp [RequestOption.systemIf, he])
    · next he =>
      rw [Option.toList_some, List.flatMap_singleton] at happly
      refine (spelling_plain.gives_applyText happly).bind fun text ht => hafter _ ?_
      simp only [Option.any_some, he, Bool.not_false, RequestOption.systemIf, if_true]
      exact .cons (spelled_system rfl (by decide) ht) .nil

/-! ### Addresses -/

theorem Plain.not_mem {text : String} (h : Plain text) {c : Char} (hc : isReserved c = true) :
    c ∉ text.toList := by
  intro hm
  rw [h c hm] at hc
  cases hc

theorem split_join {pieces : List String} (hne : pieces ≠ []) (h : ∀ piece ∈ pieces, Plain piece) :
    Text.split (· == '&') (Text.join "&" pieces).toList = pieces.map String.toList :=
  Text.split_join rfl hne fun piece hp => (h piece hp).not_mem rfl

/-- An address is a plain path and, if there are options, a question mark before them. -/
theorem ofChain_spelled {config : Config} {chain : Chain} {uri : String} {version : ProtocolVersion}
    (hroot : Plain config.baseUri) (hnames : ∀ name ∈ chain.names, Plain name)
    (h : ofChain config chain = .ok (uri, version)) :
    ∃ address texts, Plain address ∧ List.Forall₂ Spelled texts chain.leaf.shown ∧
      uri = address ++ if texts.isEmpty then "" else "?" ++ Text.join "&" texts := by
  rw [Chain.names, List.forall_mem_append] at hnames
  obtain ⟨path, texts, hpath, htexts, rfl⟩ := ofChain_ok h
  have hpath := spelling_plain.path hnames.1 hpath
  have hservice : Plain config.serviceRoot := fun c hc => hroot c (Config.mem_serviceRoot hc)
  refine ⟨rooted config path, texts, ?_, gives_options hnames.2 texts htexts, rfl⟩
  rw [rooted]
  split
  · exact hpath
  · simp +decide [hservice, hpath]

namespace Sample

/-- The orders of one customer with a comment, as they are asked for by a caller who puts separators
into every text. -/
def notedOrders : Chain where
  leaf := ((Resource.ofNavigation 1 "Orders" (.entity "Order") true).addOption
    (.filter [.binary .equal (.member (.input ⟨1, .entity "Order"⟩) "Note" .string)
      (.constant (.string "R&D's?x=1#y"))])
    |>.addOption (.take 5)
    |>.withCustom "tag&top" "a=b&c"
    |>.withCustom "#" "?")
  ancestors := [(Resource.ofRoot 0 ⟨"Customers", .entity "Customer", .entitySet⟩).withKey
    [("Id", .string "?&#")]]

/-- The service of the orders. -/
def service : Config := { baseUri := "https://host/api/" }

def notedOrdersUri : String :=
  "https://host/api/Customers('%3F%26%23')/Orders?$filter=Note eq 'R%26D%27%27s%3Fx%3D1%23y'" ++
    "&$top=5&%23=%3F&tag%26top=a%3Db%26c"

end Sample

/-- The parts of an address are its options. -/
theorem ofChain_parts {config : Config} {chain : Chain} {uri : String} {version : ProtocolVersion}
    (hroot : Plain config.baseUri) (hnames : ∀ name ∈ chain.names, Plain name)
    (h : ofChain config chain = .ok (uri, version)) :
    '#' ∉ uri.toList ∧ (chain.leaf.shown = [] → '?' ∉ uri.toList) ∧
      (chain.leaf.shown ≠ [] → ∃ path query, uri.toList = path ++ '?' :: query ∧
        '?' ∉ path ∧ '?' ∉ query ∧ List.Forall₂ RequestOption.Spells
          ((Text.split (· == '&') query).map String.ofList) chain.leaf.shown) := by
  obtain ⟨address, texts, ha, hs, rfl⟩ := ofChain_spelled hroot hnames h
  obtain ⟨htexts, hspells⟩ := (List.forall₂_and_left _ _).1 hs
  have hmark : isReserved '?' = true := by decide
  have hsign : isReserved '#' = true := by decide
  by_cases hne : texts = []
  · subst hne
    rw [List.forall₂_nil_left_iff] at hspells
    have huri : (address ++ if ([] : List String).isEmpty then "" else "?" ++ Text.join "&" []) =
        address := by simp
    rw [huri]
    exact ⟨ha.not_mem hsign, fun _ => ha.not_mem hmark, fun hn => absurd hspells hn⟩
  · have huri : (address ++ if texts.isEmpty then "" else "?" ++ Text.join "&" texts).toList =
        address.toList ++ '?' :: (Text.join "&" texts).toList := by simp [hne]
    have hquery {c : Char} (hc : isReserved c = true) (hsep : c ≠ '&') :
        c ∉ (Text.join "&" texts).toList := by
      intro hm
      obtain hm | ⟨text, ht, hm⟩ := Text.mem_join hm
      · exact hsep (by simpa using hm)
      · exact (htexts text ht).not_mem hc hm
    rw [huri]
    refine ⟨?_, fun hn => ?_, fun _ => ⟨_, _, rfl, ha.not_mem hmark, hquery hmark (by decide), ?_⟩⟩
    · simp [ha.not_mem hsign, hquery hsign]
    · rw [hn, List.forall₂_nil_right_iff] at hspells
      exact absurd hspells hne
    · rw [split_join hne htexts, List.map_map]
      simpa using hspells

theorem ofChain_parts_notedOrders :
    Plain Sample.service.baseUri ∧ (∀ name ∈ Sample.notedOrders.names, Plain name) ∧
      ofChain Sample.service Sample.notedOrders = .ok (Sample.notedOrdersUri, .v40) ∧
      Sample.notedOrders.leaf.shown = [.system "$filter", .system "$top", .custom "#" "?",
        .custom "tag&top" "a=b&c"] ∧
      ∃ path query, Sample.notedOrdersUri.toList = path ++ '?' :: query ∧ '?' ∉ path ∧
        '?' ∉ query ∧ List.Forall₂ RequestOption.Spells
          ((Text.split (· == '&') query).map String.ofList) Sample.notedOrders.leaf.shown := by
  have hroot : Plain Sample.service.baseUri := by decide
  have hnames : ∀ name ∈ Sample.notedOrders.names, Plain name := by decide
  have huri : ofChain Sample.service Sample.notedOrders = .ok (Sample.notedOrdersUri, .v40) := by
    set_option maxRecDepth 4000 in rfl
  have hshown : Sample.notedOrders.leaf.shown = [.system "$filter", .system "$top",
    .custom "#" "?", .custom "tag&top" "a=b&c"] := by
    rw [Resource.shown, CustomOptions.mergeSort_entries]
    rfl
  have hparts := (ofChain_parts hroot hnames huri).2.2
  exact ⟨hroot, hnames, huri, hshown, hparts (by simp [hshown])⟩

end Uri

end ServiceQuery
