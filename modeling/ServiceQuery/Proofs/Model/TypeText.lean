import ServiceQuery.Model.TypeText
import ServiceQuery.Proofs.Text

/-!
# Property types and their texts

A property type has one text without white space, and the same text with white space around any part
of it. These are the texts that are read as the type, and no other text is read.
-/

namespace ServiceQuery.TypeText

/-- The types with a keyword. -/
def isScalar : Ty → Bool
  | .bool | .int32 | .int64 | .single | .double | .decimal | .string => true
  | _ => false

/-- The text of a property type. Types that no property has are without one. -/
def render : Ty → String
  | .bool => "bool"
  | .int32 => "int32"
  | .int64 => "int64"
  | .single => "single"
  | .double => "double"
  | .decimal => "decimal"
  | .string => "string"
  | .complex name => name
  | .nullable of => render of ++ "?"
  | .collection of => "Collection(" ++ render of ++ ")"
  | _ => ""

/-- The name of a complex type that cannot be taken for another type. -/
structure IsTypeName (name : String) : Prop where
  trimmed : Text.trim name.toList = name.toList
  ne_keyword : ∀ ty, isScalar ty = true → name ≠ render ty
  ne_nullable : ∀ inner, name.toList ≠ inner ++ ['?']
  ne_collection : ∀ inner, name.toList ≠ "Collection(".toList ++ inner ++ [')']

/-- A type that properties can have, given the names of the complex types. -/
inductive IsPropertyType (complexTypes : List String) : Ty → Prop where
  | scalar {ty : Ty} (h : isScalar ty = true) : IsPropertyType complexTypes ty
  | complex {name : String} (hm : name ∈ complexTypes) (hn : IsTypeName name) :
    IsPropertyType complexTypes (.complex name)
  | nullable {of : Ty} (h : IsPropertyType complexTypes of) :
    IsPropertyType complexTypes (.nullable of)
  | collection {of : Ty} (h : IsPropertyType complexTypes of) :
    IsPropertyType complexTypes (.collection of)

/-- The text of a type, with white space around itself and around the text of every type inside. -/
inductive Spaced : Ty → List Char → Prop where
  | scalar {ty : Ty} {text : List Char} (h : isScalar ty = true)
    (hp : Text.Padded (render ty).toList text) : Spaced ty text
  | complex {name : String} {text : List Char} (hp : Text.Padded name.toList text) :
    Spaced (.complex name) text
  | nullable {of : Ty} {inner text : List Char} (h : Spaced of inner)
    (hp : Text.Padded (inner ++ ['?']) text) : Spaced (.nullable of) text
  | collection {of : Ty} {inner text : List Char} (h : Spaced of inner)
    (hp : Text.Padded ("Collection(".toList ++ inner ++ [')']) text) :
    Spaced (.collection of) text

/-- A text without white space is one of the texts. -/
theorem IsPropertyType.spaced_render {complexTypes : List String} {ty : Ty}
    (h : IsPropertyType complexTypes ty) : Spaced ty (render ty).toList := by
  induction h with
  | scalar h => exact .scalar h (Text.padded_self _)
  | complex => exact .complex (Text.padded_self _)
  | nullable h ih =>
    refine .nullable ih ?_
    rw [render, String.toList_append]
    exact Text.padded_self _
  | collection h ih =>
    refine .collection ih ?_
    rw [render, String.toList_append, String.toList_append]
    exact Text.padded_self _

/-! ### What each part of a text is read as -/

theorem beforeLast?_eq_some {c : Char} {text rest : List Char} :
    beforeLast? c text = some rest ↔ text = rest ++ [c] := by
  rw [← List.reverse_inj, List.reverse_append, List.reverse_singleton, List.singleton_append,
    beforeLast?]
  split
  · next last tail heq =>
    rw [heq]
    by_cases h : last = c
    · simp [h, List.reverse_eq_iff]
    · simp [h]
  · next heq => simp [heq]

theorem insideCollection?_eq_some {text inner : List Char} :
    insideCollection? text = some inner ↔
      text = "Collection(".toList ++ inner ++ [')'] := by
  rw [insideCollection?, Option.bind_eq_some_iff, List.append_assoc]
  simp only [beforeLast?_eq_some, Text.afterPart?_eq_some]
  exact ⟨fun ⟨_, ht, hr⟩ => hr ▸ ht, fun h => ⟨_, h, rfl⟩⟩

theorem scalar?_eq_some {name : String} {ty : Ty} :
    scalar? name = some ty ↔ isScalar ty = true ∧ name = render ty := by
  constructor
  · intro h
    unfold scalar? at h
    split at h
    all_goals cases h
    all_goals exact ⟨rfl, rfl⟩
  · rintro ⟨hs, rfl⟩
    cases ty <;> first | rfl | cases hs

variable {complexTypes : List String}

/-- A name is the keyword of a scalar type, or else declared. -/
theorem named?_eq_some {name : String} {ty : Ty} :
    named? complexTypes name = some ty ↔ (isScalar ty = true ∧ name = render ty) ∨
      (∀ other, isScalar other = true → name ≠ render other) ∧ name ∈ complexTypes ∧
        ty = .complex name := by
  rw [← scalar?_eq_some, named?]
  cases hs : scalar? name with
  | some scalar =>
    obtain ⟨hscalar, hname⟩ := scalar?_eq_some.1 hs
    exact ⟨.inl, fun h => h.resolve_right fun hother => hother.1 scalar hscalar hname⟩
  | none =>
    have hne : ∀ other, isScalar other = true → name ≠ render other := by
      intro other ho he
      cases hs.symm.trans (scalar?_eq_some.2 ⟨ho, he⟩)
    by_cases hm : name ∈ complexTypes
    · rw [if_pos (List.contains_iff_mem.2 hm)]
      refine ⟨fun h => .inr ⟨hne, hm, (Option.some.inj h).symm⟩, ?_⟩
      rintro (h | ⟨-, -, rfl⟩)
      · cases h
      · rfl
    · simp [hm]

/-- White space around a text makes no difference to what it is read as. -/
theorem parse_of_padded {core text : List Char} (h : Text.Padded core text) :
    parse complexTypes text = parse complexTypes core := by
  rw [parse.eq_def complexTypes text, parse.eq_def complexTypes core, Text.trim_of_padded h]

theorem parse_nullable (inner : List Char) :
    parse complexTypes (inner ++ ['?']) = (parse complexTypes inner).map .nullable := by
  have hlast : beforeLast? '?' (Text.trim (inner ++ ['?'])) =
      some (inner.dropWhile Text.isBlank) := by
    rw [beforeLast?_eq_some, Text.trim_append_singleton (by decide)]
  rw [parse, parse_of_padded (Text.padded_dropWhile inner)]
  split
  · next found heq =>
    rw [hlast, Option.some.injEq] at heq
    rw [heq]
  · next hnone => cases hnone.symm.trans hlast

theorem trim_collection (inner : List Char) :
    Text.trim ("Collection(".toList ++ inner ++ [')']) =
      "Collection(".toList ++ inner ++ [')'] := by
  have hfirst : ("Collection(".toList ++ inner).dropWhile Text.isBlank =
      "Collection(".toList ++ inner := List.dropWhile_cons_of_neg (by decide)
  rw [Text.trim_append_singleton (by decide), hfirst]

theorem parse_collection (inner : List Char) :
    parse complexTypes ("Collection(".toList ++ inner ++ [')']) =
      (parse complexTypes inner).map .collection := by
  have hlast : beforeLast? '?' ("Collection(".toList ++ inner ++ [')']) = none := by
    rw [Option.eq_none_iff_forall_ne_some]
    intro rest h
    have hends := List.append_inj_right' (beforeLast?_eq_some.1 h) rfl
    exact absurd hends (by decide)
  have hinside := insideCollection?_eq_some.2 (Eq.refl ("Collection(".toList ++ inner ++ [')']))
  rw [parse, trim_collection]
  split
  · next hsome => cases hsome.symm.trans hlast
  · split
    · next found heq =>
      rw [hinside, Option.some.injEq] at heq
      rw [heq]
    · next hnone => cases hnone.symm.trans hinside

theorem parse_name {name : String} (h : Text.trim name.toList = name.toList)
    (hnullable : ∀ inner, name.toList ≠ inner ++ ['?'])
    (hcollection : ∀ inner, name.toList ≠ "Collection(".toList ++ inner ++ [')']) :
    parse complexTypes name.toList = named? complexTypes name := by
  rw [parse, h]
  split
  · next heq => exact absurd (beforeLast?_eq_some.1 heq) (hnullable _)
  · split
    · next heq => exact absurd (insideCollection?_eq_some.1 heq) (hcollection _)
    · rw [String.ofList_toList]

/-! ### Reading and writing -/

theorem parse_keyword {ty : Ty} (h : isScalar ty = true) :
    parse complexTypes (render ty).toList = some ty := by
  have hname : Text.trim (render ty).toList = (render ty).toList ∧
      (render ty).toList.getLast? ≠ some '?' ∧ (render ty).toList.head? ≠ some 'C' := by
    cases ty <;> first | decide | cases h
  rw [parse_name hname.1]
  · exact named?_eq_some.2 (.inl ⟨h, rfl⟩)
  · intro inner heq
    exact hname.2.1 (by rw [heq]; exact List.getLast?_concat)
  · intro inner heq
    exact hname.2.2 (by rw [heq]; rfl)

theorem parse_of_spaced {ty : Ty} {text : List Char} (ht : IsPropertyType complexTypes ty)
    (hs : Spaced ty text) : parse complexTypes text = some ty := by
  induction hs with
  | @scalar ty text h hp =>
    rw [parse_of_padded hp, parse_keyword h]
  | @complex name text hp =>
    cases ht with
    | scalar h => cases h
    | complex hm hn =>
      rw [parse_of_padded hp, parse_name hn.trimmed hn.ne_nullable hn.ne_collection]
      exact named?_eq_some.2 (.inr ⟨hn.ne_keyword, hm, rfl⟩)
  | nullable hs hp ih =>
    cases ht with
    | scalar h => cases h
    | nullable ht => rw [parse_of_padded hp, parse_nullable, ih ht, Option.map_some]
  | collection hs hp ih =>
    cases ht with
    | scalar h => cases h
    | collection ht => rw [parse_of_padded hp, parse_collection, ih ht, Option.map_some]

theorem spaced_of_parse {ty : Ty} {text : List Char} (h : parse complexTypes text = some ty) :
    IsPropertyType complexTypes ty ∧ Spaced ty text := by
  have hpadded := Text.padded_trim text
  induction text using parse.induct generalizing ty with
  | case1 text inner hlast ih =>
    rw [beforeLast?_eq_some.1 hlast] at hpadded
    rw [parse_of_padded hpadded, parse_nullable, Option.map_eq_some_iff] at h
    obtain ⟨of, hof, rfl⟩ := h
    obtain ⟨ht, hs⟩ := ih hof (Text.padded_trim inner)
    exact ⟨.nullable ht, .nullable hs hpadded⟩
  | case2 text hlast inner hinside ih =>
    rw [insideCollection?_eq_some.1 hinside] at hpadded
    rw [parse_of_padded hpadded, parse_collection, Option.map_eq_some_iff] at h
    obtain ⟨of, hof, rfl⟩ := h
    obtain ⟨ht, hs⟩ := ih hof (Text.padded_trim inner)
    exact ⟨.collection ht, .collection hs hpadded⟩
  | case3 text hlast hinside =>
    have hnullable (inner : List Char) : Text.trim text ≠ inner ++ ['?'] := fun he => by
      cases hlast.symm.trans (beforeLast?_eq_some.2 he)
    have hcollection (inner : List Char) :
        Text.trim text ≠ "Collection(".toList ++ inner ++ [')'] := fun he => by
      cases hinside.symm.trans (insideCollection?_eq_some.2 he)
    obtain ⟨name, hname⟩ : ∃ name : String, Text.trim text = name.toList :=
      ⟨String.ofList (Text.trim text), String.toList_ofList.symm⟩
    have htrim : Text.trim name.toList = name.toList := by rw [← hname, Text.trim_trim]
    rw [hname] at hpadded hnullable hcollection
    rw [parse_of_padded hpadded, parse_name htrim hnullable hcollection, named?_eq_some] at h
    obtain ⟨hscalar, rfl⟩ | ⟨hkeyword, hm, rfl⟩ := h
    · exact ⟨.scalar hscalar, .scalar hscalar hpadded⟩
    · exact ⟨.complex hm ⟨htrim, hkeyword, hnullable, hcollection⟩, .complex hpadded⟩

/-- The texts of a type with white space around their parts are read as the type, and no other text
is read. -/
theorem parse_exact (complexTypes : List String) :
    (∀ ty, IsPropertyType complexTypes ty → Spaced ty (render ty).toList) ∧
      ∀ ty text, parse complexTypes text = some ty ↔
        IsPropertyType complexTypes ty ∧ Spaced ty text :=
  ⟨fun _ h => h.spaced_render, fun _ _ => ⟨spaced_of_parse, fun h => parse_of_spaced h.1 h.2⟩⟩

namespace Sample

/-- The names of complex types, some of which look like parts of other types. -/
def declared : List String := ["Address", "Unit)", "Collection(x"]

/-- A collection of collections that may be missing and have missing elements. -/
def nested : Ty := .nullable (.collection (.collection (.nullable (.complex "Unit)"))))

def nestedText : List Char := " Collection( Collection(Unit) ?\t) ) ? ".toList

theorem isPropertyType_nested : IsPropertyType declared nested := by
  refine .nullable (.collection (.collection (.nullable (.complex (by decide) ⟨rfl, ?_, ?_, ?_⟩))))
  · intro ty h
    cases ty <;> first | decide | cases h
  · intro inner h
    cases List.append_inj_right' (show ['U', 'n', 'i', 't'] ++ [')'] = inner ++ ['?'] from h) rfl
  · intro inner h
    cases h

theorem spaced_nested : Spaced nested nestedText :=
  have name : Spaced (.complex "Unit)") "Unit) ".toList :=
    .complex ⟨[], [' '], by decide, by decide, rfl⟩
  have element : Spaced (.nullable (.complex "Unit)")) "Unit) ?\t".toList :=
    .nullable name ⟨[], ['\t'], by decide, by decide, rfl⟩
  have inner : Spaced (.collection (.nullable (.complex "Unit)")))
      " Collection(Unit) ?\t) ".toList :=
    .collection element ⟨[' '], [' '], by decide, by decide, rfl⟩
  have outer : Spaced (.collection (.collection (.nullable (.complex "Unit)"))))
      "Collection( Collection(Unit) ?\t) ) ".toList :=
    .collection inner ⟨[], [' '], by decide, by decide, rfl⟩
  .nullable outer ⟨[' '], [' '], by decide, by decide, rfl⟩

end Sample

theorem parse_exact_nested :
    IsPropertyType Sample.declared Sample.nested ∧ Spaced Sample.nested Sample.nestedText ∧
      parse Sample.declared Sample.nestedText = some Sample.nested ∧
      Spaced Sample.nested "Collection(Collection(Unit)?))?".toList :=
  ⟨Sample.isPropertyType_nested, Sample.spaced_nested,
    ((parse_exact Sample.declared).2 _ _).2 ⟨Sample.isPropertyType_nested, Sample.spaced_nested⟩,
    (parse_exact Sample.declared).1 _ Sample.isPropertyType_nested⟩

end ServiceQuery.TypeText
