import ServiceQuery.Text.Blank
import ServiceQuery.Ty

/-!
# Property types in model files

The type of a property is a keyword or the name of a complex type; a question mark after a type
makes it nullable, and `Collection(...)` a collection.
-/

namespace ServiceQuery.TypeText

/-- A text without its last character, if that is `c`. -/
def beforeLast? (c : Char) (text : List Char) : Option (List Char) :=
  match text.reverse with
  | last :: rest => if last = c then some rest.reverse else none
  | [] => none

/-- The text between `Collection(` and the closing parenthesis at the end. -/
def insideCollection? (text : List Char) : Option (List Char) :=
  (Text.afterPart? "Collection(".toList text).bind (beforeLast? ')')

/-- The scalar types by their keywords. -/
def scalar? : String → Option Ty
  | "bool" => some .bool
  | "int32" => some .int32
  | "int64" => some .int64
  | "single" => some .single
  | "double" => some .double
  | "decimal" => some .decimal
  | "string" => some .string
  | _ => none

/-- A scalar type or a declared complex type. -/
def named? (complexTypes : List String) (name : String) : Option Ty :=
  match scalar? name with
  | some ty => some ty
  | none => if complexTypes.contains name then some (.complex name) else none

theorem length_of_beforeLast? {c : Char} {text rest : List Char}
    (h : beforeLast? c text = some rest) : rest.length < text.length := by
  unfold beforeLast? at h
  split at h
  · next last tail reversed =>
    have lengths := congrArg List.length reversed
    split at h
    · cases h
      simp_all
    · cases h
  · cases h

theorem length_of_afterPart? {part text rest : List Char}
    (h : Text.afterPart? part text = some rest) : rest.length ≤ text.length := by
  induction part generalizing text with
  | nil => simp_all [Text.afterPart?]
  | cons p part ih =>
    cases text with
    | nil => simp [Text.afterPart?] at h
    | cons c text =>
      simp only [Text.afterPart?] at h
      split at h
      · exact Nat.le_succ_of_le (ih h)
      · cases h

theorem length_of_insideCollection? {text rest : List Char}
    (h : insideCollection? text = some rest) : rest.length < text.length := by
  obtain ⟨middle, hm, hr⟩ := Option.bind_eq_some_iff.1 h
  exact Nat.lt_of_lt_of_le (length_of_beforeLast? hr) (length_of_afterPart? hm)

theorem length_trim (text : List Char) : (Text.trim text).length ≤ text.length := by
  unfold Text.trim Text.dropTrailing
  have h₁ := (List.dropWhile_sublist (p := Text.isBlank) (l := text)).length_le
  have h₂ := (List.dropWhile_sublist (p := Text.isBlank)
    (l := (text.dropWhile Text.isBlank).reverse)).length_le
  simp only [List.length_reverse] at *
  omega

/-- Reads a property type, with white space around any part of it. -/
def parse (complexTypes : List String) (text : List Char) : Option Ty :=
  match _nullable : beforeLast? '?' (Text.trim text) with
  | some inner => (parse complexTypes inner).map .nullable
  | none =>
    match _collection : insideCollection? (Text.trim text) with
    | some inner => (parse complexTypes inner).map .collection
    | none => named? complexTypes (String.ofList (Text.trim text))
termination_by text.length
decreasing_by
  · exact Nat.lt_of_lt_of_le (length_of_beforeLast? _nullable) (length_trim text)
  · exact Nat.lt_of_lt_of_le (length_of_insideCollection? _collection) (length_trim text)

end ServiceQuery.TypeText
