import ServiceQuery.Text.Blank
import ServiceQuery.Text.Search

/-!
# Pieces of a text

Joined pieces are found again by cutting at their separator, and the white space around a text is
what trimming removes.
-/

namespace ServiceQuery.Text

variable {isSeparator : Char → Bool}

theorem split_ne_nil (text : List Char) : split isSeparator text ≠ [] := by
  cases text with
  | nil => exact List.cons_ne_nil _ _
  | cons c rest =>
    rw [split]
    split
    · exact List.cons_ne_nil _ _
    · split <;> exact List.cons_ne_nil _ _

theorem split_append {c : Char} (h : isSeparator c = true) (first second : List Char) :
    split isSeparator (first ++ c :: second) =
      split isSeparator first ++ split isSeparator second := by
  induction first with
  | nil => simp [split, h]
  | cons d first ih =>
    rw [List.cons_append, split, split, ih]
    split
    · rfl
    · -- the first piece of the rest grows, and there is one
      obtain ⟨piece, pieces, hp⟩ := List.exists_cons_of_ne_nil (@split_ne_nil isSeparator first)
      rw [hp]
      rfl

theorem split_of_forall {text : List Char} (h : ∀ c ∈ text, isSeparator c = false) :
    split isSeparator text = [text] := by
  induction text with
  | nil => rfl
  | cons c rest ih =>
    rw [List.forall_mem_cons] at h
    rw [split, ih h.2, if_neg (by simp [h.1])]

theorem toList_join_cons {separator : String} {c : Char} (hc : separator.toList = [c])
    (piece next : String) (rest : List String) :
    (join separator (piece :: next :: rest)).toList =
      piece.toList ++ c :: (join separator (next :: rest)).toList := by
  rw [join, String.intercalate_cons_cons]
  simp [join, hc]

/-- Pieces without the separator are found again. -/
theorem split_join {separator : String} {c : Char} (hc : separator.toList = [c])
    {pieces : List String} (hne : pieces ≠ []) (h : ∀ piece ∈ pieces, c ∉ piece.toList) :
    split (· == c) (join separator pieces).toList = pieces.map String.toList := by
  have hpiece {piece : String} (hp : c ∉ piece.toList) :
      split (· == c) piece.toList = [piece.toList] :=
    split_of_forall fun d hd => beq_eq_false_iff_ne.2 fun heq => hp (heq ▸ hd)
  induction pieces with
  | nil => exact absurd rfl hne
  | cons piece pieces ih =>
    rw [List.forall_mem_cons] at h
    cases pieces with
    | nil => simpa [join] using hpiece h.1
    | cons next rest =>
      have hrest := ih (List.cons_ne_nil _ _) h.2
      rw [toList_join_cons hc, @split_append (· == c) c (beq_self_eq_true c), hpiece h.1, hrest]
      rfl

theorem splitOnce_of_forall {text : List Char} (h : ∀ c ∈ text, isSeparator c = false) :
    splitOnce isSeparator text = none := by
  induction text with
  | nil => rfl
  | cons c rest ih =>
    rw [List.forall_mem_cons] at h
    rw [splitOnce, ih h.2, if_neg (by simp [h.1])]
    rfl

theorem afterPart?_eq_some {part text rest : List Char} :
    afterPart? part text = some rest ↔ text = part ++ rest := by
  induction part generalizing text with
  | nil => simp [afterPart?]
  | cons p part ih =>
    cases text with
    | nil => simp [afterPart?]
    | cons c text =>
      rw [afterPart?]
      by_cases h : p = c
      · simp [h, ih]
      · simp [h, Ne.symm h]

/-! ### White space -/

/-- Nothing but white space. -/
def Blank (text : List Char) : Prop := ∀ c ∈ text, isBlank c = true

instance (text : List Char) : Decidable (Blank text) :=
  decidable_of_iff (text.all isBlank = true) List.all_eq_true

/-- A text with white space around it. -/
def Padded (core text : List Char) : Prop :=
  ∃ before after, Blank before ∧ Blank after ∧ text = before ++ core ++ after

theorem padded_self (text : List Char) : Padded text text :=
  ⟨[], [], List.forall_mem_nil _, List.forall_mem_nil _, by simp⟩

theorem blank_takeWhile (text : List Char) : Blank (text.takeWhile isBlank) := by
  intro c hc
  exact List.all_eq_true.1 List.all_takeWhile c hc

theorem padded_dropWhile (text : List Char) : Padded (text.dropWhile isBlank) text :=
  ⟨text.takeWhile isBlank, [], blank_takeWhile text, List.forall_mem_nil _, by
    rw [List.append_nil, List.takeWhile_append_dropWhile]⟩

theorem dropTrailing_append {after : List Char} (h : Blank after) (text : List Char) :
    dropTrailing isBlank (text ++ after) = dropTrailing isBlank text := by
  have hreverse : ∀ c ∈ after.reverse, isBlank c = true := fun c hc => h c (List.mem_reverse.1 hc)
  rw [dropTrailing, List.reverse_append, List.dropWhile_append_of_pos hreverse]
  rfl

/-- White space around a text makes no difference to what is left of it. -/
theorem trim_of_padded {core text : List Char} (h : Padded core text) : trim text = trim core := by
  obtain ⟨before, after, hb, ha, rfl⟩ := h
  have hnone : after.dropWhile isBlank = [] := by
    rw [← List.append_nil after, List.dropWhile_append_of_pos ha, List.dropWhile_nil]
  rw [trim, trim, List.append_assoc, List.dropWhile_append_of_pos hb, List.dropWhile_append, hnone]
  split
  · next he => rw [List.isEmpty_iff.1 he]
  · exact dropTrailing_append ha _

/-- What trimming removes is white space around what it leaves. -/
theorem padded_trim (text : List Char) : Padded (trim text) text := by
  obtain ⟨after, ha, hlast⟩ : ∃ after, Blank after ∧ text.dropWhile isBlank = trim text ++ after := by
    refine ⟨((text.dropWhile isBlank).reverse.takeWhile isBlank).reverse, ?_, ?_⟩
    · exact fun c hc => blank_takeWhile _ c (List.mem_reverse.1 hc)
    · rw [trim, dropTrailing, ← List.reverse_append, List.takeWhile_append_dropWhile,
        List.reverse_reverse]
  refine ⟨text.takeWhile isBlank, after, blank_takeWhile text, ha, ?_⟩
  rw [List.append_assoc, ← hlast, List.takeWhile_append_dropWhile]

theorem trim_trim (text : List Char) : trim (trim text) = trim text :=
  (trim_of_padded (padded_trim text)).symm

/-- Before a character that is no white space, only the beginning of a text is trimmed. -/
theorem trim_append_singleton {c : Char} (h : isBlank c = false) (text : List Char) :
    trim (text ++ [c]) = text.dropWhile isBlank ++ [c] := by
  have hdrop : (text ++ [c]).dropWhile isBlank = text.dropWhile isBlank ++ [c] := by
    rw [List.dropWhile_append, List.dropWhile_cons_of_neg (by simp [h])]
    split
    · next he => rw [List.isEmpty_iff.1 he, List.nil_append]
    · rfl
  rw [trim, hdrop, dropTrailing, List.reverse_append, List.reverse_singleton, List.singleton_append,
    List.dropWhile_cons_of_neg (by simp [h]), List.reverse_cons, List.reverse_reverse]

end ServiceQuery.Text
