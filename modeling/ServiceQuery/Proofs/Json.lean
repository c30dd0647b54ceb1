import ServiceQuery.Json.Parser
import ServiceQuery.Json.Printer

/-!
# Documents are read back

Each character of a document takes at most two steps of the reader, and each array or object one of
the nesting that is allowed. Numbers end where something follows that is no part of a number.
-/

namespace ServiceQuery.Json

/-! ### Depth -/

theorem depth_pos (json : Json) : 0 < json.depth := by
  cases json <;> simp [depth]

theorem depth_lt_of_mem_items {items : List Json} {item : Json} (h : item ∈ items) :
    item.depth < (array items).depth := by
  rw [depth, Nat.lt_succ_iff]
  induction items with
  | nil => cases h
  | cons first rest ih =>
    rw [itemsDepth]
    obtain rfl | h := List.mem_cons.1 h
    · exact Nat.le_max_left _ _
    · exact Nat.le_trans (ih h) (Nat.le_max_right _ _)

theorem depth_lt_of_mem_fields {fields : List (String × Json)} {name : String} {value : Json}
    (h : (name, value) ∈ fields) : value.depth < (object fields).depth := by
  rw [depth, Nat.lt_succ_iff]
  induction fields with
  | nil => cases h
  | cons first rest ih =>
    rw [fieldsDepth]
    obtain rfl | h := List.mem_cons.1 h
    · exact Nat.le_max_left _ _
    · exact Nat.le_trans (ih h) (Nat.le_max_right _ _)

/-! ### Strings -/

theorem hexValue?_hexDigit : ∀ n < 16, hexValue? (hexDigit n) = some n := by decide

theorem readString_control {c : Char} (h : c.toNat < 0x20) (read rest : List Char) :
    readString read ('\\' :: 'u' :: '0' :: '0' :: hexDigit (c.toNat / 16) ::
      hexDigit (c.toNat % 16) :: rest) = readString (c :: read) rest := by
  have hunit : hexUnit? '0' '0' (hexDigit (c.toNat / 16)) (hexDigit (c.toNat % 16)) =
      some c.toNat := by
    have hhigh := hexValue?_hexDigit (c.toNat / 16) (by omega)
    have hlow := hexValue?_hexDigit (c.toNat % 16) (by omega)
    have hzero : hexValue? '0' = some 0 := by decide
    have hvalue : c.toNat / 16 * 16 + c.toNat % 16 = c.toNat := by omega
    simp [hexUnit?, hzero, hhigh, hlow, hvalue]
  have hsmall : c.toNat < 0xD800 ∨ 0xE000 ≤ c.toNat := by omega
  rw [readString, hunit]
  simp only [hsmall, if_true, Char.ofNat_toNat]

theorem readString_plain {c : Char} (hquote : c ≠ '"') (hslash : c ≠ '\\') (h : ¬ c.toNat < 0x20)
    (read rest : List Char) : readString read (c :: rest) = readString (c :: read) rest := by
  rw [readString.eq_def]
  split
  · next heq => cases heq
  · next heq => exact absurd (List.cons.inj heq).1 hquote
  · next heq => exact absurd (List.cons.inj heq).1 hslash
  · next heq => exact absurd (List.cons.inj heq).1 hslash
  · next heq =>
    obtain ⟨rfl, rfl⟩ := List.cons.inj heq
    rw [if_neg h]

/-- An escaped character is read as the character. -/
theorem readString_escapeChar (c : Char) (read rest : List Char) :
    readString read (escapeChar c ++ rest) = readString (c :: read) rest := by
  rw [escapeChar]
  split
  · next h => rw [h]; rfl
  · next hquote =>
    split
    · next h => rw [h]; rfl
    · next hslash =>
      -- five control characters have a short form
      iterate 5
        split
        · next h => rw [h]; rfl
      split
      · next h => exact readString_control h read rest
      · next h => exact readString_plain hquote hslash h read rest

theorem readString_flatMap (chars read rest : List Char) :
    readString read (chars.flatMap escapeChar ++ '"' :: rest) =
      .ok (String.ofList (read.reverse ++ chars), rest) := by
  induction chars generalizing read with
  | nil =>
    rw [List.append_nil]
    rfl
  | cons c chars ih =>
    rw [List.flatMap_cons, List.append_assoc, readString_escapeChar, ih]
    simp

/-- A string in quotes after the first one. -/
def quoted (s : String) : List Char := s.toList.flatMap escapeChar ++ ['"']

theorem toList_quote (s : String) : (quote s).toList = '"' :: quoted s := by
  simp [quote, quoted]

theorem readString_quoted (s : String) (rest : List Char) :
    readString [] (quoted s ++ rest) = .ok (s, rest) := by
  rw [quoted, List.append_assoc, List.singleton_append, readString_flatMap]
  simp

/-! ### Numbers -/

/-- What follows a value in a document. -/
def Ends (rest : List Char) : Prop :=
  rest = [] ∨ ∃ c tail, rest = c :: tail ∧ c ∈ [',', ']', '\x7d']

theorem exists_toDigits_cons (n : Nat) :
    ∃ d rest, d < 10 ∧ Nat.toDigits 10 n = d.digitChar :: rest ∧ (d = 0 → n = 0 ∧ rest = []) := by
  induction n using Nat.strongRecOn with | ind n ih =>
  rw [Nat.toDigits_eq_if (by decide)]
  split
  · next h => exact ⟨n, [], h, rfl, fun hn => ⟨hn, rfl⟩⟩
  · next h =>
    obtain ⟨d, rest, hd, hdigits, hzero⟩ := ih (n / 10) (by omega)
    refine ⟨d, _, hd, by rw [hdigits, List.cons_append], fun h0 => ?_⟩
    have hn := (hzero h0).1
    omega

theorem eq_zero_of_digitChar : ∀ d < 10, d.digitChar = '0' → d = 0 := by decide

theorem digitsValue_toDigits (n : Nat) : digitsValue (Nat.toDigits 10 n) = n := by
  have hvalue : digitsValue (Nat.toDigits 10 n) = Nat.ofDigitChars 10 (Nat.toDigits 10 n) 0 := by
    simp [digitsValue, Nat.ofDigitChars_eq_foldl, Nat.mul_comm]
  rw [hvalue, Nat.ofDigitChars_ten_toDigits]

/-- No digit, fraction or exponent follows a value. -/
theorem Ends.number {rest : List Char} (h : Ends rest) :
    takeDigits rest = ([], rest) ∧ readFraction rest = .ok (none, rest) ∧
      readExponent rest = .ok (none, rest) := by
  obtain rfl | ⟨c, tail, rfl, hc⟩ := h
  · exact ⟨rfl, rfl, rfl⟩
  · simp only [List.mem_cons, List.not_mem_nil, or_false] at hc
    obtain rfl | rfl | rfl := hc <;> exact ⟨rfl, rfl, rfl⟩

theorem takeDigits_toDigits (n : Nat) {rest : List Char} (h : Ends rest) :
    takeDigits (Nat.toDigits 10 n ++ rest) = (Nat.toDigits 10 n, rest) := by
  have hdigits : ∀ c ∈ Nat.toDigits 10 n, c.isDigit = true :=
    fun c hc => Nat.isDigit_of_mem_toDigits (by decide) (by decide) hc
  obtain ⟨htake, hdrop⟩ := Prod.mk.inj h.number.1
  rw [takeDigits, List.takeWhile_append_of_pos hdigits, List.dropWhile_append_of_pos hdigits,
    htake, hdrop, List.append_nil]

theorem readNumber_toDigits (negative : Bool) (n : Nat) {rest : List Char} (h : Ends rest)
    {json : Json} (hjson : number? negative (Nat.toDigits 10 n) [] true 0 = some json) :
    readNumber negative (Nat.toDigits 10 n ++ rest) = .ok (json, rest) := by
  obtain ⟨-, hfraction, hexponent⟩ := h.number
  -- a zero stands alone
  have hleading : ((Nat.toDigits 10 n).isEmpty || (Nat.toDigits 10 n).head? == some '0' &&
      decide (1 < (Nat.toDigits 10 n).length)) = false := by
    obtain ⟨d, digits, hd, hdigits, hzero⟩ := exists_toDigits_cons n
    rw [hdigits]
    by_cases h0 : d = 0
    · rw [(hzero h0).2]
      simp
    · have hne : d.digitChar ≠ '0' := fun h => h0 (eq_zero_of_digitChar d hd h)
      simp [hne]
  rw [readNumber, takeDigits_toDigits n h]
  dsimp only
  rw [hleading, if_neg Bool.false_ne_true, hfraction]
  simp only [bind, Except.bind]
  rw [hexponent]
  simp only [Option.getD_none, Option.isNone_none, Bool.and_self, hjson]

/-! ### Documents -/

mutual

/-- Whether a value has no floating-point number, and no integer of more than 64 bits. -/
def isExact : Json → Bool
  | integer n => Int64.minValue.toInt ≤ n && n < UInt64.size
  | single _ | double _ => false
  | array items => itemsExact items
  | object fields => fieldsExact fields
  | _ => true

/-- Whether the items of an array are exact. -/
def itemsExact : List Json → Bool
  | [] => true
  | item :: rest => item.isExact && itemsExact rest

/-- Whether the values of the fields of an object are exact. -/
def fieldsExact : List (String × Json) → Bool
  | [] => true
  | (_, value) :: rest => value.isExact && fieldsExact rest

end

theorem itemsExact_iff {items : List Json} :
    itemsExact items = true ↔ ∀ item ∈ items, item.isExact = true := by
  induction items with
  | nil => simp [itemsExact]
  | cons item items ih => rw [itemsExact, Bool.and_eq_true, ih, List.forall_mem_cons]

theorem fieldsExact_iff {fields : List (String × Json)} :
    fieldsExact fields = true ↔ ∀ field ∈ fields, field.2.isExact = true := by
  induction fields with
  | nil => simp [fieldsExact]
  | cons field fields ih => rw [fieldsExact, Bool.and_eq_true, ih, List.forall_mem_cons]

/-- The value is read from its document, whatever follows it. -/
def ReadsBack (json : Json) : Prop :=
  ∀ fuel nesting rest, 2 * json.compact.toList.length ≤ fuel → json.depth ≤ nesting → Ends rest →
    readValue fuel nesting (json.compact.toList ++ rest) = .ok (json, rest)

theorem readsBack_null : ReadsBack null := by
  intro fuel nesting rest hf _ _
  have htext : null.compact.toList = ['n', 'u', 'l', 'l'] := rfl
  rw [htext, List.length_cons] at hf
  obtain ⟨fuel, rfl⟩ := Nat.exists_eq_add_of_le' (show 1 ≤ fuel by omega)
  rfl

theorem readsBack_bool (b : Bool) : ReadsBack (bool b) := by
  intro fuel nesting rest hf _ _
  have hlength : 1 ≤ (bool b).compact.toList.length := by cases b <;> decide
  obtain ⟨fuel, rfl⟩ := Nat.exists_eq_add_of_le' (show 1 ≤ fuel by omega)
  cases b <;> rfl

theorem readValue_digit {d : Nat} (hd : d < 10) (fuel nesting : Nat) (rest : List Char) :
    readValue (fuel + 1) nesting (d.digitChar :: rest) =
      readNumber false (d.digitChar :: rest) := by
  have hcases : d = 0 ∨ d = 1 ∨ d = 2 ∨ d = 3 ∨ d = 4 ∨ d = 5 ∨ d = 6 ∨ d = 7 ∨ d = 8 ∨ d = 9 := by
    omega
  obtain rfl | rfl | rfl | rfl | rfl | rfl | rfl | rfl | rfl | rfl := hcases
  all_goals rfl

theorem readsBack_nat {n : Nat} (h : n < UInt64.size) : ReadsBack (integer n) := by
  intro fuel nesting rest hf _ he
  have htext : (integer n).compact.toList = Nat.toDigits 10 n := Nat.toList_repr
  have hnumber : number? false (Nat.toDigits 10 n) [] true 0 = some (integer n) := by
    simp [number?, digitsValue_toDigits, h]
  obtain ⟨d, digits, hd, hdigits, -⟩ := exists_toDigits_cons n
  rw [htext, hdigits, List.length_cons] at hf
  obtain ⟨fuel, rfl⟩ := Nat.exists_eq_add_of_le' (show 1 ≤ fuel by omega)
  have hread := readNumber_toDigits false n he hnumber
  rw [hdigits] at hread
  rw [htext, hdigits, List.cons_append, readValue_digit hd]
  exact hread

theorem readsBack_negSucc {n : Nat} (h : Int64.minValue.toInt ≤ Int.negSucc n) :
    ReadsBack (integer (Int.negSucc n)) := by
  intro fuel nesting rest hf _ he
  have htext : (integer (Int.negSucc n)).compact.toList = '-' :: Nat.toDigits 10 (n + 1) := by
    have hstring : (integer (Int.negSucc n)).compact = "-" ++ (n + 1).repr := rfl
    rw [hstring, String.toList_append, Nat.toList_repr]
    rfl
  have hnumber : number? true (Nat.toDigits 10 (n + 1)) [] true 0 =
      some (integer (Int.negSucc n)) := by
    have hrange : Int64.minValue.toInt ≤ -((n + 1 : Nat) : Int) := h
    simp only [number?, digitsValue_toDigits]
    rw [if_neg (by simp), if_pos (by simpa using hrange)]
    rfl
  rw [htext, List.length_cons] at hf
  obtain ⟨fuel, rfl⟩ := Nat.exists_eq_add_of_le' (show 1 ≤ fuel by omega)
  rw [htext, List.cons_append]
  exact readNumber_toDigits true (n + 1) he hnumber

theorem readsBack_string (s : String) : ReadsBack (string s) := by
  intro fuel nesting rest hf _ he
  have htext : (string s).compact.toList = '"' :: quoted s := toList_quote s
  rw [htext, List.length_cons] at hf
  obtain ⟨fuel, rfl⟩ := Nat.exists_eq_add_of_le' (show 1 ≤ fuel by omega)
  rw [htext, List.cons_append]
  show (readString [] (quoted s ++ rest) >>= _) = _
  rw [readString_quoted]
  rfl

/-- The text of the items of an array. -/
def itemsText (items : List Json) : List Char := (Text.join "," (compactItems items)).toList

theorem itemsText_singleton (item : Json) : itemsText [item] = item.compact.toList := by
  simp [itemsText, compactItems, Text.join]

theorem itemsText_cons_cons (item next : Json) (rest : List Json) :
    itemsText (item :: next :: rest) = item.compact.toList ++ ',' :: itemsText (next :: rest) := by
  simp [itemsText, compactItems, Text.join, String.intercalate_cons_cons]

theorem readItems_itemsText {items : List Json} (hne : items ≠ [])
    (h : ∀ item ∈ items, item.ReadsBack) {fuel nesting : Nat}
    (hf : 2 * (itemsText items).length + 1 ≤ fuel) (hd : ∀ item ∈ items, item.depth ≤ nesting)
    (rest : List Char) :
    readItems fuel nesting (itemsText items ++ ']' :: rest) = .ok (items, rest) := by
  obtain ⟨fuel, rfl⟩ := Nat.exists_eq_add_of_le' (show 1 ≤ fuel by omega)
  induction items generalizing fuel with
  | nil => exact absurd rfl hne
  | cons item items ih =>
    rw [List.forall_mem_cons] at h hd
    cases items with
    | nil =>
      rw [itemsText_singleton] at hf ⊢
      have hread := h.1 fuel nesting (']' :: rest) (by omega) hd.1 (.inr ⟨_, _, rfl, by simp⟩)
      rw [readItems, hread]
      rfl
    | cons next items =>
      rw [itemsText_cons_cons] at hf ⊢
      rw [List.length_append, List.length_cons] at hf
      have hread := h.1 fuel nesting (',' :: (itemsText (next :: items) ++ ']' :: rest)) (by omega)
        hd.1 (.inr ⟨_, _, rfl, by simp⟩)
      obtain ⟨fuel, rfl⟩ := Nat.exists_eq_add_of_le' (show 1 ≤ fuel by omega)
      have hrest := ih (List.cons_ne_nil _ _) h.2 hd.2 fuel (by omega)
      rw [List.append_assoc, List.cons_append, readItems, hread]
      show (readItems (fuel + 1) nesting (itemsText (next :: items) ++ ']' :: rest) >>= _) = _
      rw [hrest]
      rfl

/-- The text of the fields of an object. -/
def fieldsText (fields : List (String × Json)) : List Char :=
  (Text.join "," (compactFields fields)).toList

theorem fieldsText_singleton (name : String) (value : Json) :
    fieldsText [(name, value)] = '"' :: (quoted name ++ ':' :: value.compact.toList) := by
  simp [fieldsText, compactFields, Text.join, toList_quote]

theorem fieldsText_cons_cons (name : String) (value : Json) (next : String × Json)
    (rest : List (String × Json)) :
    fieldsText ((name, value) :: next :: rest) = '"' :: (quoted name ++
      ':' :: (value.compact.toList ++ ',' :: fieldsText (next :: rest))) := by
  simp [fieldsText, compactFields, Text.join, String.intercalate_cons_cons, toList_quote]

section Fields

variable {fuel nesting : Nat} {text more rest : List Char} {value : Json}
  {fields : List (String × Json)}

theorem readFields_last (name : String)
    (hv : readValue fuel nesting text = .ok (value, '\x7d' :: rest)) :
    readFields (fuel + 1) nesting ('"' :: (quoted name ++ ':' :: text)) =
      .ok ([(name, value)], rest) := by
  show (readString [] (quoted name ++ ':' :: text) >>= _) = _
  rw [readString_quoted]
  show (readValue fuel nesting text >>= _) = _
  rw [hv]
  rfl

theorem readFields_more (name : String)
    (hv : readValue fuel nesting text = .ok (value, ',' :: more))
    (hm : readFields fuel nesting more = .ok (fields, rest)) :
    readFields (fuel + 1) nesting ('"' :: (quoted name ++ ':' :: text)) =
      .ok ((name, value) :: fields, rest) := by
  show (readString [] (quoted name ++ ':' :: text) >>= _) = _
  rw [readString_quoted]
  show (readValue fuel nesting text >>= _) = _
  rw [hv]
  show (readFields fuel nesting more >>= _) = _
  rw [hm]
  rfl

end Fields

theorem readFields_fieldsText {fields : List (String × Json)} (hne : fields ≠ [])
    (h : ∀ field ∈ fields, field.2.ReadsBack) {fuel nesting : Nat}
    (hf : 2 * (fieldsText fields).length + 1 ≤ fuel)
    (hd : ∀ field ∈ fields, field.2.depth ≤ nesting) (rest : List Char) :
    readFields fuel nesting (fieldsText fields ++ '\x7d' :: rest) = .ok (fields, rest) := by
  obtain ⟨fuel, rfl⟩ := Nat.exists_eq_add_of_le' (show 1 ≤ fuel by omega)
  induction fields generalizing fuel with
  | nil => exact absurd rfl hne
  | cons field fields ih =>
    obtain ⟨name, value⟩ := field
    rw [List.forall_mem_cons] at h hd
    have hvalue : value.ReadsBack := h.1
    cases fields with
    | nil =>
      rw [fieldsText_singleton] at hf ⊢
      simp only [List.length_cons, List.length_append] at hf
      have hread := hvalue fuel nesting ('\x7d' :: rest) (by omega) hd.1 (.inr ⟨_, _, rfl, by simp⟩)
      rw [List.cons_append, List.append_assoc, List.cons_append]
      exact readFields_last name hread
    | cons next fields =>
      rw [fieldsText_cons_cons] at hf ⊢
      simp only [List.length_cons, List.length_append] at hf
      have hread := hvalue fuel nesting (',' :: (fieldsText (next :: fields) ++ '\x7d' :: rest))
        (by omega) hd.1 (.inr ⟨_, _, rfl, by simp⟩)
      obtain ⟨fuel, rfl⟩ := Nat.exists_eq_add_of_le' (show 1 ≤ fuel by omega)
      have hrest := ih (List.cons_ne_nil _ _) h.2 hd.2 fuel (by omega)
      rw [List.cons_append, List.append_assoc, List.cons_append, List.append_assoc,
        List.cons_append]
      exact readFields_more name hread hrest

/-- The characters that a value begins with. -/
def starts : List Char :=
  ['"', '[', '\x7b', '-', 't', 'f', 'n', '0', '1', '2', '3', '4', '5', '6', '7', '8', '9']

theorem exists_compact_cons {json : Json} (h : json.isExact = true) :
    ∃ c rest, json.compact.toList = c :: rest ∧ c ∈ starts := by
  have hdigit : ∀ d < 10, d.digitChar ∈ starts := by decide
  cases json with
  | null => exact ⟨_, _, rfl, by decide⟩
  | bool b => cases b <;> exact ⟨_, _, rfl, by decide⟩
  | integer n =>
    cases n with
    | ofNat n =>
      obtain ⟨d, rest, hd, hdigits, -⟩ := exists_toDigits_cons n
      exact ⟨_, rest, Nat.toList_repr.trans hdigits, hdigit d hd⟩
    | negSucc n => exact ⟨'-', _, String.toList_append, by decide⟩
  | single x | double x => cases h
  | string s => exact ⟨'"', quoted s, toList_quote s, by decide⟩
  | array items => exact ⟨'[', itemsText items ++ [']'], by simp [compact, itemsText], by decide⟩
  | object fields =>
    exact ⟨'\x7b', fieldsText fields ++ ['\x7d'], by simp [compact, fieldsText], by decide⟩

theorem readValue_items {c : Char} (hc : c ∈ starts) (fuel nesting : Nat) {rest more : List Char}
    {items : List Json} (h : readItems fuel nesting (c :: rest) = .ok (items, more)) :
    readValue (fuel + 1) (nesting + 1) ('[' :: c :: rest) = .ok (array items, more) := by
  have hstep : readValue (fuel + 1) (nesting + 1) ('[' :: c :: rest) =
      readItems fuel nesting (c :: rest) >>= fun r => pure (array r.1, r.2) := by
    simp only [starts, List.mem_cons, List.not_mem_nil, or_false] at hc
    rcases hc with rfl | rfl | rfl | rfl | rfl | rfl | rfl | rfl | rfl | rfl | rfl | rfl | rfl |
      rfl | rfl | rfl | rfl
    all_goals rfl
  rw [hstep, h]
  rfl

theorem readsBack_array {items : List Json} (he : (array items).isExact = true)
    (h : ∀ item ∈ items, item.ReadsBack) : ReadsBack (array items) := by
  intro fuel nesting rest hf hd _
  have htext : (array items).compact.toList = '[' :: (itemsText items ++ [']']) := by
    simp [compact, itemsText]
  have hpos := (array items).depth_pos
  rw [htext, List.length_cons, List.length_append, List.length_singleton] at hf
  obtain ⟨fuel, rfl⟩ := Nat.exists_eq_add_of_le' (show 1 ≤ fuel by omega)
  obtain ⟨nesting, rfl⟩ := Nat.exists_eq_add_of_le' (show 1 ≤ nesting by omega)
  rw [htext, List.cons_append, List.append_assoc, List.singleton_append]
  cases items with
  | nil => rfl
  | cons item items =>
    have hitems := readItems_itemsText (List.cons_ne_nil _ _) h
      (show 2 * (itemsText (item :: items)).length + 1 ≤ fuel by omega)
      (fun other hm => Nat.le_of_lt_succ (Nat.lt_of_lt_of_le (depth_lt_of_mem_items hm) hd)) rest
    -- the first item tells that the array is not empty
    obtain ⟨c, tail, hc, hstart⟩ :=
      exists_compact_cons (itemsExact_iff.1 he item List.mem_cons_self)
    obtain ⟨more, hmore⟩ : ∃ more, itemsText (item :: items) = c :: more := by
      cases items with
      | nil => exact ⟨tail, by rw [itemsText_singleton, hc]⟩
      | cons next items => exact ⟨_, by rw [itemsText_cons_cons, hc, List.cons_append]⟩
    rw [hmore, List.cons_append] at hitems ⊢
    exact readValue_items hstart fuel nesting hitems

theorem readsBack_object {fields : List (String × Json)} (h : ∀ field ∈ fields, field.2.ReadsBack) :
    ReadsBack (object fields) := by
  intro fuel nesting rest hf hd _
  have htext : (object fields).compact.toList = '\x7b' :: (fieldsText fields ++ ['\x7d']) := by
    simp [compact, fieldsText]
  have hpos := (object fields).depth_pos
  rw [htext, List.length_cons, List.length_append, List.length_singleton] at hf
  obtain ⟨fuel, rfl⟩ := Nat.exists_eq_add_of_le' (show 1 ≤ fuel by omega)
  obtain ⟨nesting, rfl⟩ := Nat.exists_eq_add_of_le' (show 1 ≤ nesting by omega)
  rw [htext, List.cons_append, List.append_assoc, List.singleton_append]
  cases fields with
  | nil => rfl
  | cons field fields =>
    have hfields := readFields_fieldsText (List.cons_ne_nil _ _) h
      (show 2 * (fieldsText (field :: fields)).length + 1 ≤ fuel by omega)
      (fun other hm => Nat.le_of_lt_succ (Nat.lt_of_lt_of_le (depth_lt_of_mem_fields hm) hd)) rest
    obtain ⟨more, hmore⟩ : ∃ more, fieldsText (field :: fields) = '"' :: more := by
      cases fields with
      | nil => exact ⟨_, fieldsText_singleton field.1 field.2⟩
      | cons next fields => exact ⟨_, fieldsText_cons_cons field.1 field.2 next fields⟩
    rw [hmore, List.cons_append] at hfields ⊢
    show (readFields fuel nesting ('"' :: (more ++ '\x7d' :: rest)) >>= _) = _
    rw [hfields]
    rfl

/-- Every exact value is read from its document. -/
theorem readsBack {json : Json} (h : json.isExact = true) : ReadsBack json := by
  induction hd : json.depth using Nat.strongRecOn generalizing json with | ind depth ih =>
  cases json with
  | null => exact readsBack_null
  | bool b => exact readsBack_bool b
  | integer n =>
    simp only [isExact, Bool.and_eq_true, decide_eq_true_eq] at h
    cases n with
    | ofNat n => exact readsBack_nat (Int.ofNat_lt.1 h.2)
    | negSucc n => exact readsBack_negSucc h.1
  | single x | double x => cases h
  | string s => exact readsBack_string s
  | array items =>
    refine readsBack_array h fun item hm => ?_
    exact ih item.depth (hd ▸ depth_lt_of_mem_items hm) (itemsExact_iff.1 h item hm) rfl
  | object fields =>
    refine readsBack_object fun field hm => ?_
    exact ih field.2.depth (hd ▸ depth_lt_of_mem_fields hm) (fieldsExact_iff.1 h field hm) rfl

/-- A document that is not nested too deeply is read as the value it was written from. -/
theorem parse_compact {json : Json} (h : json.isExact = true) (hd : json.depth ≤ maxDepth) :
    parse json.compact = .ok json := by
  have hread := readsBack h (2 * json.compact.toList.length + 2) maxDepth [] (by omega) hd
    (.inl rfl)
  rw [List.append_nil] at hread
  rw [parse, hread]
  rfl

end ServiceQuery.Json
