import ServiceQuery.Uri.Literal

/-!
# Reading literals back

The texts of strings and of integers that are not negative can be read back.
-/

namespace ServiceQuery

namespace Percent

/-- The text that an encoded text stands for, if its bytes are those of a text. -/
def decode? (chars : List Char) : Option String :=
  (decodeBytes chars).toByteArray.utf8Decode?.map fun decoded => String.ofList decoded.toList

theorem hexValue?_hexDigit : ∀ n < 16, hexValue? (hexDigit n) = some n := by decide

theorem isUnreserved_hexDigit : ∀ n < 16, isUnreserved (hexDigit n) = true := by decide

theorem div_lt_sixteen (b : UInt8) : b.toNat / 16 < 16 := by
  have := b.toNat_lt
  omega

theorem mod_lt_sixteen (b : UInt8) : b.toNat % 16 < 16 := Nat.mod_lt _ (by decide)

/-- A triplet is read as the byte it stands for. -/
theorem decodeBytes_encodeByte (b : UInt8) (rest : List Char) :
    decodeBytes (encodeByte b ++ rest) = b :: decodeBytes rest := by
  have hb : 16 * (b.toNat / 16) + b.toNat % 16 = b.toNat := Nat.div_add_mod _ _
  simp [encodeByte, decodeBytes, hexValue?_hexDigit _ (div_lt_sixteen b),
    hexValue?_hexDigit _ (mod_lt_sixteen b), hb]

theorem decodeBytes_encodeBytes (bytes : List UInt8) (rest : List Char) :
    decodeBytes (bytes.flatMap encodeByte ++ rest) = bytes ++ decodeBytes rest := by
  induction bytes with
  | nil => rfl
  | cons b bytes ih =>
    rw [List.flatMap_cons, List.append_assoc, decodeBytes_encodeByte, ih, List.cons_append]

/-- A character that is no percent sign is read as itself. -/
theorem decodeBytes_cons {c : Char} (hc : c ≠ '%') (rest : List Char) :
    decodeBytes (c :: rest) = String.utf8EncodeChar c ++ decodeBytes rest := by
  rw [decodeBytes]
  rintro a b rest rfl
  exact absurd rfl hc

theorem decodeBytes_encodeChar (c : Char) (rest : List Char) :
    decodeBytes (encodeChar c ++ rest) = String.utf8EncodeChar c ++ decodeBytes rest := by
  rw [encodeChar]
  split
  · next h =>
    refine decodeBytes_cons ?_ rest
    rintro rfl
    exact absurd h (by decide)
  · exact decodeBytes_encodeBytes _ rest

theorem decodeBytes_flatMap_encodeChar (chars : List Char) :
    decodeBytes (chars.flatMap encodeChar) = chars.flatMap String.utf8EncodeChar := by
  induction chars with
  | nil => rfl
  | cons c chars ih => rw [List.flatMap_cons, decodeBytes_encodeChar, ih, List.flatMap_cons]

/-- Decoding undoes encoding. -/
theorem decode?_encode (text : String) : decode? (encode text).toList = some text := by
  have hbytes : (decodeBytes (encode text).toList).toByteArray = text.toList.utf8Encode := by
    rw [encode, String.toList_ofList, decodeBytes_flatMap_encodeChar]
    rfl
  rw [decode?, hbytes, List.utf8Decode?_utf8Encode]
  simp

/-- An encoded text consists of unreserved characters and percent signs. -/
theorem mem_encode {c : Char} {text : String} (h : c ∈ (encode text).toList) :
    c = '%' ∨ isUnreserved c = true := by
  rw [encode, String.toList_ofList, List.mem_flatMap] at h
  obtain ⟨d, -, hd⟩ := h
  rw [encodeChar] at hd
  split at hd
  · next hu =>
    rw [List.mem_singleton] at hd
    exact .inr (hd ▸ hu)
  · obtain ⟨b, -, hb⟩ := List.mem_flatMap.1 hd
    simp only [encodeByte, List.mem_cons, List.not_mem_nil, or_false] at hb
    obtain rfl | rfl | rfl := hb
    · exact .inl rfl
    · exact .inr (isUnreserved_hexDigit _ (div_lt_sixteen b))
    · exact .inr (isUnreserved_hexDigit _ (mod_lt_sixteen b))

theorem not_mem_encode {c : Char} (hp : c ≠ '%') (hu : isUnreserved c = false) (text : String) :
    c ∉ (encode text).toList := by
  intro h
  obtain rfl | h := mem_encode h
  · exact hp rfl
  · rw [hu] at h
    cases h

/-- Whether a character is an upper-case hexadecimal digit. -/
def isHexDigit (c : Char) : Bool := c.isDigit || ('A' ≤ c && c ≤ 'F')

/-- The text consists of unreserved characters and triplets of a percent sign and two hexadecimal
digits. -/
inductive Encoded : List Char → Prop where
  | nil : Encoded []
  | unreserved {c : Char} {rest : List Char} (own : isUnreserved c = true) (after : Encoded rest) :
      Encoded (c :: rest)
  | triplet {high low : Char} {rest : List Char} (first : isHexDigit high = true)
      (second : isHexDigit low = true) (after : Encoded rest) : Encoded ('%' :: high :: low :: rest)

theorem isHexDigit_hexDigit : ∀ n < 16, isHexDigit (hexDigit n) = true := by decide

theorem encoded_encodeBytes (bytes : List UInt8) {rest : List Char} (h : Encoded rest) :
    Encoded (bytes.flatMap encodeByte ++ rest) := by
  induction bytes with
  | nil => exact h
  | cons b bytes ih =>
    exact .triplet (isHexDigit_hexDigit _ (div_lt_sixteen b))
      (isHexDigit_hexDigit _ (mod_lt_sixteen b)) ih

theorem encoded_encode (text : String) : Encoded (encode text).toList := by
  rw [encode, String.toList_ofList]
  induction text.toList with
  | nil => exact .nil
  | cons c chars ih =>
    rw [List.flatMap_cons, encodeChar]
    by_cases hc : isUnreserved c = true
    · rw [if_pos hc]
      exact .unreserved hc ih
    · rw [if_neg hc]
      exact encoded_encodeBytes _ ih

end Percent

namespace Uri

/-- The text with one quote in place of every two. -/
def undouble : List Char → List Char
  | '\'' :: '\'' :: rest => '\'' :: undouble rest
  | c :: rest => c :: undouble rest
  | [] => []

/-- The string whose literal has the given characters between its quotes. -/
def readString? (content : List Char) : Option String :=
  (Percent.decode? content).map fun text => String.ofList (undouble text.toList)

/-- The integer with the given digits. -/
def readNumber (digits : List Char) : Int32 := Int32.ofNat (Nat.ofDigitChars 10 digits 0)

theorem undouble_replace (chars : List Char) :
    undouble (Text.replace ['\''] ['\'', '\''] chars) = chars := by
  rw [Text.replace, if_neg (by simp)]
  induction chars with
  | nil => rfl
  | cons c rest ih =>
    rw [Text.replaceFrom]
    by_cases hc : c = '\''
    · subst hc
      simp [List.isPrefixOf, undouble, ih]
    · have hp : ['\''].isPrefixOf (c :: rest) = false := by simp [List.isPrefixOf, Ne.symm hc]
      rw [hp, if_neg (by simp), undouble, ih]
      rintro rest' rfl
      exact absurd rfl hc

/-- The text between the quotes of a string literal is read as the string. -/
theorem readString?_encode (text : String) :
    readString? (Percent.encode (String.ofList
      (Text.replace ['\''] ['\'', '\''] text.toList))).toList = some text := by
  rw [readString?, Percent.decode?_encode, Option.map_some, String.toList_ofList, undouble_replace,
    String.ofList_toList]

/-- One quote in place of every two is the replacement that undoes the doubling. -/
theorem replace_eq_undouble (chars : List Char) :
    Text.replace ['\'', '\''] ['\''] chars = undouble chars := by
  rw [Text.replace, if_neg (by simp)]
  fun_induction undouble chars with
  | case1 rest ih => simp [Text.replaceFrom, List.isPrefixOf, ih]
  | case2 c rest hpair ih =>
    have hp : ['\'', '\''].isPrefixOf (c :: rest) = false := by
      rw [Bool.eq_false_iff]
      intro hp
      obtain ⟨tail, ht⟩ := List.isPrefixOf_iff_prefix.1 hp
      obtain ⟨rfl, rfl⟩ := List.cons.inj ht
      exact hpair tail rfl rfl
    rw [Text.replaceFrom, hp, if_neg (by simp), ih]
  | case3 => rfl

/-- Encoding leaves no quote that would end the literal. -/
theorem quote_not_mem_encode (text : String) : '\'' ∉ (Percent.encode text).toList :=
  Percent.not_mem_encode (by decide) (by decide) text

/-- The text between the quotes of a string literal is encoded, has no quote in it and is read as the
string; so no two strings have one literal. -/
theorem literal_string :
    (∀ text, ∃ content, literal (.string text) = .ok ("'" ++ content ++ "'") ∧
      Percent.Encoded content.toList ∧ '\'' ∉ content.toList ∧
      ∃ decoded, Percent.decode? content.toList = some decoded ∧
        Text.replace ['\'', '\''] ['\''] decoded.toList = text.toList) ∧
      Function.Injective fun text => literal (.string text) := by
  constructor
  · intro text
    refine ⟨_, rfl, Percent.encoded_encode _, quote_not_mem_encode _, _,
      Percent.decode?_encode _, ?_⟩
    rw [replace_eq_undouble, String.toList_ofList, undouble_replace]
  · intro text other h
    have hcontent := congrArg String.toList (Except.ok.inj h)
    simp only [stringLiteral, String.toList_append, List.append_cancel_left_eq,
      List.append_cancel_right_eq] at hcontent
    have hread := readString?_encode text
    rw [hcontent, readString?_encode] at hread
    exact (Option.some.inj hread).symm

/-- A quote, a text that looks encoded and a character of two bytes. -/
theorem literal_string_quoted :
    literal (.string "'%27é") = .ok "'%27%27%2527%C3%A9'" ∧
      literal (.string "'%27é") ≠ literal (.string "''é") := by
  refine ⟨rfl, fun h => ?_⟩
  have hsame := literal_string.2 h
  exact absurd hsame (by decide)

/-- The text of an integer that is not negative is its digits. -/
theorem toList_toString {n : Int32} (h : 0 ≤ n) :
    (toString n).toList = Nat.toDigits 10 n.toNatClampNeg := by
  have hn : n.toInt = (n.toNatClampNeg : Int) := (Int32.cast_toNatClampNeg n h).symm
  have ht : toString n = toString n.toInt := rfl
  rw [ht, hn]
  exact Nat.toList_repr

theorem readNumber_toString {n : Int32} (h : 0 ≤ n) : readNumber (toString n).toList = n := by
  rw [readNumber, toList_toString h, Nat.ofDigitChars_ten_toDigits, Int32.ofNat_toNatClampNeg n h]

end Uri

end ServiceQuery
