import ServiceQuery.Proofs.Arithmetic

/-!
# Searching and cutting strings

Positions and lengths count characters. A search finds the first place at which a text occurs, and
cutting there gives the text back.
-/

namespace ServiceQuery

namespace Text

variable {part text : List Char} {i : Nat}

/-- The text `part` occurs in `text` at the place `i` and nowhere before it. -/
def IsFirst (part text : List Char) (i : Nat) : Prop :=
  part <+: text.drop i ∧ ∀ j < i, ¬part <+: text.drop j

/-- The first place at which `part` occurs in `text`; minus one says that it does not occur. -/
def IsIndexOf (part text : List Char) (i : Int) : Prop :=
  (∃ k : Nat, i = k ∧ IsFirst part text k) ∨ i = -1 ∧ ∀ k, ¬part <+: text.drop k

theorem isFirst_zero : IsFirst part text 0 ↔ part <+: text :=
  ⟨And.left, fun h => ⟨h, fun _ hj => absurd hj (Nat.not_lt_zero _)⟩⟩

/-- A search finds the first place, and fails only if there is none. -/
theorem indexOf?_cases (part text : List Char) :
    (∃ i, indexOf? part text = some i ∧ IsFirst part text i) ∨
      indexOf? part text = none ∧ ∀ k, ¬part <+: text.drop k := by
  induction text with
  | nil =>
    cases part with
    | nil => exact .inl ⟨0, rfl, isFirst_zero.2 List.prefix_rfl⟩
    | cons p part => exact .inr ⟨rfl, fun k h => by simp at h⟩
  | cons c rest ih =>
    by_cases h : part <+: c :: rest
    · refine .inl ⟨0, ?_, isFirst_zero.2 h⟩
      rw [indexOf?, if_pos (List.isPrefixOf_iff_prefix.2 h)]
    · rw [indexOf?, if_neg (mt List.isPrefixOf_iff_prefix.1 h)]
      -- every other place is one of the rest, moved on by one
      obtain ⟨i, hi, hprefix, hbefore⟩ | ⟨hnone, hall⟩ := ih
      · refine .inl ⟨i + 1, by rw [hi]; rfl, hprefix, ?_⟩
        rintro (_ | j) hj
        · exact h
        · exact hbefore j (Nat.lt_of_succ_lt_succ hj)
      · refine .inr ⟨by rw [hnone]; rfl, ?_⟩
        rintro (_ | k)
        · exact h
        · exact hall k

/-- A text lies where it was found. -/
theorem IsFirst.take_drop (h : IsFirst part text i) : (text.drop i).take part.length = part :=
  (List.prefix_iff_eq_take.1 h.1).symm

theorem IsFirst.add_length_le (h : IsFirst part text i) : i + part.length ≤ text.length := by
  have hle := h.1.length_le
  rw [List.length_drop] at hle
  by_cases hi : i ≤ text.length
  · omega
  · -- beyond the end only the empty text occurs, and that one occurs at the end too
    refine absurd ?_ (h.2 text.length (Nat.lt_of_not_le hi))
    rw [List.length_eq_zero_iff.1 (by omega : part.length = 0)]
    exact List.nil_prefix

/-- A text occurs if it has a place. -/
theorem IsIndexOf.occursIn {index : Int} (h : IsIndexOf part text index) :
    occursIn part text = decide (0 ≤ index) := by
  obtain ⟨i, hi, hfirst⟩ | ⟨hnone, hall⟩ := indexOf?_cases part text
  · rw [Text.occursIn, hi]
    obtain ⟨k, rfl, -⟩ | ⟨-, hall⟩ := h
    · exact (decide_eq_true (Int.natCast_nonneg k)).symm
    · exact absurd hfirst.1 (hall i)
  · rw [Text.occursIn, hnone]
    obtain ⟨k, -, hfirst⟩ | ⟨rfl, -⟩ := h
    · exact absurd hfirst.1 (hall k)
    · rfl

/-- A text stands at the beginning if its place is the first one. -/
theorem IsIndexOf.isPrefixOf {index : Int} (h : IsIndexOf part text index) :
    part.isPrefixOf text = decide (index = 0) := by
  rw [Bool.eq_iff_iff, List.isPrefixOf_iff_prefix, decide_eq_true_eq]
  obtain ⟨k, rfl, hfirst⟩ | ⟨rfl, hall⟩ := h
  · constructor
    · intro hprefix
      exact congrArg Nat.cast (Nat.eq_zero_of_not_pos fun hk => hfirst.2 0 hk hprefix)
    · intro hk
      rw [Int.natCast_eq_zero.1 hk] at hfirst
      exact isFirst_zero.1 hfirst
  · exact ⟨fun hprefix => absurd hprefix (hall 0), fun hk => absurd hk (by decide)⟩

end Text

/-- A number of 32 bits, as far as there is one. -/
theorem Value.fit32_eq_ok {n : Int} (hl : Int32.minValue.toInt ≤ n) (hh : n ≤ Int32.maxValue.toInt)
    (expr : Expr) : ∃ k : Int32, Value.fit32 expr n = .ok (.int32 k) ∧ k.toInt = n := by
  refine ⟨Int32.ofInt n, ?_, Int32.toInt_ofInt_of_le hl (Int.lt_add_one_of_le hh)⟩
  rw [fit32, int32?, if_pos ⟨hl, hh⟩]

/-! ### The methods -/

namespace Value

variable {s : List Char} {n : String} {a b : Value} {i j : Nat} {expr : Expr}

theorem invokeString_indexOf (s : List Char) (n : String) (expr : Expr) :
    (∃ i, Text.IsFirst n.toList s i ∧
        invokeString s "IndexOf" [string n] expr = fit32 expr i) ∨
      (∀ k, ¬n.toList <+: s.drop k) ∧
        invokeString s "IndexOf" [string n] expr = .ok (int32 (-1)) := by
  obtain ⟨i, hi, hfirst⟩ | ⟨hnone, hall⟩ := Text.indexOf?_cases n.toList s
  · refine .inl ⟨i, hfirst, ?_⟩
    simp only [invokeString, chars, bind, Except.bind, hi]
  · refine .inr ⟨hall, ?_⟩
    simp only [invokeString, chars, bind, Except.bind, hnone]
    rfl

theorem invokeString_contains (s : List Char) (n : String) (expr : Expr) :
    invokeString s "Contains" [string n] expr = .ok (bool (Text.occursIn n.toList s)) :=
  rfl

theorem invokeString_startsWith (s : List Char) (n : String) (expr : Expr) :
    invokeString s "StartsWith" [string n] expr = .ok (bool (n.toList.isPrefixOf s)) :=
  rfl

theorem index_eq_ok (h : a.integer? = some (i : Int)) : a.index expr = .ok i := by
  rw [index, h]

/-- The rest of a string from a place on. -/
theorem invokeString_substringFrom (hi : a.integer? = some (i : Int)) :
    invokeString s "Substring" [a] expr =
      if i ≤ s.length then .ok (ofChars (s.drop i)) else .error (.outOfRange expr) := by
  have hrun : invokeString s "Substring" [a] expr = a.index expr >>= fun start =>
    if s.length < start then .error (.outOfRange expr) else pure (ofChars (s.drop start)) := rfl
  rw [hrun, index_eq_ok hi]
  by_cases h : i ≤ s.length
  · rw [if_pos h]
    exact if_neg (Nat.not_lt.2 h)
  · rw [if_neg h]
    exact if_pos (Nat.lt_of_not_le h)

/-- A number of characters from a place on. -/
theorem invokeString_substring (hi : a.integer? = some (i : Int))
    (hj : b.integer? = some (j : Int)) :
    invokeString s "Substring" [a, b] expr =
      if i + j ≤ s.length then .ok (ofChars ((s.drop i).take j))
      else .error (.outOfRange expr) := by
  have hrun : invokeString s "Substring" [a, b] expr = a.index expr >>= fun start =>
    b.index expr >>= fun length =>
      if s.length < start + length then .error (.outOfRange expr)
      else pure (ofChars ((s.drop start).take length)) := rfl
  rw [hrun, index_eq_ok hi, index_eq_ok hj]
  by_cases h : i + j ≤ s.length
  · rw [if_pos h]
    exact if_neg (Nat.not_lt.2 h)
  · rw [if_neg h]
    exact if_pos (Nat.lt_of_not_le h)

end Value

/-! ### Expressions -/

namespace Expr

variable {source part start count : Expr} {s n : String} {a b : Value} {i j : Nat}

theorem evaluate_invoke_one (method : String) (ty : Ty) (hs : source.evaluate = .ok (.string s))
    (ha : part.evaluate = .ok a) :
    (invoke source method [part] ty).evaluate =
      Value.invokeString s.toList method [a] (invoke source method [part] ty) := by
  simp only [evaluate, evaluateList, hs, ha]
  rfl

theorem evaluate_invoke_two (method : String) (ty : Ty) (hs : source.evaluate = .ok (.string s))
    (ha : start.evaluate = .ok a) (hb : count.evaluate = .ok b) :
    (invoke source method [start, count] ty).evaluate =
      Value.invokeString s.toList method [a, b] (invoke source method [start, count] ty) := by
  simp only [evaluate, evaluateList, hs, ha, hb]
  rfl

theorem evaluate_length (ty : Ty) (hs : source.evaluate = .ok (.string s))
    (hl : (s.length : Int) ≤ Int32.maxValue.toInt) :
    ∃ k : Int32, (member source "Length" ty).evaluate = .ok (.int32 k) ∧ k.toInt = s.length := by
  have hmember : (member source "Length" ty).evaluate = Value.fit32 source s.length := by
    simp only [evaluate, hs]
    rfl
  have hleast : Int32.minValue.toInt ≤ 0 := by decide
  rw [hmember]
  exact Value.fit32_eq_ok (by omega) hl source

theorem evaluate_indexOf (ty : Ty) (hs : source.evaluate = .ok (.string s))
    (hn : part.evaluate = .ok (.string n)) (hl : (s.length : Int) ≤ Int32.maxValue.toInt) :
    ∃ k : Int32, (invoke source "IndexOf" [part] ty).evaluate = .ok (.int32 k) ∧
      Text.IsIndexOf n.toList s.toList k.toInt := by
  rw [evaluate_invoke_one "IndexOf" ty hs hn]
  obtain ⟨i, hfirst, hrun⟩ | ⟨hall, hrun⟩ :=
    Value.invokeString_indexOf s.toList n (invoke source "IndexOf" [part] ty)
  · have hle := hfirst.add_length_le
    have hleast : Int32.minValue.toInt ≤ 0 := by decide
    rw [String.length_toList, String.length_toList] at hle
    obtain ⟨k, hfit, hk⟩ := Value.fit32_eq_ok (n := i) (by omega) (by omega)
      (invoke source "IndexOf" [part] ty)
    exact ⟨k, hrun.trans hfit, .inl ⟨i, hk, hfirst⟩⟩
  · exact ⟨-1, hrun, .inr ⟨rfl, hall⟩⟩

theorem evaluate_substring (ty : Ty) (hs : source.evaluate = .ok (.string s))
    (ha : start.evaluate = .ok a) (hi : a.integer? = some (i : Int)) (hb : count.evaluate = .ok b)
    (hj : b.integer? = some (j : Int)) :
    (invoke source "Substring" [start, count] ty).evaluate =
      if i + j ≤ s.length then .ok (.string (String.ofList ((s.toList.drop i).take j)))
      else .error (.outOfRange (invoke source "Substring" [start, count] ty)) := by
  rw [evaluate_invoke_two "Substring" ty hs ha hb, Value.invokeString_substring hi hj,
    String.length_toList]
  rfl

theorem evaluate_substringFrom (ty : Ty) (hs : source.evaluate = .ok (.string s))
    (ha : start.evaluate = .ok a) (hi : a.integer? = some (i : Int)) :
    (invoke source "Substring" [start] ty).evaluate =
      if i ≤ s.length then .ok (.string (String.ofList (s.toList.drop i)))
      else .error (.outOfRange (invoke source "Substring" [start] ty)) := by
  rw [evaluate_invoke_one "Substring" ty hs ha, Value.invokeString_substringFrom hi,
    String.length_toList]
  rfl

/-- A text is cut out again at the place where it was found. -/
theorem evaluate_substring_indexOf {index length : Int32} (ty : Ty)
    (hs : source.evaluate = .ok (.string s)) (ha : start.evaluate = .ok (.int32 index))
    (hfirst : Text.IsFirst n.toList s.toList i) (hi : index.toInt = i)
    (hb : count.evaluate = .ok (.int32 length)) (hl : length.toInt = n.length) :
    (invoke source "Substring" [start, count] ty).evaluate = .ok (.string n) := by
  have hle := hfirst.add_length_le
  rw [String.length_toList, String.length_toList] at hle
  rw [evaluate_substring ty hs ha (congrArg some hi) hb (congrArg some hl), if_pos hle,
    ← String.length_toList, hfirst.take_drop, String.ofList_toList]

/-- Searching and cutting agree with each other. The first place of a text is found, or minus one;
a string contains the text if there is a place, and starts with it if the place is the first one;
and the text is cut out again at its place. A string is cut exactly within its length, and its two
parts at any place make up the string. -/
theorem search_agrees (hs : source.evaluate = .ok (.string s))
    (hn : part.evaluate = .ok (.string n)) (hsl : (s.length : Int) ≤ Int32.maxValue.toInt)
    (hnl : (n.length : Int) ≤ Int32.maxValue.toInt) (t t' ty : Ty) :
    (∃ index : Int32, (invoke source "IndexOf" [part] t).evaluate = .ok (.int32 index) ∧
      Text.IsIndexOf n.toList s.toList index.toInt ∧
      (invoke source "Contains" [part] ty).evaluate = .ok (.bool (decide (0 ≤ index.toInt))) ∧
      (invoke source "StartsWith" [part] ty).evaluate = .ok (.bool (decide (index.toInt = 0))) ∧
      (0 ≤ index.toInt →
        (invoke source "Substring" [invoke source "IndexOf" [part] t, member part "Length" t']
          ty).evaluate = .ok (.string n))) ∧
    ∃ length : Int32, (member source "Length" t').evaluate = .ok (.int32 length) ∧
      length.toInt = s.length ∧
      ∀ (start : Expr) (a : Value) (i : Nat), start.evaluate = .ok a →
        a.integer? = some (i : Int) →
        (∀ (count : Expr) (b : Value) (j : Nat), count.evaluate = .ok b →
          b.integer? = some (j : Int) →
          (invoke source "Substring" [start, count] ty).evaluate =
            if (i + j : Int) ≤ length.toInt then
              .ok (.string (String.ofList ((s.toList.drop i).take j)))
            else .error (.outOfRange (invoke source "Substring" [start, count] ty))) ∧
        ((invoke source "Substring" [start] ty).evaluate =
          if (i : Int) ≤ length.toInt then .ok (.string (String.ofList (s.toList.drop i)))
          else .error (.outOfRange (invoke source "Substring" [start] ty))) ∧
        ((i : Int) ≤ length.toInt → ∀ (zero : Expr) (c : Value), zero.evaluate = .ok c →
          c.integer? = some 0 → ∃ first rest : String,
            (invoke source "Substring" [zero, start] ty).evaluate = .ok (.string first) ∧
            (invoke source "Substring" [start] ty).evaluate = .ok (.string rest) ∧
            first ++ rest = s) := by
  obtain ⟨index, hindex, hspec⟩ := evaluate_indexOf t hs hn hsl
  obtain ⟨length, hlength, hl⟩ := evaluate_length t' hs hsl
  obtain ⟨width, hwidth, hw⟩ := evaluate_length t' hn hnl
  refine ⟨⟨index, hindex, hspec, ?_, ?_, ?_⟩, length, hlength, hl, ?_⟩
  · rw [evaluate_invoke_one "Contains" ty hs hn, Value.invokeString_contains, hspec.occursIn]
  · rw [evaluate_invoke_one "StartsWith" ty hs hn, Value.invokeString_startsWith, hspec.isPrefixOf]
  · intro hnonneg
    obtain ⟨k, hk, hfirst⟩ | ⟨hk, -⟩ := hspec
    · exact evaluate_substring_indexOf ty hs hindex hfirst hk hwidth hw
    · rw [hk] at hnonneg
      exact absurd hnonneg (by decide)
  · intro start a i hstart ha
    have hrest := evaluate_substringFrom ty hs hstart ha
    rw [hl]
    refine ⟨fun count b j hcount hb => ?_, ?_, fun hi zero c hzero hc => ?_⟩
    · rw [evaluate_substring ty hs hstart ha hcount hb]
      simp only [← Int.natCast_add, Int.ofNat_le]
    · rw [hrest]
      simp only [Int.ofNat_le]
    · have hle : i ≤ s.length := Int.ofNat_le.1 hi
      rw [if_pos hle] at hrest
      refine ⟨String.ofList (s.toList.take i), _, ?_, hrest, ?_⟩
      · rw [evaluate_substring ty hs hzero (i := 0) hc hstart ha, Nat.zero_add, if_pos hle,
          List.drop_zero]
      · rw [← String.ofList_append, List.take_append_drop, String.ofList_toList]

/-- A string in which some characters take two bytes. -/
def houses : Expr := constant (.string "zwölf Häuser")

/-- A part of it that begins with such a character. -/
def umlaut : Expr := constant (.string "äus")

/-- The part is found after seven characters, and the string is cut at its end. -/
theorem search_agrees_houses :
    houses.evaluate = .ok (.string "zwölf Häuser") ∧ umlaut.evaluate = .ok (.string "äus") ∧
      (("zwölf Häuser".length : Int) ≤ Int32.maxValue.toInt) ∧
      (("äus".length : Int) ≤ Int32.maxValue.toInt) ∧
      (invoke houses "IndexOf" [umlaut] .int32).evaluate = .ok (.int32 7) ∧
      Text.IsIndexOf "äus".toList "zwölf Häuser".toList 7 ∧
      (Value.int64 12).integer? = some 12 ∧ (Value.int32 0).integer? = some 0 ∧
      ∃ first rest : String,
        (invoke houses "Substring" [constant (.int32 0), constant (.int64 12)] .string).evaluate =
            .ok (.string first) ∧
          (invoke houses "Substring" [constant (.int64 12)] .string).evaluate = .ok (.string rest) ∧
          first ++ rest = "zwölf Häuser" := by
  have hsource : houses.evaluate = .ok (.string "zwölf Häuser") := rfl
  have hpart : umlaut.evaluate = .ok (.string "äus") := rfl
  have hs : ("zwölf Häuser".length : Int) ≤ Int32.maxValue.toInt := by decide
  have hn : ("äus".length : Int) ≤ Int32.maxValue.toInt := by decide
  have hindex : (invoke houses "IndexOf" [umlaut] .int32).evaluate = .ok (.int32 7) := rfl
  obtain ⟨⟨index, hfound, hspec, -⟩, length, -, hlength, hcuts⟩ :=
    search_agrees hsource hpart hs hn .int32 .int32 .string
  cases hfound.symm.trans hindex
  refine ⟨hsource, hpart, hs, hn, hindex, hspec, rfl, rfl, ?_⟩
  refine (hcuts _ _ 12 rfl rfl).2.2 ?_ (constant (.int32 0)) _ rfl rfl
  rw [hlength]
  decide

end Expr

end ServiceQuery
