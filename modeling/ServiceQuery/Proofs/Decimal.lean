import ServiceQuery.Decimal.Text

/-!
# Reading decimals back

The text of a decimal has every decimal place, so that it tells the scale too. A zero is read
without a sign.
-/

namespace ServiceQuery.Decimal

theorem digitValue?_of_isDigit {c : Char} (h : c.isDigit = true) :
    digitValue? c = some (c.toNat - 48) := by
  have hrange : '0' ≤ c ∧ c ≤ '9' := by
    simpa [Char.isDigit, Char.le_def] using h
  rw [digitValue?, if_pos hrange]

section Digits

variable {c : Char} {digits : List Char} {mantissa : Nat}

theorem ofDigitChars_cons (c : Char) (digits : List Char) (mantissa : Nat) :
    Nat.ofDigitChars 10 (c :: digits) mantissa =
      Nat.ofDigitChars 10 digits (mantissa * 10 + (c.toNat - 48)) := by
  rw [Nat.ofDigitChars_cons, Nat.mul_comm]
  rfl

/-- What has been read so far is not above the whole mantissa. -/
theorem lt_limit_of_cons (h : Nat.ofDigitChars 10 (c :: digits) mantissa < limit) :
    mantissa * 10 + (c.toNat - 48) < limit := by
  rw [ofDigitChars_cons, Nat.ofDigitChars_eq_ofDigitChars_zero] at h
  generalize mantissa * 10 + (c.toNat - 48) = longer at h ⊢
  have hpow : 0 < 10 ^ digits.length := Nat.pow_pos (by decide)
  have hle : 1 * longer ≤ 10 ^ digits.length * longer := Nat.mul_le_mul_right longer hpow
  omega

/-- Digits before the point are read while the mantissa fits. -/
theorem readMagnitude_whole (hd : ∀ c ∈ digits, c.isDigit = true) {started : Bool}
    (hm : Nat.ofDigitChars 10 digits mantissa < limit) (rest : List Char) :
    readMagnitude false started mantissa 0 (digits ++ rest) =
      readMagnitude false (started || !digits.isEmpty) (Nat.ofDigitChars 10 digits mantissa) 0
        rest := by
  induction digits generalizing started mantissa with
  | nil => simp
  | cons c digits ih =>
    rw [List.forall_mem_cons] at hd
    have hfits := lt_limit_of_cons hm
    rw [ofDigitChars_cons] at hm ⊢
    rw [List.cons_append, readMagnitude, Bool.false_and, if_neg Bool.false_ne_true,
      digitValue?_of_isDigit hd.1]
    simp only [hfits, if_true, Bool.false_eq_true, if_false]
    rw [ih hd.2 hm]
    simp

/-- Digits after the point are read while the mantissa and the places fit. -/
theorem readMagnitude_fraction (hd : ∀ c ∈ digits, c.isDigit = true) {scale : Nat}
    (hm : Nat.ofDigitChars 10 digits mantissa < limit) (hs : scale + digits.length ≤ 28) :
    readMagnitude true true mantissa scale digits =
      some (Nat.ofDigitChars 10 digits mantissa, scale + digits.length) := by
  induction digits generalizing mantissa scale with
  | nil => simp [readMagnitude]
  | cons c digits ih =>
    rw [List.forall_mem_cons] at hd
    rw [List.length_cons] at hs ⊢
    have hfits := lt_limit_of_cons hm
    rw [ofDigitChars_cons] at hm ⊢
    have hplaces : ¬ 28 ≤ scale := by omega
    rw [readMagnitude, digitValue?_of_isDigit hd.1]
    simp only [hplaces, hfits, decide_false, Bool.and_false, Bool.false_eq_true, if_false, if_true]
    rw [ih hd.2 hm (by omega), Nat.add_right_comm, Nat.add_assoc]

end Digits

/-- The places of a magnitude, with their leading zeros, after its whole part. -/
theorem ofDigitChars_places {mantissa scale : Nat} (hs : 0 < scale) :
    let fraction := Nat.toDigits 10 (mantissa % Nat.pow 10 scale)
    let places := List.replicate (scale - fraction.length) '0' ++ fraction
    places.length = scale ∧
      Nat.ofDigitChars 10 places (mantissa / Nat.pow 10 scale) = mantissa := by
  intro fraction places
  have hpow : 0 < Nat.pow 10 scale := Nat.pow_pos (by decide)
  have hle : fraction.length ≤ scale :=
    (Nat.length_toDigits_le_iff (by decide) hs).2 (Nat.mod_lt mantissa hpow)
  refine ⟨by simp [places, hle], ?_⟩
  rw [Nat.ofDigitChars_append, Nat.ofDigitChars_replicate_zero,
    Nat.ofDigitChars_eq_ofDigitChars_zero, Nat.ofDigitChars_ten_toDigits, ← Nat.mul_assoc,
    ← Nat.pow_add, Nat.add_sub_cancel' hle]
  exact Nat.div_add_mod mantissa (Nat.pow 10 scale)

/-- The digits of a magnitude with its places are read back as they are. -/
theorem readMagnitude_magnitudeText {mantissa scale : Nat} (hm : mantissa < limit)
    (hs : scale ≤ 28) :
    readMagnitude false false 0 0 (magnitudeText mantissa scale) = some (mantissa, scale) := by
  have hdigit {n : Nat} {c : Char} (h : c ∈ Nat.toDigits 10 n) : c.isDigit = true :=
    Nat.isDigit_of_mem_toDigits (by decide) (by decide) h
  have hwhole {n : Nat} (hn : n < limit) (rest : List Char) :
      readMagnitude false false 0 0 (Nat.toDigits 10 n ++ rest) =
        readMagnitude false true n 0 rest := by
    rw [readMagnitude_whole (fun c => hdigit) (by rwa [Nat.ofDigitChars_ten_toDigits]),
      Nat.ofDigitChars_ten_toDigits, List.isEmpty_eq_false_iff.2 Nat.toDigits_ne_nil]
    rfl
  have hpoint (n : Nat) (rest : List Char) :
    readMagnitude false true n 0 ('.' :: rest) = readMagnitude true true n 0 rest := rfl
  rw [magnitudeText]
  by_cases hzero : scale = 0
  · subst hzero
    rw [if_pos rfl, ← List.append_nil (Nat.toDigits 10 _), hwhole]
    · simp [readMagnitude]
    · simpa using hm
  · have hfloor : mantissa / Nat.pow 10 scale < limit :=
      Nat.lt_of_le_of_lt (Nat.div_le_self _ _) hm
    obtain ⟨hlength, hvalue⟩ := @ofDigitChars_places mantissa scale (Nat.pos_of_ne_zero hzero)
    rw [if_neg hzero, List.append_assoc, List.cons_append, hwhole hfloor, hpoint,
      readMagnitude_fraction]
    · rw [Nat.zero_add]
      exact congrArg some (Prod.ext hvalue hlength)
    · intro c hc
      obtain hc | hc := List.mem_append.1 hc
      · rw [List.eq_of_mem_replicate hc]
        rfl
      · exact hdigit hc
    · calc
        _ = mantissa := hvalue
        _ < limit := hm
    · rw [Nat.zero_add]
      calc
        _ = scale := hlength
        _ ≤ 28 := hs

theorem exists_magnitudeText_cons (mantissa scale : Nat) :
    ∃ c rest, magnitudeText mantissa scale = c :: rest ∧ c.isDigit = true := by
  obtain ⟨c, rest, hd⟩ := List.exists_cons_of_ne_nil
    (@Nat.toDigits_ne_nil (mantissa / Nat.pow 10 scale) 10)
  have hc : c ∈ Nat.toDigits 10 (mantissa / Nat.pow 10 scale) := by
    rw [hd]
    exact List.mem_cons_self
  have hdigit := Nat.isDigit_of_mem_toDigits (by decide) (by decide) hc
  rw [magnitudeText, hd]
  split
  · exact ⟨c, _, rfl, hdigit⟩
  · exact ⟨c, _, rfl, hdigit⟩

/-- A digit is no sign. -/
theorem ofPlain?_of_isDigit {c : Char} (hc : c.isDigit = true) {rest : List Char}
    {mantissa scale : Nat}
    (h : readMagnitude false false 0 0 (c :: rest) = some (mantissa, scale)) :
    ofPlain? (c :: rest) = make? false mantissa scale := by
  have hminus : c ≠ '-' := by
    rintro rfl
    exact absurd hc (by decide)
  have hplus : c ≠ '+' := by
    rintro rfl
    exact absurd hc (by decide)
  simp [ofPlain?, hminus, hplus, h]

/-- The text of a decimal that is no negative zero is read back with its scale. -/
theorem ofText?_text {d : Decimal} (h : d.negative = true → d.mantissa ≠ 0) :
    ofText? d.text = some d := by
  have hread := readMagnitude_magnitudeText d.mantissa_lt d.scale_le
  have hmake : make? d.negative d.mantissa d.scale = some d := by
    have hsign : (d.negative && d.mantissa != 0) = d.negative := by
      cases hn : d.negative with
      | false => rfl
      | true => simp [h hn]
    rw [make?, ofParts?, hsign, dif_pos ⟨d.mantissa_lt, d.scale_le⟩]
  have hplain : ofPlain? d.text.toList = some d := by
    rw [text, String.toList_ofList]
    cases hn : d.negative with
    | true =>
      rw [hn] at hmake
      simp only [if_true, ofPlain?, hread, hmake]
    | false =>
      obtain ⟨c, rest, hc, hdigit⟩ := exists_magnitudeText_cons d.mantissa d.scale
      rw [hn] at hmake
      rw [hc] at hread ⊢
      exact (ofPlain?_of_isDigit hdigit hread).trans hmake
  rw [ofText?, hplain]

end ServiceQuery.Decimal
