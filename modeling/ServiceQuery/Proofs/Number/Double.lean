import Mathlib.Data.Rat.Floor
import ServiceQuery.Number.Binary
import ServiceQuery.Proofs.Number.Rounding

/-!
# Doubles as numbers

A positive double of full precision denotes a rational number. Sums, products and quotients of such
doubles denote what rounding makes of the exact results.
-/

namespace ServiceQuery.Number

open Float.Model (Format UnpackedFloat totalExponent)
open Float.Model.UnpackedFloat (ExtendedMantissa Accuracy Sign accuracyOfFraction divCore
  packComponents unpackExponent unpackMantissa unpackSign)

variable {x y : Float} {s : Sign} {m : ℕ} {e : ℤ} {q v w : ℚ}

/-! ### Bits -/

theorem toNat_unpackMantissa (b : BitVec 64) :
    (@unpackMantissa .binary64 b).toNat = b.toNat % 2 ^ 52 := by
  change (b.extractLsb 51 0).toNat = _
  rw [BitVec.extractLsb_toNat, Nat.shiftRight_zero]

theorem toNat_unpackExponent (b : BitVec 64) :
    (@unpackExponent .binary64 b).toNat = b.toNat / 2 ^ 52 % 2 ^ 11 := by
  change (b.extractLsb 62 52).toNat = _
  rw [BitVec.extractLsb_toNat, Nat.shiftRight_eq_div_pow]

theorem toNat_unpackSign (b : BitVec 64) : (@unpackSign .binary64 b).toNat = b.toNat / 2 ^ 63 := by
  have hlt : b.toNat / 2 ^ 63 < 2 ^ (63 - 63 + 1) := by
    have := b.isLt
    omega
  change (b.extractLsb 63 63).toNat = _
  rw [BitVec.extractLsb_toNat, Nat.shiftRight_eq_div_pow, Nat.mod_eq_of_lt hlt]

theorem finite_congr {s' : Sign} {m' : ℕ} {e' : ℤ} (hs : s = s') (hm : m = m') (he : e = e')
    (h : 0 < m) (h' : 0 < m') : UnpackedFloat.finite s m e h = .finite s' m' e' h' := by
  subst hs hm he
  rfl

/-- The double has the sign `s`, 53 digits `m`, the first of which is not stored, and the exponent
`e`. -/
structure HasDigits (x : Float) (s : Sign) (m : ℕ) (e : ℤ) : Prop where
  low : 2 ^ 52 ≤ m
  high : m < 2 ^ 53
  least : -1074 ≤ e
  greatest : e ≤ 971
  bits : x.toBits.toNat = s.toBitVec.toNat * 2 ^ 63 + (e + 1075).toNat * 2 ^ 52 + (m - 2 ^ 52)

namespace HasDigits

variable (h : HasDigits x s m e)

include h

theorem pos : 0 < m := lt_of_lt_of_le (Nat.two_pow_pos 52) h.low

theorem fields : x.toBits.toNat % 2 ^ 52 = m - 2 ^ 52 ∧
    x.toBits.toNat / 2 ^ 52 % 2 ^ 11 = (e + 1075).toNat ∧
    x.toBits.toNat / 2 ^ 63 = s.toBitVec.toNat := by
  have := h.low
  have := h.high
  have := h.least
  have := h.greatest
  rw [h.bits]
  exact ⟨by omega, by omega, by omega⟩

theorem unpack : x.toModel.unpack = .finite s m e h.pos := by
  have hlow := h.low
  have hleast := h.least
  have hgreatest := h.greatest
  obtain ⟨hfraction, hfield, hsign⟩ := h.fields
  replace hfraction := (toNat_unpackMantissa x.toModel.toBits.toBitVec).trans hfraction
  replace hfield := (toNat_unpackExponent x.toModel.toBits.toBitVec).trans hfield
  replace hsign := (toNat_unpackSign x.toModel.toBits.toBitVec).trans hsign
  have hones : @unpackExponent .binary64 x.toModel.toBits.toBitVec ≠ -1#11 := by
    intro heq
    have hfull : (e + 1075).toNat = 2047 := by rw [← hfield, heq]; rfl
    omega
  have hzero : @unpackExponent .binary64 x.toModel.toBits.toBitVec ≠ 0#11 := by
    intro heq
    have hempty : (e + 1075).toNat = 0 := by rw [← hfield, heq]; rfl
    omega
  have hs : Sign.ofBitVec (@unpackSign .binary64 x.toModel.toBits.toBitVec) = s := by
    rw [BitVec.eq_of_toNat_eq hsign]
    cases s <;> rfl
  have hm : (1#1 ++ @unpackMantissa .binary64 x.toModel.toBits.toBitVec).toNat = m := by
    rw [BitVec.toNat_append, ← Nat.shiftLeft_add_eq_or_of_lt (BitVec.isLt _), hfraction]
    exact Nat.add_sub_cancel' hlow
  have he : ((@unpackExponent .binary64 x.toModel.toBits.toBitVec).toNat : ℤ) -
      (Format.binary64.exponentBias + Format.binary64.mantissaBitsWithoutImplicit) = e := by
    rw [hfield]
    simp only [Format.exponentBias]
    omega
  unfold Float.Model.unpack UnpackedFloat.unpack
  dsimp only
  rw [if_neg hones, if_neg hzero]
  exact finite_congr hs hm he _ _

/-- The binary number that the double denotes. -/
theorem ofFloat? : BinaryNumber.ofFloat? x = some ⟨s.toBitVec.toNat == 1, m, e⟩ := by
  have hlow := h.low
  have hleast := h.least
  have hgreatest := h.greatest
  have hfield : x.toBits.toNat / Nat.pow 2 52 % Nat.pow 2 11 = (e + 1075).toNat := h.fields.2.1
  have hfraction : x.toBits.toNat % Nat.pow 2 52 = m - 2 ^ 52 := h.fields.1
  have hsign : x.toBits.toNat / Nat.pow 2 63 = s.toBitVec.toNat := h.fields.2.2
  have hfinite : (e + 1075).toNat ≠ 2047 := by omega
  have hnormal : (e + 1075).toNat ≠ 0 := by omega
  have hm : Nat.pow 2 52 + (m - 2 ^ 52) = m := Nat.add_sub_cancel' hlow
  have he : -1074 + ((e + 1075).toNat - 1 : ℤ) = e := by omega
  unfold BinaryNumber.ofFloat?
  simp only [hfield, hfraction, hsign]
  rw [if_neg hfinite, BinaryNumber.ofFields, if_neg hnormal, hm, he]

end HasDigits

/-- Packing stores the digits but for the first one. -/
theorem hasDigits_pack (hlow : 2 ^ 52 ≤ m) (hhigh : m < 2 ^ 53) (hleast : -1074 ≤ e)
    (hgreatest : e ≤ 971) (h : 0 < m) :
    HasDigits (.ofModel (.pack (.finite s m e h))) s m e := by
  refine ⟨hlow, hhigh, hleast, hgreatest, ?_⟩
  have hlog : m.log2 = 52 := log2_of_bounds hlow hhigh
  have hbias : e + (1023 : ℕ) + (52 : ℕ) = e + 1075 := by omega
  have hfinite : ¬2 ^ 11 ≤ (e + 1075).toNat + 1 := by omega
  have hpack : UnpackedFloat.pack .binary64 (.finite s m e h) =
      packComponents .binary64 s (BitVec.ofNat 11 (e + 1075).toNat) (BitVec.ofNat 52 m) := by
    change (if 2 ^ 11 ≤ (e + (1023 : ℕ) + (52 : ℕ)).toNat + 1 then _
      else if m.log2 + 1 = 53 then packComponents .binary64 s
        (BitVec.ofNat 11 (e + (1023 : ℕ) + (52 : ℕ)).toNat) (BitVec.ofNat 52 m) else _) = _
    rw [hbias, if_neg hfinite, if_pos (by rw [hlog])]
  change (UnpackedFloat.pack .binary64 (.finite s m e h)).toNat = _
  rw [hpack, packComponents, BitVec.toNat_append, ← Nat.shiftLeft_add_eq_or_of_lt (BitVec.isLt _),
    BitVec.toNat_append, ← Nat.shiftLeft_add_eq_or_of_lt (BitVec.isLt _)]
  simp only [Nat.shiftLeft_eq, BitVec.toNat_ofNat]
  omega

/-! ### Operations -/

/-- The double is the positive number `v`. -/
def Denotes (x : Float) (v : ℚ) : Prop :=
  ∃ (m : ℕ) (e : ℤ), HasDigits x .positive m e ∧ v = m * 2 ^ e

theorem denotes_pack (hlow : 2 ^ 52 ≤ m) (hhigh : m < 2 ^ 53) (hnearest : IsNearest q (m * 2 ^ e))
    (hq : IsModerate q) (h : 0 < m) :
    Denotes (.ofModel (.pack (.finite .positive m e h))) (m * 2 ^ e) := by
  have herror := abs_le.1 hnearest.abs_sub_le
  have hpos : (0 : ℚ) < 2 ^ e := by positivity
  have hdigits : (2 : ℚ) ^ 52 ≤ m ∧ (m : ℚ) < 2 ^ 53 :=
    ⟨by exact_mod_cast hlow, by exact_mod_cast hhigh⟩
  have hqpos : 0 < q := lt_of_lt_of_le (by positivity) hq.1
  have hupper : (2 : ℚ) ^ (52 + e) ≤ 2 ^ (201 : ℤ) := by
    calc (2 : ℚ) ^ (52 + e) = 2 ^ 52 * 2 ^ e := zpow_add₀ two_ne_zero 52 e
      _ ≤ m * 2 ^ e := by gcongr; exact hdigits.1
      _ ≤ 2 * q := by linarith [herror.2]
      _ ≤ 2 * 2 ^ (200 : ℤ) := by gcongr; exact hq.2
      _ = 2 ^ (201 : ℤ) := by norm_num
  have hlower : (2 : ℚ) ^ (-201 : ℤ) < 2 ^ (53 + e) := by
    calc (2 : ℚ) ^ (-201 : ℤ) = 2 ^ (-200 : ℤ) / 2 := by norm_num
      _ ≤ q / 2 := by gcongr; exact hq.1
      _ ≤ m * 2 ^ e := by linarith [herror.1]
      _ < 2 ^ 53 * 2 ^ e := by gcongr; exact hdigits.2
      _ = 2 ^ (53 + e) := (zpow_add₀ two_ne_zero 53 e).symm
  have := (zpow_le_zpow_iff_right₀ one_lt_two).1 hupper
  have := (zpow_lt_zpow_iff_right₀ one_lt_two).1 hlower
  exact ⟨m, e, hasDigits_pack hlow hhigh (by omega) (by omega) h, rfl⟩

/-- The double is what rounding makes of `q`. -/
def Rounds (x : Float) (q : ℚ) : Prop := ∃ v, Denotes x v ∧ IsNearest q v

theorem rounds_roundWithAccuracy {accuracy : Accuracy} (hm : 2 ^ 52 ≤ m)
    (hq : Describes (.ofMantissaAndAccuracy m accuracy) q) (hmoderate : IsModerate (q * 2 ^ e)) :
    Rounds (.ofModel (.pack (.roundWithAccuracy .binary64 .positive m e accuracy)))
      (q * 2 ^ e) := by
  obtain ⟨m', e', h, hround, hlow, hhigh, hnearest⟩ :=
    roundWithAccuracy_isNearest .positive hm hq hmoderate
  rw [hround]
  exact ⟨_, denotes_pack hlow hhigh hnearest hmoderate h, hnearest⟩

theorem rounds_normalize (hm : 0 < m) (hmoderate : IsModerate (m * 2 ^ e)) (zero : Sign) :
    Rounds (.ofModel (.pack (.normalize .binary64 m e zero))) (m * 2 ^ e) := by
  obtain ⟨m', e', h, hround, hlow, hhigh, hnearest⟩ := round_isNearest .positive hm hmoderate
  have hnormalize : UnpackedFloat.normalize .binary64 m e zero = .finite .positive m' e' h := by
    rw [UnpackedFloat.normalize, Int.compare_eq_gt.2 (by omega)]
    exact hround
  rw [hnormalize]
  exact ⟨_, denotes_pack hlow hhigh hnearest hmoderate h, hnearest⟩

/-- Digits of a quotient, with what the remainder says about those behind them. -/
theorem describes_div (n d : ℕ) (hd : 0 < d) :
    Describes (.ofMantissaAndAccuracy (n / d) (accuracyOfFraction (n % d) d)) (n / d : ℚ) := by
  have hdq : (0 : ℚ) < d := by exact_mod_cast hd
  have hlt : ((n % d : ℕ) : ℚ) < d := by exact_mod_cast Nat.mod_lt n hd
  rw [natCast_div_eq n hd]
  unfold accuracyOfFraction
  by_cases hzero : n % d = 0
  · rw [if_pos hzero, hzero, Nat.cast_zero, zero_div, add_zero]
    exact describes_exact _
  · rw [if_neg hzero]
    have hpos : (0 : ℚ) < (n % d : ℕ) := by exact_mod_cast Nat.pos_of_ne_zero hzero
    generalize n % d = r at *
    cases hcompare : compare (2 * r) d with
    | lt =>
      have hhalf : (2 * r : ℚ) < d := by exact_mod_cast Nat.compare_eq_lt.1 hcompare
      refine ⟨r / d, ?_, by positivity, ?_, ?_⟩
      · simp [ExtendedMantissa.ofMantissaAndAccuracy]
      · rw [div_lt_div_iff₀ hdq two_pos]
        linarith
      · simp [ExtendedMantissa.ofMantissaAndAccuracy, hpos.ne', hdq.ne']
    | eq =>
      have hhalf : (d : ℚ) = 2 * r := by exact_mod_cast (Nat.compare_eq_eq.1 hcompare).symm
      refine ⟨0, ?_, le_rfl, by norm_num, by simp [ExtendedMantissa.ofMantissaAndAccuracy]⟩
      rw [hhalf]
      simp only [ExtendedMantissa.ofMantissaAndAccuracy, Bool.toNat_true]
      field_simp
      simp
    | gt =>
      have hhalf : (d : ℚ) < 2 * r := by exact_mod_cast Nat.compare_eq_gt.1 hcompare
      have hmore : (1 / 2 : ℚ) < r / d := by
        rw [div_lt_div_iff₀ two_pos hdq]
        linarith
      have hless : (r : ℚ) / d < 1 := (div_lt_one hdq).2 hlt
      refine ⟨r / d - 1 / 2, ?_, by linarith, by linarith, ?_⟩
      · simp [ExtendedMantissa.ofMantissaAndAccuracy]
      · simp only [ExtendedMantissa.ofMantissaAndAccuracy, Bool.true_eq_false, false_iff]
        linarith

namespace Denotes

theorem pos (h : Denotes x v) : 0 < v := by
  obtain ⟨m, e, h, rfl⟩ := h
  have hm : (0 : ℚ) < m := by exact_mod_cast h.pos
  positivity

theorem mul (hx : Denotes x v) (hy : Denotes y w) (h : IsModerate (v * w)) :
    Rounds (x * y) (v * w) := by
  obtain ⟨m, e, hx, rfl⟩ := hx
  obtain ⟨n, k, hy, rfl⟩ := hy
  have hvalue : (m : ℚ) * 2 ^ e * (n * 2 ^ k) = (m * n : ℕ) * 2 ^ (e + k) := by
    rw [zpow_add₀ two_ne_zero]
    push_cast
    ring
  have hproduct : x * y = .ofModel (.pack
      (.roundWithAccuracy .binary64 .positive (m * n) (e + k) .exact)) := by
    change Float.ofModel (.pack (.mul .binary64 x.toModel.unpack y.toModel.unpack)) = _
    rw [hx.unpack, hy.unpack]
    rfl
  have hdigits : 2 ^ 52 ≤ m * n :=
    hx.low.trans (Nat.le_mul_of_pos_right m hy.pos)
  rw [hvalue] at h ⊢
  rw [hproduct]
  exact rounds_roundWithAccuracy hdigits (describes_exact _) h

theorem add (hx : Denotes x v) (hy : Denotes y w) (h : IsModerate (v + w)) :
    Rounds (x + y) (v + w) := by
  obtain ⟨m, e, hx, rfl⟩ := hx
  obtain ⟨n, k, hy, rfl⟩ := hy
  generalize hi : (e - min e k).toNat = i
  generalize hj : (k - min e k).toNat = j
  have hvalue : (m : ℚ) * 2 ^ e + n * 2 ^ k = (m <<< i + n <<< j : ℕ) * 2 ^ min e k := by
    have he : (2 : ℚ) ^ e = 2 ^ i * 2 ^ min e k := by
      rw [← zpow_natCast, ← zpow_add₀ two_ne_zero]
      congr 1
      omega
    have hk : (2 : ℚ) ^ k = 2 ^ j * 2 ^ min e k := by
      rw [← zpow_natCast, ← zpow_add₀ two_ne_zero]
      congr 1
      omega
    rw [he, hk, Nat.shiftLeft_eq, Nat.shiftLeft_eq]
    push_cast
    ring
  have hsum : x + y = .ofModel (.pack
      (.normalize .binary64 (m <<< i + n <<< j : ℕ) (min e k) .positive)) := by
    change Float.ofModel (.pack (.add .binary64 x.toModel.unpack y.toModel.unpack)) = _
    rw [hx.unpack, hy.unpack, Nat.cast_add, ← hi, ← hj]
    rfl
  have hpos : 0 < m <<< i + n <<< j :=
    Nat.add_pos_left (Nat.shiftLeft_pos_iff.2 hx.pos) _
  rw [hvalue] at h ⊢
  rw [hsum]
  exact rounds_normalize hpos h .positive

theorem div (hx : Denotes x v) (hy : Denotes y w) (h : IsModerate (v / w)) :
    Rounds (x / y) (v / w) := by
  obtain ⟨m, e, hx, rfl⟩ := hx
  obtain ⟨n, k, hy, rfl⟩ := hy
  have hn : (0 : ℚ) < n := by exact_mod_cast hy.pos
  have hvalue : (m * 2 ^ e / (n * 2 ^ k) : ℚ) = ((m <<< 53 : ℕ) / n : ℚ) * 2 ^ (e - k - 53) := by
    rw [Nat.shiftLeft_eq, zpow_sub₀ two_ne_zero, zpow_sub₀ two_ne_zero]
    push_cast
    field_simp
  have htarget : Format.binary64.targetExponent
      (totalExponent m e - totalExponent n k) = e - k - 53 := by
    have hlogm : m.log2 = 52 := log2_of_bounds hx.low hx.high
    have hlogn : n.log2 = 52 := log2_of_bounds hy.low hy.high
    have hless : (m : ℚ) < 2 * n := by
      exact_mod_cast hx.high.trans_le (Nat.mul_le_mul_left 2 hy.low)
    have hupper : (m * 2 ^ e / (n * 2 ^ k) : ℚ) < 2 ^ (1 + (e - k)) := by
      rw [zpow_add₀ two_ne_zero, zpow_sub₀ two_ne_zero, mul_div_mul_comm]
      gcongr
      rw [div_lt_iff₀ hn]
      simpa using hless
    have := (zpow_lt_zpow_iff_right₀ one_lt_two).1 (h.1.trans_lt hupper)
    rw [targetExponent_eq, totalExponent, totalExponent]
    omega
  have hcore : divCore .binary64 m e n k =
      ((m <<< 53) / n, e - k - 53, accuracyOfFraction ((m <<< 53) % n) n) := by
    have hshift : (e - k - (e - k - 53)).toNat = 53 := by omega
    simp only [divCore, htarget, min_eq_right (by omega : e - k - 53 ≤ e - k), hshift]
  have hquotient : x / y = .ofModel (.pack (.roundWithAccuracy .binary64 .positive ((m <<< 53) / n)
      (e - k - 53) (accuracyOfFraction ((m <<< 53) % n) n))) := by
    change Float.ofModel (.pack (.div .binary64 x.toModel.unpack y.toModel.unpack)) = _
    rw [hx.unpack, hy.unpack]
    change Float.ofModel (.pack (.roundWithAccuracy .binary64 .positive
      (divCore .binary64 m e n k).1 (divCore .binary64 m e n k).2.1
      (divCore .binary64 m e n k).2.2)) = _
    rw [hcore]
  have hdigits : 2 ^ 52 ≤ (m <<< 53) / n := by
    rw [Nat.le_div_iff_mul_le hy.pos, Nat.shiftLeft_eq]
    exact Nat.mul_le_mul hx.low hy.high.le
  rw [hvalue] at h ⊢
  rw [hquotient]
  exact rounds_roundWithAccuracy hdigits (describes_div _ _ hy.pos) h

end Denotes

/-! ### Natural numbers -/

theorem denotes_one : Denotes (Float.ofBits 0x3FF0000000000000) 1 :=
  ⟨2 ^ 52, -52, ⟨by decide, by decide, by decide, by decide, by decide +kernel⟩, by norm_num⟩

theorem toFloat_toUInt64 {n : ℕ} (hn : n < 2 ^ 64) :
    n.toUInt64.toFloat = .ofModel (.pack (.normalize .binary64 n 0 .positive)) := by
  have htoNat : n.toUInt64.toNat = n := UInt64.toNat_ofNat_of_lt' hn
  change Float.ofModel (.pack (.normalize .binary64 n.toUInt64.toNat 0 .positive)) = _
  rw [htoNat]

theorem rounds_ofNat {n : ℕ} (hn : 0 < n) (h : IsModerate n) : Rounds (Float.ofNat n) n := by
  by_cases hsmall : n < 2 ^ 53
  · have hofNat : Float.ofNat n = n.toUInt64.toFloat * Float.ofBits 0x3FF0000000000000 := by
      change Float.ofScientific n false 0 = _
      unfold Float.ofScientific
      rw [dif_pos ⟨hsmall, Nat.zero_le _⟩]
      rfl
    have hvalue : (n : ℚ) = n * 2 ^ (0 : ℤ) := by rw [zpow_zero, mul_one]
    obtain ⟨v, hdenotes, hnearest⟩ := rounds_normalize hn (hvalue ▸ h) .positive
    obtain rfl := hnearest.exact hsmall rfl
    rw [← hvalue, ← toFloat_toUInt64 (hsmall.trans (by decide))] at hdenotes
    have hproduct := hdenotes.mul denotes_one (by rwa [mul_one])
    rwa [mul_one, ← hofNat] at hproduct
  · have hofNat : Float.ofNat n =
        .ofModel (.pack (.roundWithAccuracy .binary64 .positive (n <<< 53) (-53) .exact)) := by
      change Float.ofScientific n false 0 = _
      unfold Float.ofScientific
      rw [dif_neg fun h => hsmall h.1]
      change Float.ofModel (.pack (.ofScientific .binary64 n 0)) = _
      unfold UnpackedFloat.ofScientific
      rw [dif_neg hn.ne', if_neg (by decide), if_neg (by simp), if_pos (by decide)]
      change Float.ofModel
        (.pack (.roundWithAccuracy .binary64 .positive (n <<< 53 * 1) (-53) .exact)) = _
      rw [Nat.mul_one]
    have hvalue : (n : ℚ) = (n <<< 53 : ℕ) * 2 ^ (-53 : ℤ) := by
      rw [Nat.shiftLeft_eq, Nat.cast_mul, Nat.cast_pow, Nat.cast_ofNat, mul_assoc, ← zpow_natCast,
        ← zpow_add₀ two_ne_zero]
      simp
    have hdigits : 2 ^ 52 ≤ n <<< 53 := by
      rw [Nat.shiftLeft_eq]
      omega
    rw [hvalue] at h ⊢
    rw [hofNat]
    exact rounds_roundWithAccuracy hdigits (describes_exact _) h

/-! ### Integer parts -/

theorem wholePart_eq (b : BinaryNumber) :
    (b.wholePart : ℤ) = ⌊(b.mantissa : ℚ) * 2 ^ b.exponent⌋ := by
  obtain ⟨negative, m, e⟩ := b
  cases e with
  | ofNat k =>
    have hvalue : (m : ℚ) * 2 ^ (k : ℤ) = (m * 2 ^ k : ℕ) := by simp
    exact (hvalue ▸ Int.floor_natCast _).symm
  | negSucc k =>
    have hvalue : (m : ℚ) * 2 ^ Int.negSucc k = m / (2 ^ (k + 1) : ℕ) := by
      rw [zpow_negSucc, div_eq_mul_inv, Nat.cast_pow, Nat.cast_ofNat]
    rw [hvalue, Rat.floor_natCast_div_natCast]
    rfl

/-- The nearest integer is off by a half at most. -/
theorem abs_nearestWhole_sub_le (b : BinaryNumber) :
    |(b.nearestWhole : ℚ) - b.mantissa * 2 ^ b.exponent| ≤ 1 / 2 := by
  obtain ⟨negative, m, e⟩ := b
  cases e with
  | ofNat k => simp [BinaryNumber.nearestWhole]
  | negSucc k =>
    have hpos : (0 : ℚ) < 2 ^ (k + 1) := by positivity
    have hlow : (((m + 2 ^ k) / 2 ^ (k + 1) : ℕ) : ℚ) * 2 ^ (k + 1) ≤ m + 2 ^ k := by
      exact_mod_cast Nat.div_mul_le_self (m + 2 ^ k) (2 ^ (k + 1))
    have hhigh : (m : ℚ) + 2 ^ k < 2 ^ (k + 1) * (((m + 2 ^ k) / 2 ^ (k + 1) : ℕ) + 1) := by
      exact_mod_cast Nat.lt_mul_div_succ (m + 2 ^ k) (Nat.two_pow_pos (k + 1))
    have hvalue : (m : ℚ) * 2 ^ Int.negSucc k = m / 2 ^ (k + 1) := by
      rw [zpow_negSucc, div_eq_mul_inv]
    change |(((m + 2 ^ k) / 2 ^ (k + 1) : ℕ) : ℚ) - m * 2 ^ Int.negSucc k| ≤ 1 / 2
    generalize (m + 2 ^ k) / 2 ^ (k + 1) = n at hlow hhigh ⊢
    rw [hvalue, ← mul_le_mul_iff_left₀ hpos, ← abs_of_pos hpos, ← abs_mul, abs_of_pos hpos, sub_mul,
      div_mul_cancel₀ _ hpos.ne', abs_le]
    rw [pow_succ] at hlow hhigh ⊢
    constructor <;> linarith

/-- The nearest integer has no more digits than the number. -/
theorem nearestWhole_digits (b : BinaryNumber) (hb : b.mantissa < 2 ^ 53) :
    ∃ (n : ℕ) (k : ℤ), n < 2 ^ 53 ∧ (b.nearestWhole : ℚ) = n * 2 ^ k := by
  obtain ⟨negative, m, e⟩ := b
  cases e with
  | ofNat k => exact ⟨m, k, hb, by simp [BinaryNumber.nearestWhole]⟩
  | negSucc k =>
    refine ⟨_, 0, ?_, (by rw [zpow_zero, mul_one])⟩
    change (m + 2 ^ k) / 2 ^ (k + 1) < 2 ^ 53
    rw [Nat.div_lt_iff_lt_mul (Nat.two_pow_pos _), pow_succ]
    have hk : 1 ≤ 2 ^ k := Nat.one_le_two_pow
    change m < 2 ^ 53 at hb
    omega

theorem HasDigits.neg (h : HasDigits x s m e) : HasDigits (-x) (-s) m e := by
  have hneg : -x = .ofModel (.pack (.finite (-s) m e h.pos)) := by
    change Float.ofModel (.pack x.toModel.unpack.neg) = _
    rw [h.unpack]
    rfl
  rw [hneg]
  exact hasDigits_pack h.low h.high h.least h.greatest h.pos

namespace Denotes

theorem toInt? (h : Denotes x v) : Number.toInt? x = some ⌊v⌋ := by
  obtain ⟨m, e, h, rfl⟩ := h
  rw [Number.toInt?, h.ofFloat?]
  exact congrArg some (wholePart_eq ⟨false, m, e⟩)

theorem toInt?_neg (h : Denotes x v) : Number.toInt? (-x) = some (-⌊v⌋) := by
  obtain ⟨m, e, h, rfl⟩ := h
  rw [Number.toInt?, h.neg.ofFloat?]
  exact congrArg (fun n => some (-n)) (wholePart_eq ⟨true, m, e⟩)

/-- An integer next to a double is a double. -/
theorem roundAway (h : Denotes x v) (hlow : 1 / 2 < v) (hhigh : v ≤ 2 ^ 199) :
    ∃ n : ℕ, Denotes (roundAway x) n ∧ |(n : ℚ) - v| ≤ 1 / 2 := by
  obtain ⟨m, e, h, rfl⟩ := h
  have hround : Number.roundAway x = Float.ofNat (BinaryNumber.nearestWhole ⟨false, m, e⟩) := by
    rw [Number.roundAway, mapMagnitude, h.ofFloat?]
    rfl
  have herror := abs_nearestWhole_sub_le ⟨false, m, e⟩
  obtain ⟨digits, k, hdigits, hvalue⟩ := nearestWhole_digits ⟨false, m, e⟩ h.high
  generalize BinaryNumber.nearestWhole ⟨false, m, e⟩ = n at hround herror hvalue
  obtain ⟨hbelow, habove⟩ := abs_le.1 herror
  have hn : 0 < n := by
    have : (0 : ℚ) < n := by linarith
    exact_mod_cast this
  have hmoderate : IsModerate n := by
    have hone : (1 : ℚ) ≤ n := by exact_mod_cast hn
    have hpower : (1 / 2 : ℚ) ≤ 2 ^ 199 ∧ (2 : ℚ) ^ (200 : ℤ) = 2 ^ 199 + 2 ^ 199 := by norm_num
    refine ⟨le_trans (by norm_num) hone, ?_⟩
    rw [hpower.2]
    dsimp only at habove
    linarith [hpower.1]
  obtain ⟨v, hdenotes, hnearest⟩ := rounds_ofNat hn hmoderate
  obtain rfl := hnearest.exact hdigits hvalue
  exact ⟨n, hround ▸ hdenotes, herror⟩

end Denotes

end ServiceQuery.Number
