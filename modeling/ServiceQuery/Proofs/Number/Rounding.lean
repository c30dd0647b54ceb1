import Mathlib.Algebra.Order.Field.Power
import Mathlib.Algebra.Order.Field.Rat
import Mathlib.Tactic.FieldSimp
import Mathlib.Tactic.Linarith
import Mathlib.Tactic.NormNum
import Mathlib.Tactic.Positivity
import Mathlib.Tactic.Ring

/-!
# Rounding to doubles

A number is rounded to a double by moving its binary digits to the right until 53 are left and
looking at what came behind them. The result is the multiple of the last place that is nearest to
the number.
-/

namespace ServiceQuery.Number

open Float.Model (Format UnpackedFloat totalExponent)
open Float.Model.UnpackedFloat (ExtendedMantissa Accuracy Sign decreaseExponent roundWithAccuracy
  shiftToExponent shiftToTargetExponent)

variable {em : ExtendedMantissa} {accuracy : Accuracy} {q v : ℚ} {m : ℕ} {e : ℤ}

theorem eq_of_abs_sub_lt_one {a b : ℕ} (h : |(a : ℚ) - b| < 1) : a = b := by
  have hint : |(a : ℤ) - b| < 1 := by exact_mod_cast h
  have := Int.abs_lt_one_iff.1 hint
  omega

theorem natCast_div_eq (n : ℕ) {d : ℕ} (hd : 0 < d) :
    (n / d : ℚ) = (n / d : ℕ) + (n % d : ℕ) / d := by
  have hdiv : (n : ℚ) = d * (n / d : ℕ) + (n % d : ℕ) := by
    exact_mod_cast (Nat.div_add_mod n d).symm
  have hdq : (d : ℚ) ≠ 0 := by exact_mod_cast hd.ne'
  rw [div_eq_iff hdq, add_mul, div_mul_cancel₀ _ hdq, mul_comm]
  exact hdiv

/-- The digits and the two bits behind them are those of `q`: a half when the first bit is set, and
a rest below a half when the second one is. -/
def Describes (em : ExtendedMantissa) (q : ℚ) : Prop :=
  ∃ rest : ℚ, q = em.mantissa + em.roundBit.toNat / 2 + rest ∧ 0 ≤ rest ∧ rest < 1 / 2 ∧
    (em.stickyBit = false ↔ rest = 0)

theorem describes_exact (m : ℕ) : Describes (.ofMantissaAndAccuracy m .exact) m :=
  ⟨0, by simp [ExtendedMantissa.ofMantissaAndAccuracy]⟩

namespace Describes

theorem bounds (h : Describes em q) : em.mantissa ≤ q ∧ q < em.mantissa + 1 := by
  obtain ⟨rest, rfl, hrest, hhalf, -⟩ := h
  cases em.roundBit with
  | false => constructor <;> simp <;> linarith
  | true => constructor <;> simp <;> linarith

/-- The digit that is moved out becomes the first bit, and the bits before it become the second. -/
theorem shiftRightOne (h : Describes em q) : Describes em.shiftRightOne (q / 2) := by
  obtain ⟨rest, rfl, hrest, hhalf, hsticky⟩ := h
  have hdigits : (em.mantissa : ℚ) = 2 * (em.mantissa / 2 : ℕ) + (em.mantissa % 2 : ℕ) := by
    exact_mod_cast (Nat.div_add_mod em.mantissa 2).symm
  have hbit : ((em.mantissa % 2 != 0).toNat : ℚ) = (em.mantissa % 2 : ℕ) := by
    obtain h | h := Nat.mod_two_eq_zero_or_one em.mantissa <;> simp [h]
  refine ⟨em.roundBit.toNat / 4 + rest / 2, ?_, ?_, ?_, ?_⟩
  · simp only [ExtendedMantissa.shiftRightOne, hbit]
    rw [hdigits]
    ring
  · positivity
  · cases em.roundBit <;> simp <;> linarith
  · cases hround : em.roundBit with
    | false => simp [ExtendedMantissa.shiftRightOne, hround, hsticky]
    | true =>
      simp only [ExtendedMantissa.shiftRightOne, hround, Bool.true_or, Bool.true_eq_false,
        Bool.toNat_true, Nat.cast_one, false_iff]
      linarith

theorem shiftRight (h : Describes em q) (k : ℕ) : Describes (em >>> k) (q / 2 ^ k) := by
  induction k with
  | zero =>
    rw [pow_zero, div_one]
    exact h
  | succ k ih =>
    have hnext := ih.shiftRightOne
    rw [div_div, ← pow_succ] at hnext
    exact hnext

/-- Rounding the digits by the two bits goes to a nearest integer. -/
theorem abs_roundedMantissa_sub_le (h : Describes em q) :
    |(em.roundedMantissa : ℚ) - q| ≤ 1 / 2 := by
  obtain ⟨rest, rfl, hrest, hhalf, hsticky⟩ := h
  obtain ⟨digits, first, second⟩ := em
  simp only [ExtendedMantissa.roundedMantissa]
  cases first with
  | false =>
    cases second with
    | false =>
      have hzero : rest = 0 := hsticky.1 rfl
      simp [ExtendedMantissa.accuracy, Accuracy.roundToNearestEven, hzero]
    | true =>
      simp only [ExtendedMantissa.accuracy, Accuracy.roundToNearestEven, Bool.toNat_false]
      rw [abs_le]
      constructor <;> push_cast <;> linarith
  | true =>
    cases second with
    | false =>
      -- a half, which goes to the even neighbour
      have hzero : rest = 0 := hsticky.1 rfl
      simp only [ExtendedMantissa.accuracy, Accuracy.roundToNearestEven, Bool.toNat_true, hzero]
      obtain hpar | hpar := Nat.mod_two_eq_zero_or_one digits <;> rw [hpar, abs_le] <;>
        constructor <;> push_cast <;> linarith
    | true =>
      simp only [ExtendedMantissa.accuracy, Accuracy.roundToNearestEven, Bool.toNat_true]
      rw [abs_le]
      constructor <;> push_cast <;> linarith

end Describes

/-- The number `v` is `q` rounded to a multiple of `2 ^ t`, the place of the last of the first 53
digits of `q`. -/
def IsNearest (q v : ℚ) : Prop :=
  ∃ (r : ℕ) (t : ℤ), v = r * 2 ^ t ∧ 2 ^ 52 * 2 ^ t ≤ q ∧ q < 2 ^ 53 * 2 ^ t ∧
    |r * 2 ^ t - q| ≤ 2 ^ t / 2

namespace IsNearest

theorem abs_sub_le (h : IsNearest q v) : |v - q| ≤ q / 2 ^ 53 := by
  obtain ⟨r, t, rfl, hlow, -, herror⟩ := h
  calc |(r : ℚ) * 2 ^ t - q| ≤ 2 ^ t / 2 := herror
    _ = 2 ^ 52 * 2 ^ t / 2 ^ 53 := by ring
    _ ≤ q / 2 ^ 53 := by gcongr

/-- A number with at most 53 digits is not changed. -/
theorem exact (h : IsNearest q v) {n : ℕ} {k : ℤ} (hn : n < 2 ^ 53) (hq : q = n * 2 ^ k) :
    v = q := by
  obtain ⟨r, t, rfl, hlow, -, herror⟩ := h
  have hpos : (0 : ℚ) < 2 ^ t := by positivity
  -- the last place of the 53 digits does not lie before the last digit
  have hplace : t ≤ k := by
    by_contra hlt
    have hdigits : (n : ℚ) < 2 ^ 53 := by exact_mod_cast hn
    have hpower : (2 : ℚ) ^ k ≤ 2 ^ (t - 1) := zpow_le_zpow_right₀ one_le_two (by omega)
    have : q < 2 ^ 52 * 2 ^ t := by
      calc q = n * 2 ^ k := hq
        _ < 2 ^ 53 * 2 ^ k := by gcongr
        _ ≤ 2 ^ 53 * 2 ^ (t - 1) := by gcongr
        _ = 2 ^ 52 * 2 ^ t := by rw [zpow_sub_one₀ two_ne_zero]; ring
    exact absurd hlow (not_le.2 this)
  obtain ⟨j, rfl⟩ := Int.le.dest hplace
  have hmultiple : q = (n * 2 ^ j : ℕ) * 2 ^ t := by
    rw [hq, zpow_add₀ two_ne_zero, zpow_natCast]
    push_cast
    ring
  rw [hmultiple, ← sub_mul, abs_mul, abs_of_pos hpos, div_eq_inv_mul] at herror
  have hclose : |(r : ℚ) - (n * 2 ^ j : ℕ)| < 1 :=
    (le_of_mul_le_mul_right herror hpos).trans_lt (by norm_num)
  rw [hmultiple, eq_of_abs_sub_lt_one hclose]

end IsNearest

/-- The number is far from the smallest and the largest doubles. -/
def IsModerate (q : ℚ) : Prop := 2 ^ (-200 : ℤ) ≤ q ∧ q ≤ 2 ^ (200 : ℤ)

theorem log2_of_bounds {n k : ℕ} (hlow : 2 ^ k ≤ n) (hhigh : n < 2 ^ (k + 1)) : n.log2 = k := by
  have hn : n ≠ 0 := (lt_of_lt_of_le (Nat.two_pow_pos k) hlow).ne'
  exact (Nat.log2_eq_iff hn).2 ⟨hlow, hhigh⟩

theorem targetExponent_eq (t : ℤ) : Format.binary64.targetExponent t = max (t - 53) (-1074) := rfl

theorem shiftToTargetExponent_eq (hm : 2 ^ 52 ≤ m) (he : -1074 ≤ e + (m.log2 - 52 : ℕ)) :
    shiftToTargetExponent .binary64 m e accuracy =
      (ExtendedMantissa.ofMantissaAndAccuracy m accuracy >>> (m.log2 - 52),
        e + (m.log2 - 52 : ℕ)) := by
  have hlog : 52 ≤ m.log2 := (Nat.le_log2 (by omega)).2 hm
  have htarget : (Format.binary64.targetExponent (totalExponent m e) - e).toNat = m.log2 - 52 := by
    rw [targetExponent_eq, totalExponent]
    omega
  simp only [shiftToTargetExponent, shiftToExponent, htarget]

/-- The rounding of 53 digits may give a 54th, which is then zero and dropped. -/
theorem shiftToTargetExponent_rounded {r : ℕ} {t : ℤ} (hlow : 2 ^ 52 ≤ r) (hhigh : r ≤ 2 ^ 53)
    (ht : -1074 ≤ t) :
    ∃ (em : ExtendedMantissa) (e : ℤ), shiftToTargetExponent .binary64 r t .exact = (em, e) ∧
      2 ^ 52 ≤ em.mantissa ∧ em.mantissa < 2 ^ 53 ∧ (em.mantissa : ℚ) * 2 ^ e = r * 2 ^ t := by
  refine ⟨_, _, shiftToTargetExponent_eq hlow (by omega), ?_⟩
  obtain hlt | rfl := hhigh.lt_or_eq
  · rw [log2_of_bounds hlow hlt]
    exact ⟨hlow, hlt, by simp [HShiftRight.hShiftRight, Nat.repeat,
      ExtendedMantissa.ofMantissaAndAccuracy]⟩
  · rw [Nat.log2_two_pow]
    refine ⟨by decide, by decide, ?_⟩
    change ((2 ^ 52 : ℕ) : ℚ) * 2 ^ (t + 1) = (2 ^ 53 : ℕ) * 2 ^ t
    rw [zpow_add_one₀ two_ne_zero]
    push_cast
    ring

/-- A number between two powers of two is rounded to one between them. -/
theorem bounds_of_abs_sub_le {r : ℕ} {y : ℚ} (hr : |(r : ℚ) - y| ≤ 1 / 2) (hlow : 2 ^ 52 ≤ y)
    (hhigh : y < 2 ^ 53) : 2 ^ 52 ≤ r ∧ r ≤ 2 ^ 53 := by
  rw [abs_le] at hr
  have hl : ((2 ^ 52 : ℕ) : ℚ) < (r + 1 : ℕ) := by
    push_cast
    linarith
  have hh : (r : ℚ) < (2 ^ 53 + 1 : ℕ) := by
    push_cast
    linarith
  exact ⟨Nat.lt_succ_iff.1 (by exact_mod_cast hl), Nat.lt_succ_iff.1 (by exact_mod_cast hh)⟩

/-- The place of the last of the first 53 digits of a number. -/
theorem Describes.div_bounds (hq : Describes em q) (hm : 2 ^ 52 ≤ em.mantissa) :
    2 ^ 52 ≤ q / 2 ^ (em.mantissa.log2 - 52) ∧ q / 2 ^ (em.mantissa.log2 - 52) < 2 ^ 53 := by
  have hne : em.mantissa ≠ 0 := by omega
  have hlog : 52 ≤ em.mantissa.log2 := (Nat.le_log2 hne).2 hm
  generalize hk : em.mantissa.log2 - 52 = k
  have hlow : 2 ^ (52 + k) ≤ em.mantissa := (Nat.le_log2 hne).1 (by omega)
  have hhigh : em.mantissa + 1 ≤ 2 ^ (53 + k) := (Nat.log2_lt hne).1 (by omega)
  have hlow' : (2 : ℚ) ^ (52 + k) ≤ em.mantissa := by exact_mod_cast hlow
  have hhigh' : (em.mantissa : ℚ) + 1 ≤ 2 ^ (53 + k) := by exact_mod_cast hhigh
  rw [pow_add] at hlow' hhigh'
  have hpos : (0 : ℚ) < 2 ^ k := by positivity
  rw [le_div_iff₀ hpos, div_lt_iff₀ hpos]
  exact ⟨hlow'.trans hq.bounds.1, hq.bounds.2.trans_le hhigh'⟩

theorem mantissa_ofMantissaAndAccuracy (m : ℕ) (accuracy : Accuracy) :
    (ExtendedMantissa.ofMantissaAndAccuracy m accuracy).mantissa = m := by
  cases accuracy with
  | exact => rfl
  | inexact order => cases order <;> rfl

/-- Rounding digits of which there are at least 53. -/
theorem roundWithAccuracy_isNearest (s : Sign) (hm : 2 ^ 52 ≤ m)
    (hq : Describes (.ofMantissaAndAccuracy m accuracy) q) (hmoderate : IsModerate (q * 2 ^ e)) :
    ∃ (m' : ℕ) (e' : ℤ) (h : 0 < m'),
      roundWithAccuracy .binary64 s m e accuracy = .finite s m' e' h ∧
        2 ^ 52 ≤ m' ∧ m' < 2 ^ 53 ∧ IsNearest (q * 2 ^ e) (m' * 2 ^ e') := by
  have hy := hq.div_bounds (by rwa [mantissa_ofMantissaAndAccuracy])
  rw [mantissa_ofMantissaAndAccuracy] at hy
  have hr := (hq.shiftRight (m.log2 - 52)).abs_roundedMantissa_sub_le
  generalize hk : m.log2 - 52 = k at *
  generalize hround : (ExtendedMantissa.ofMantissaAndAccuracy m accuracy >>> k).roundedMantissa = r
    at *
  have hpos : (0 : ℚ) < 2 ^ (e + k) := by positivity
  have hscale : q * 2 ^ e = q / 2 ^ k * 2 ^ (e + k) := by
    rw [zpow_add₀ two_ne_zero, zpow_natCast]
    field_simp
  have hupper : q * 2 ^ e < 2 ^ (53 + (e + k)) := by
    rw [hscale, zpow_add₀ two_ne_zero 53]
    exact mul_lt_mul_of_pos_right hy.2 hpos
  have he : -1074 ≤ e + k := by
    have := (zpow_lt_zpow_iff_right₀ one_lt_two).1 (hmoderate.1.trans_lt hupper)
    omega
  obtain ⟨hrlow, hrhigh⟩ := bounds_of_abs_sub_le hr hy.1 hy.2
  obtain ⟨em, e', hshift, hlow, hhigh, hvalue⟩ :=
    shiftToTargetExponent_rounded hrlow hrhigh he
  have hne : em.mantissa ≠ 0 := by omega
  refine ⟨em.mantissa, e', Nat.pos_of_ne_zero hne, ?_, hlow, hhigh, r, e + k, hvalue, ?_⟩
  · unfold roundWithAccuracy
    rw [shiftToTargetExponent_eq hm (hk ▸ he), hk]
    dsimp only
    rw [hround, hshift]
    exact dif_neg hne
  · rw [hscale]
    refine ⟨mul_le_mul_of_nonneg_right hy.1 hpos.le, mul_lt_mul_of_pos_right hy.2 hpos, ?_⟩
    rw [← sub_mul, abs_mul, abs_of_pos hpos]
    calc |(r : ℚ) - q / 2 ^ k| * 2 ^ (e + k) ≤ 1 / 2 * 2 ^ (e + k) :=
          mul_le_mul_of_nonneg_right hr hpos.le
      _ = 2 ^ (e + k) / 2 := by ring

theorem log2_shiftLeft (hm : m ≠ 0) (k : ℕ) : (m <<< k).log2 = m.log2 + k := by
  have hbits := (Nat.log2_eq_iff hm).1 rfl
  rw [Nat.shiftLeft_eq]
  refine log2_of_bounds ?_ ?_
  · rw [pow_add]
    exact Nat.mul_le_mul_right _ hbits.1
  · rw [Nat.add_right_comm, pow_add]
    exact Nat.mul_lt_mul_of_pos_right hbits.2 (Nat.two_pow_pos k)

/-- Rounding digits of any number: when there are too few, zeros are added first. -/
theorem round_isNearest (s : Sign) (hm : 0 < m) (hmoderate : IsModerate (m * 2 ^ e)) :
    ∃ (m' : ℕ) (e' : ℤ) (h : 0 < m'),
      UnpackedFloat.round .binary64 s m e = .finite s m' e' h ∧
        2 ^ 52 ≤ m' ∧ m' < 2 ^ 53 ∧ IsNearest (m * 2 ^ e) (m' * 2 ^ e') := by
  have hbits : (m : ℚ) < 2 ^ (m.log2 + 1) := by exact_mod_cast Nat.lt_log2_self
  have htarget : Format.binary64.targetExponent (totalExponent m e) = m.log2 + e - 52 := by
    have hupper : (m : ℚ) * 2 ^ e < 2 ^ ((m.log2 + 1 : ℕ) + e) := by
      rw [zpow_add₀ two_ne_zero, zpow_natCast]
      exact mul_lt_mul_of_pos_right hbits (by positivity)
    have := (zpow_lt_zpow_iff_right₀ one_lt_two).1 (hmoderate.1.trans_lt hupper)
    rw [targetExponent_eq, totalExponent]
    omega
  generalize hk : (e - (m.log2 + e - 52)).toNat = k
  have hdigits : 2 ^ 52 ≤ m <<< k := by
    refine (Nat.le_log2 (Nat.shiftLeft_pos_iff.2 hm).ne').1 ?_
    rw [log2_shiftLeft hm.ne']
    omega
  have hvalue : (m : ℚ) * 2 ^ e = (m <<< k : ℕ) * 2 ^ (e - k) := by
    rw [Nat.shiftLeft_eq, zpow_sub₀ two_ne_zero, zpow_natCast]
    push_cast
    field_simp
  rw [hvalue] at hmoderate ⊢
  have hround : UnpackedFloat.round .binary64 s m e =
      roundWithAccuracy .binary64 s (m <<< k) (e - k) .exact := by
    simp only [UnpackedFloat.round, htarget, decreaseExponent, hk]
  rw [hround]
  exact roundWithAccuracy_isNearest s hdigits (describes_exact _) hmoderate

end ServiceQuery.Number
