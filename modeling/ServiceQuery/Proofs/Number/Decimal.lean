import ServiceQuery.Decimal.Convert
import ServiceQuery.Proofs.Number.Double

/-!
# Decimals as doubles

The double for a decimal comes from a handful of operations on doubles, each of which rounds. The
error of the result is a small multiple of the error of one rounding.
-/

namespace ServiceQuery

namespace Number

variable {x y : Float} {j k : ℕ} {p q v w : ℚ}

/-- The part of a number that is left by a rounding. -/
def kept : ℚ := 1 - 1 / 2 ^ 53

theorem kept_pos : 0 < kept := by norm_num [kept]

theorem kept_le_one : kept ≤ 1 := by norm_num [kept]

theorem kept_pow_pos (k : ℕ) : 0 < kept ^ k := pow_pos kept_pos k

/-- Positive numbers that differ by at most `k` roundings. -/
structure Within (k : ℕ) (v q : ℚ) : Prop where
  left_pos : 0 < v
  right_pos : 0 < q
  low : kept ^ k * q ≤ v
  high : kept ^ k * v ≤ q

theorem IsNearest.within (h : IsNearest q v) : Within 1 v q := by
  have hq : 0 < q := by
    obtain ⟨r, t, -, hlow, -, -⟩ := h
    exact lt_of_lt_of_le (by positivity) hlow
  obtain ⟨hbelow, habove⟩ := abs_le.1 h.abs_sub_le
  have hlow : kept * q ≤ v := by
    calc kept * q = q - q / 2 ^ 53 := by rw [kept]; ring
      _ ≤ v := by linarith
  have hhigh : kept * v ≤ q := by
    calc kept * v ≤ kept * (q + q / 2 ^ 53) := mul_le_mul_of_nonneg_left (by linarith) kept_pos.le
      _ = (1 - 1 / 2 ^ 106) * q := by rw [kept]; ring
      _ ≤ q := by linarith
  exact ⟨lt_of_lt_of_le (mul_pos kept_pos hq) hlow, hq, by rwa [pow_one], by rwa [pow_one]⟩

namespace Within

theorem refl (hq : 0 < q) : Within 0 q q := ⟨hq, hq, by simp, by simp⟩

theorem symm (h : Within k v q) : Within k q v := ⟨h.right_pos, h.left_pos, h.high, h.low⟩

theorem mono (h : Within j v q) (hjk : j ≤ k) : Within k v q := by
  have hpow : kept ^ k ≤ kept ^ j := pow_le_pow_of_le_one kept_pos.le kept_le_one hjk
  exact ⟨h.left_pos, h.right_pos, (mul_le_mul_of_nonneg_right hpow h.right_pos.le).trans h.low,
    (mul_le_mul_of_nonneg_right hpow h.left_pos.le).trans h.high⟩

theorem trans_low (h : Within j v q) (h' : Within k w v) : kept ^ (j + k) * q ≤ w := by
  calc kept ^ (j + k) * q = kept ^ k * (kept ^ j * q) := by rw [pow_add]; ring
    _ ≤ kept ^ k * v := mul_le_mul_of_nonneg_left h.low (kept_pow_pos k).le
    _ ≤ w := h'.low

theorem trans (h : Within j v q) (h' : Within k w v) : Within (j + k) w q :=
  ⟨h'.left_pos, h.right_pos, trans_low h h', by rw [add_comm]; exact trans_low h'.symm h.symm⟩

theorem mul (h : Within j v p) (h' : Within k w q) : Within (j + k) (v * w) (p * q) := by
  have hp := mul_pos (kept_pow_pos k) h'.right_pos
  have hv := mul_pos (kept_pow_pos k) h'.left_pos
  refine ⟨mul_pos h.left_pos h'.left_pos, mul_pos h.right_pos h'.right_pos, ?_, ?_⟩
  · calc kept ^ (j + k) * (p * q) = kept ^ j * p * (kept ^ k * q) := by rw [pow_add]; ring
      _ ≤ v * w := mul_le_mul h.low h'.low hp.le h.left_pos.le
  · calc kept ^ (j + k) * (v * w) = kept ^ j * v * (kept ^ k * w) := by rw [pow_add]; ring
      _ ≤ p * q := mul_le_mul h.high h'.high hv.le h.right_pos.le

theorem inv (h : Within k v q) : Within k v⁻¹ q⁻¹ := by
  have hv := h.left_pos
  have hq := h.right_pos
  refine ⟨inv_pos.2 hv, inv_pos.2 hq, ?_, ?_⟩
  · rw [← div_eq_mul_inv, div_le_iff₀ hq, inv_mul_eq_div, le_div_iff₀ hv]
    exact h.high
  · rw [← div_eq_mul_inv, div_le_iff₀ hv, inv_mul_eq_div, le_div_iff₀ hq]
    exact h.low

theorem div (h : Within j v p) (h' : Within k w q) : Within (j + k) (v / w) (p / q) := by
  rw [div_eq_mul_inv, div_eq_mul_inv]
  exact h.mul h'.inv

theorem add (h : Within k v p) (h' : Within k w q) : Within k (v + w) (p + q) := by
  refine ⟨add_pos h.left_pos h'.left_pos, add_pos h.right_pos h'.right_pos, ?_, ?_⟩
  · rw [mul_add]
    exact add_le_add h.low h'.low
  · rw [mul_add]
    exact add_le_add h.high h'.high

/-- Up to twenty roundings change a number by less than one part in `2 ^ 48`. -/
theorem abs_sub_lt (h : Within k v q) (hk : k ≤ 20) : |v - q| < q / 2 ^ 48 := by
  have hmono := h.mono hk
  have hq := h.right_pos
  have hkept : 1 - 20 / 2 ^ 53 ≤ kept ^ 20 := by norm_num [kept]
  have hlow : (1 - 20 / 2 ^ 53) * q ≤ v := (mul_le_mul_of_nonneg_right hkept hq.le).trans hmono.low
  have hhigh : (1 - 20 / 2 ^ 53) * v ≤ q :=
    (mul_le_mul_of_nonneg_right hkept h.left_pos.le).trans hmono.high
  rw [abs_lt]
  constructor <;> linarith

end Within

/-- The number is neither smaller nor larger than the decimals are. -/
def IsDecimalSize (q : ℚ) : Prop := 1 / 10 ^ 28 ≤ q ∧ q ≤ 2 ^ 96

theorem isDecimalSize_div {n u : ℕ} (hn : 0 < n) (hlimit : n ≤ 2 ^ 96) (hu : 0 < u)
    (hunit : u ≤ 10 ^ 28) : IsDecimalSize (n / u) := by
  have hnq : (1 : ℚ) ≤ n ∧ (n : ℚ) ≤ 2 ^ 96 := ⟨by exact_mod_cast hn, by exact_mod_cast hlimit⟩
  have huq : (1 : ℚ) ≤ u ∧ (u : ℚ) ≤ 10 ^ 28 := ⟨by exact_mod_cast hu, by exact_mod_cast hunit⟩
  have hpos : (0 : ℚ) < u := by linarith
  constructor
  · exact div_le_div₀ (by linarith) hnq.1 hpos huq.2
  · exact (div_le_self (by linarith) huq.1).trans hnq.2

theorem isDecimalSize_natCast {n : ℕ} (hn : 0 < n) (hlimit : n ≤ 2 ^ 96) : IsDecimalSize n := by
  have h := isDecimalSize_div hn hlimit one_pos (by norm_num)
  rwa [Nat.cast_one, div_one] at h

theorem Within.isModerate (h : Within k v q) (hk : k ≤ 20) (hq : IsDecimalSize q) :
    IsModerate v := by
  obtain ⟨hbelow, habove⟩ := abs_lt.1 (h.abs_sub_lt hk)
  obtain ⟨hlow, hhigh⟩ := hq
  constructor
  · calc (2 : ℚ) ^ (-200 : ℤ) ≤ 1 / 10 ^ 28 / 2 := by norm_num
      _ ≤ v := by linarith
  · calc v ≤ 2 * 2 ^ 96 := by linarith
      _ ≤ 2 ^ (200 : ℤ) := by norm_num

/-- The double differs from `q` by at most `k` roundings. -/
def Approximates (k : ℕ) (x : Float) (q : ℚ) : Prop := ∃ v, Denotes x v ∧ Within k v q

theorem Rounds.approximates (h : Rounds x v) (hv : Within k v q) : Approximates (k + 1) x q := by
  obtain ⟨w, hdenotes, hnearest⟩ := h
  exact ⟨w, hdenotes, hv.trans hnearest.within⟩

theorem rounds_ofNat_of_le {n : ℕ} (hn : 0 < n) (hlimit : n ≤ 2 ^ 96) :
    Rounds (Float.ofNat n) n := by
  have hwithin : Within 0 (n : ℚ) n := .refl (by exact_mod_cast hn)
  exact rounds_ofNat hn (hwithin.isModerate (by omega) (isDecimalSize_natCast hn hlimit))

theorem approximates_ofNat {n : ℕ} (hn : 0 < n) (hlimit : n ≤ 2 ^ 96) :
    Approximates 1 (Float.ofNat n) n := by
  have hwithin : Within 0 (n : ℚ) n := .refl (by exact_mod_cast hn)
  exact (rounds_ofNat_of_le hn hlimit).approximates hwithin

namespace Approximates

theorem mono (h : Approximates j x q) (hjk : j ≤ k) : Approximates k x q := by
  obtain ⟨v, hx, hv⟩ := h
  exact ⟨v, hx, hv.mono hjk⟩

theorem mul (hx : Approximates j x p) (hy : Approximates k y q) (hjk : j + k ≤ 20)
    (hsize : IsDecimalSize (p * q)) : Approximates (j + k + 1) (x * y) (p * q) := by
  obtain ⟨v, hx, hv⟩ := hx
  obtain ⟨w, hy, hw⟩ := hy
  exact (hx.mul hy ((hv.mul hw).isModerate hjk hsize)).approximates (hv.mul hw)

theorem div (hx : Approximates j x p) (hy : Approximates k y q) (hjk : j + k ≤ 20)
    (hsize : IsDecimalSize (p / q)) : Approximates (j + k + 1) (x / y) (p / q) := by
  obtain ⟨v, hx, hv⟩ := hx
  obtain ⟨w, hy, hw⟩ := hy
  exact (hx.div hy ((hv.div hw).isModerate hjk hsize)).approximates (hv.div hw)

theorem add (hx : Approximates k x p) (hy : Approximates k y q) (hk : k ≤ 20)
    (hsize : IsDecimalSize (p + q)) : Approximates (k + 1) (x + y) (p + q) := by
  obtain ⟨v, hx, hv⟩ := hx
  obtain ⟨w, hy, hw⟩ := hy
  exact (hx.add hy ((hv.add hw).isModerate hk hsize)).approximates (hv.add hw)

/-- Adding to a zero changes nothing. -/
theorem zero_add (h : Approximates k x q) : Approximates k (Float.ofNat 0 + x) q := by
  obtain ⟨v, ⟨m, e, hx, rfl⟩, hv⟩ := h
  have hsum : Float.ofNat 0 + x = .ofModel (.pack (.finite .positive m e hx.pos)) := by
    change Float.ofModel (.pack (.add .binary64 (.zero .positive) x.toModel.unpack)) = _
    rw [hx.unpack]
    rfl
  rw [hsum]
  exact ⟨_, ⟨m, e, hasDigits_pack hx.low hx.high hx.least hx.greatest hx.pos, rfl⟩, hv⟩

/-- A double near an integer is rounded to that integer, or to one near it when the integer has too
many digits. -/
theorem roundAway {m : ℕ} (h : Approximates 6 x m) (hlimit : m ≤ 2 ^ 96) :
    Approximates 16 (roundAway x) m := by
  obtain ⟨v, hx, hv⟩ := h
  have hm : (1 : ℚ) ≤ m := by exact_mod_cast (Nat.cast_pos.1 hv.right_pos : 0 < m)
  have hm' : (m : ℚ) ≤ 2 ^ 96 := by exact_mod_cast hlimit
  have hsix : 1 - 6 / 2 ^ 53 ≤ kept ^ 6 := by norm_num [kept]
  have hlow : (1 - 6 / 2 ^ 53) * (m : ℚ) ≤ v :=
    (mul_le_mul_of_nonneg_right hsix hv.right_pos.le).trans hv.low
  have hhigh : v ≤ (1 + 7 / 2 ^ 53) * m := by
    have := (mul_le_mul_of_nonneg_right hsix hv.left_pos.le).trans hv.high
    linarith
  obtain ⟨n, hn, herror⟩ := hx.roundAway (by linarith) (by linarith)
  obtain ⟨hbelow, habove⟩ := abs_le.1 herror
  refine ⟨n, hn, ?_⟩
  obtain hsmall | hlarge := lt_or_ge m (2 ^ 49)
  · -- the error before rounding is below a half
    have hsmall' : (m : ℚ) < 2 ^ 49 := by exact_mod_cast hsmall
    have hclose : |(n : ℚ) - m| < 1 := by
      rw [abs_lt]
      constructor <;> linarith
    rw [← eq_of_abs_sub_lt_one hclose]
    exact (Within.refl hn.pos).mono (by omega)
  · -- a half is one more part in `2 ^ 50`
    have hlarge' : (2 : ℚ) ^ 49 ≤ m := by exact_mod_cast hlarge
    have hsixteen : kept ^ 16 ≤ 1 - 15 / 2 ^ 53 := by norm_num [kept]
    refine ⟨hn.pos, hv.right_pos, ?_, ?_⟩
    · exact (mul_le_mul_of_nonneg_right hsixteen hv.right_pos.le).trans (by linarith)
    · exact (mul_le_mul_of_nonneg_right hsixteen hn.pos.le).trans (by linarith)

end Approximates

theorem approximates_scaled {m u : ℕ} (hr : 0 < m % u) (hlimit : m ≤ 2 ^ 96) (hu : 0 < u)
    (hunit : u ≤ 10 ^ 28) :
    Approximates 18 (roundAway ((Float.ofNat (m / u) + Float.ofNat (m % u) / Float.ofNat u) *
      Float.ofNat u) / Float.ofNat u) (m / u) := by
  have hm : 0 < m := Nat.pos_of_ne_zero fun h => by simp [h] at hr
  have hu' : u ≤ 2 ^ 96 := hunit.trans (by norm_num)
  have hr' : m % u ≤ 2 ^ 96 := (Nat.mod_le m u).trans hlimit
  have huq : (u : ℚ) ≠ 0 := by exact_mod_cast hu.ne'
  have hunits := approximates_ofNat hu hu'
  have hfraction : Approximates 3 (Float.ofNat (m % u) / Float.ofNat u) ((m % u : ℕ) / u) :=
    (approximates_ofNat hr hr').div hunits (by omega) (isDecimalSize_div hr hr' hu hunit)
  have hsum : Approximates 4 (Float.ofNat (m / u) + Float.ofNat (m % u) / Float.ofNat u)
      (m / u) := by
    have hsize := isDecimalSize_div hm hlimit hu hunit
    rw [natCast_div_eq m hu] at hsize ⊢
    obtain hzero | hpos := (m / u).eq_zero_or_pos
    · rw [hzero, Nat.cast_zero, zero_add]
      exact hfraction.zero_add.mono (by omega)
    · have hwhole := approximates_ofNat hpos ((Nat.div_le_self m u).trans hlimit)
      exact (hwhole.mono (by omega)).add hfraction (by omega) hsize
  have hproduct : Approximates 6 ((Float.ofNat (m / u) + Float.ofNat (m % u) / Float.ofNat u) *
      Float.ofNat u) m := by
    have hvalue : (m : ℚ) = m / u * u := by rw [div_mul_cancel₀ _ huq]
    have hsize := isDecimalSize_natCast hm hlimit
    rw [hvalue] at hsize ⊢
    exact hsum.mul hunits (by omega) hsize
  exact (hproduct.roundAway hlimit).div hunits (by omega) (isDecimalSize_div hm hlimit hu hunit)

theorem Denotes.toInt?_signed (h : Denotes x v) (negative : Bool) :
    Number.toInt? (if negative then -x else x) = some (if negative then -⌊v⌋ else ⌊v⌋) := by
  cases negative with
  | false => exact h.toInt?
  | true => exact h.toInt?_neg

/-- The double for a whole number of at most 53 bits is exact. -/
theorem IsNearest.eq_natCast {n : ℕ} (h : IsNearest n v) (hn : n ≤ 2 ^ 53) : v = n := by
  obtain hlt | rfl := hn.lt_or_eq
  · exact h.exact (k := 0) hlt (by rw [zpow_zero, mul_one])
  · exact h.exact (n := 1) (k := 53) (by norm_num) (by norm_num)

/-- The double for a whole number is close to it, and exact when there are at most 53 bits. -/
theorem toInt?_ofNat {n : ℕ} (hlimit : n ≤ 2 ^ 96) (negative : Bool) :
    ∃ v : ℚ, Number.toInt? (if negative then -Float.ofNat n else Float.ofNat n) =
        some (if negative then -⌊v⌋ else ⌊v⌋) ∧
      (v = n ∨ |v - n| < n / 2 ^ 48) ∧ (n ≤ 2 ^ 53 → v = n) := by
  obtain rfl | hn := n.eq_zero_or_pos
  · have hzero : Number.toInt? (Float.ofNat 0) = some 0 ∧
        Number.toInt? (-Float.ofNat 0) = some 0 := by
      decide +kernel
    refine ⟨0, ?_, .inl (by simp), fun _ => by simp⟩
    cases negative <;> simp [hzero]
  · obtain ⟨v, hv, hnearest⟩ := rounds_ofNat_of_le hn hlimit
    exact ⟨v, hv.toInt?_signed negative, .inr (hnearest.within.abs_sub_lt (by omega)),
      hnearest.eq_natCast⟩

/-- So is the double for an integer, which has the sign of its number unless that is zero. -/
theorem toInt?_ofInt {n : ℕ} (hlimit : n ≤ 2 ^ 96) (negative : Bool) :
    ∃ v : ℚ, Number.toInt? (Float.ofInt (if negative then -(n : ℤ) else n)) =
        some (if negative then -⌊v⌋ else ⌊v⌋) ∧
      (v = n ∨ |v - n| < n / 2 ^ 48) ∧ (n ≤ 2 ^ 53 → v = n) := by
  cases negative with
  | false => exact toInt?_ofNat hlimit false
  | true =>
    cases n with
    | succ k => exact toInt?_ofNat hlimit true
    | zero =>
      obtain ⟨v, htoInt, hclose, hexact⟩ := toInt?_ofNat hlimit false
      obtain rfl : v = 0 := by exact_mod_cast hexact (by omega)
      refine ⟨0, htoInt.trans ?_, hclose, hexact⟩
      simp

end Number

namespace Decimal

open Number

/-- The number that a decimal denotes, without its sign. -/
def magnitude (d : Decimal) : ℚ := d.mantissa / (10 ^ d.scale : ℕ)

/-- The double for a decimal is close to it, and it is exact for whole numbers of at most 53
bits. -/
theorem toInt?_toFloat (d : Decimal) :
    ∃ v : ℚ, Number.toInt? d.toFloat = some (if d.negative then -⌊v⌋ else ⌊v⌋) ∧
      (v = d.magnitude ∨ |v - d.magnitude| < d.magnitude / 2 ^ 48) ∧
      (d.mantissa % 10 ^ d.scale = 0 → d.mantissa / 10 ^ d.scale ≤ 2 ^ 53 → v = d.magnitude) := by
  have hlimit : d.mantissa ≤ 2 ^ 96 := d.mantissa_lt.le
  have hu : 0 < 10 ^ d.scale := Nat.pow_pos (by decide)
  have hunit : 10 ^ d.scale ≤ 10 ^ 28 := Nat.pow_le_pow_right (by decide) d.scale_le
  have hscale : Nat.pow 10 d.scale = 10 ^ d.scale := rfl
  unfold toFloat magnitude
  rw [hscale]
  split
  · next hzero =>
    simp only [hzero, pow_zero, Nat.cast_one, div_one, Nat.div_one]
    obtain ⟨v, htoInt, hclose, hexact⟩ := toInt?_ofInt hlimit d.negative
    exact ⟨v, htoInt, hclose, fun _ => hexact⟩
  generalize d.mantissa = m at *
  generalize 10 ^ d.scale = u at *
  obtain hzero | hr := (m % u).eq_zero_or_pos
  · simp only [hzero, if_true]
    obtain ⟨v, htoInt, hclose, hexact⟩ :=
      toInt?_ofNat ((Nat.div_le_self m u).trans hlimit) d.negative
    rw [natCast_div_eq m hu, hzero, Nat.cast_zero, zero_div, add_zero]
    exact ⟨v, htoInt, hclose, fun _ => hexact⟩
  · simp only [hr.ne', if_false]
    obtain ⟨v, hv, hwithin⟩ := approximates_scaled hr hlimit hu hunit
    exact ⟨v, hv.toInt?_signed d.negative, .inr (hwithin.abs_sub_lt (by omega)), False.elim⟩

end Decimal

end ServiceQuery
