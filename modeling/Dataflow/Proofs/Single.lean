import Dataflow.Single
import Dataflow.Word
import Mathlib.Algebra.Field.Basic
import Mathlib.Algebra.Order.Field.Rat
import Mathlib.Tactic.FieldSimp
import Mathlib.Tactic.NormNum
import Mathlib.Tactic.Ring

/-!
# The number that thirty-two bits stand for

A single-precision number is computed with by its significand and its scale.  Here it is given a
value, straight from the format of its bits, and the whole numbers are found among the values.  A whole
number may be larger than any signed word; it is read as the signed word nearest to it.

## Main definitions

* `Word.IsSigned`, `Word.clamp` : the integers that signed words hold, and the nearest one of them.
* `Single.value?` : the value of the bits, by the format.
* `Single.integer` : the number without its fractional part, however large it is.

## Main statements

* `Single.value?_of_isFinite` : the value in terms of significand and scale.
* `Single.toInt64_eq` : how a number is made a signed word.
* `Single.value?_of_isIntegral`, `Single.isIntegral_of_value?` : the whole numbers.
-/

namespace Dataflow

/-! ### Signed words -/

namespace Word

/-- The integers that signed words hold. -/
def IsSigned (n : Int) : Prop :=
  -0x8000_0000_0000_0000 ≤ n ∧ n < 0x8000_0000_0000_0000

/-- The signed word nearest to an integer. -/
def clamp (n : Int) : Int :=
  max (-0x8000_0000_0000_0000) (min 0x7fff_ffff_ffff_ffff n)

theorem clamp_eq_self_iff {n : Int} : clamp n = n ↔ IsSigned n := by
  unfold clamp IsSigned
  omega

end Word

namespace Single

variable {x : Single}

/-! ### Values -/

/-- The number that the bits stand for, unless they stand for an infinity or a NaN.  After the sign bit
come eight bits for the exponent, biased by 127, and then the fraction.  The digit before the fraction
is one; it is zero in the subnormal numbers, which have the exponent of the smallest other ones. -/
def value? (x : Single) : Option Rat :=
  let sign : Rat := (-1) ^ (x.bits.toNat / 2 ^ 31)
  let exponent : Nat := x.bits.toNat / 2 ^ 23 % 2 ^ 8
  let fraction : Rat := (x.bits.toNat % 2 ^ 23 : Nat) / 2 ^ 23
  if exponent = 255 then none
  else if exponent = 0 then some (sign * fraction * (2 : Rat) ^ (-126 : Int))
  else some (sign * (1 + fraction) * (2 : Rat) ^ ((exponent : Int) - 127))

/-- The sign of the number. -/
def sign (x : Single) : Int :=
  if x.isNegative then -1 else 1

theorem sign_mul_sign (x : Single) : x.sign * x.sign = 1 := by
  unfold sign
  split <;> rfl

theorem isNegative_iff : x.isNegative = true ↔ x.bits.toNat / 2 ^ 31 = 1 := by
  have hlt := x.bits.toNat_lt
  rw [isNegative, decide_eq_true_iff, Nat.shiftLeft_eq]
  omega

theorem sign_eq (x : Single) : (x.sign : Rat) = (-1) ^ (x.bits.toNat / 2 ^ 31) := by
  unfold sign
  split
  · next h =>
    rw [isNegative_iff.1 h]
    norm_num
  · next h =>
    have hlt := x.bits.toNat_lt
    have hzero : x.bits.toNat / 2 ^ 31 = 0 := by
      rw [isNegative_iff] at h
      omega
    rw [hzero]
    norm_num

theorem exponent_eq (x : Single) : x.exponent = x.bits.toNat / 2 ^ 23 % 2 ^ 8 := by
  rw [exponent, Nat.shiftRight_eq_div_pow, Nat.shiftLeft_eq, Nat.one_mul]

theorem fraction_eq (x : Single) : x.fraction = x.bits.toNat % 2 ^ 23 := by
  rw [fraction, Nat.shiftLeft_eq, Nat.one_mul]

/-- Infinities and NaNs have no value. -/
theorem value?_eq_none (h : x.isFinite = false) : x.value? = none := by
  have h255 : x.bits.toNat / 2 ^ 23 % 2 ^ 8 = 255 := by
    rw [← exponent_eq]
    simpa [isFinite] using h
  exact if_pos h255

/-- The value of a finite number is its significand, moved by its scale. -/
theorem value?_of_isFinite (h : x.isFinite = true) :
    x.value? = some (x.sign * (x.significand * (2 : Rat) ^ x.scale)) := by
  have h255 : ¬ x.exponent = 255 := by simpa [isFinite] using h
  rw [value?, ← exponent_eq, ← fraction_eq, ← sign_eq, if_neg h255, significand, scale]
  split
  · next hzero =>
    rw [hzero]
    norm_num
    ring
  · next hne =>
    -- The significand counts the last places of the fraction, of which there are twenty-three.
    have hscale : ((max x.exponent 1 : Nat) : Int) - 150 = (x.exponent : Int) - 127 - 23 := by omega
    rw [hscale, zpow_sub₀ two_ne_zero _ 23, Nat.shiftLeft_eq]
    push_cast
    field_simp
    norm_num
    ring

/-! ### Whole numbers -/

/-- The number without its fractional part. -/
def integer (x : Single) : Int :=
  x.sign * x.magnitude

theorem toInt64_eq (x : Single) : x.toInt64 = Word.clamp x.integer := by
  unfold toInt64 integer sign Word.clamp
  split <;> omega

theorem isIntegral_iff :
    x.isIntegral = true ↔ x.isFinite = true ∧ 2 ^ (-x.scale).toNat ∣ x.significand := by
  rw [isIntegral, Bool.and_eq_true, decide_eq_true_iff, Nat.shiftLeft_eq, Nat.one_mul,
    ← Nat.dvd_iff_mod_eq_zero]

private theorem two_zpow_eq (s : Int) : (2 : Rat) ^ s = 2 ^ s.toNat / 2 ^ (-s).toNat := by
  have hs : s = (s.toNat : Int) - ((-s).toNat : Int) := by omega
  calc (2 : Rat) ^ s = 2 ^ ((s.toNat : Int) - ((-s).toNat : Int)) := by rw [← hs]
    _ = 2 ^ s.toNat / 2 ^ (-s).toNat := by
      rw [zpow_sub₀ two_ne_zero, zpow_natCast, zpow_natCast]

theorem value?_of_isIntegral (h : x.isIntegral = true) : x.value? = some (x.integer : Rat) := by
  obtain ⟨hfinite, k, hk⟩ := isIntegral_iff.1 h
  have hmagnitude : x.magnitude = k * 2 ^ x.scale.toNat := by
    rw [magnitude, Nat.shiftRight_eq_div_pow, Nat.shiftLeft_eq, hk, Nat.mul_assoc]
    exact Nat.mul_div_cancel_left _ (Nat.two_pow_pos _)
  rw [value?_of_isFinite hfinite, integer, hmagnitude, hk, two_zpow_eq]
  push_cast
  field_simp

theorem isIntegral_of_value? {n : Int} (h : x.value? = some (n : Rat)) : x.isIntegral = true := by
  have hfinite : x.isFinite = true := by
    by_contra hnot
    rw [value?_eq_none (Bool.not_eq_true _ ▸ hnot)] at h
    simp at h
  have hmul : (x.significand * 2 ^ x.scale.toNat : Int) = 2 ^ (-x.scale).toNat * (x.sign * n) := by
    have hvalue : x.sign * (x.significand * (2 : Rat) ^ x.scale) = n :=
      Option.some.inj ((value?_of_isFinite hfinite).symm.trans h)
    have hsign : (x.sign : Rat) * x.sign = 1 := mod_cast x.sign_mul_sign
    rw [two_zpow_eq] at hvalue
    rw [← Int.cast_inj (α := Rat)]
    push_cast
    rw [← hvalue, ← mul_assoc (x.sign : Rat), hsign]
    field_simp
  refine isIntegral_iff.2 ⟨hfinite, ?_⟩
  -- One of the two powers is one, so that the other one is on the right side of the equation or on
  -- neither.
  obtain hscale | hscale := Int.le_total 0 x.scale
  · rw [Int.toNat_of_nonpos (Int.neg_nonpos_of_nonneg hscale), pow_zero]
    exact one_dvd _
  · rw [Int.toNat_of_nonpos hscale, pow_zero, mul_one] at hmul
    exact Int.natCast_dvd_natCast.1 ⟨x.sign * n, by rw [hmul]; push_cast; rfl⟩

end Single

end Dataflow
