/-!
# Binary32 numbers

A single-precision number is held as its thirty-two bits: a sign, an exponent of eight bits and a
fraction of twenty-three bits.  A finite number is `± significand * 2 ^ scale`; everything below
is computed from these two integers, so no rounding takes place outside `Single.ofInt`.

## Main definitions

* `Single.significand`, `Single.scale` : the magnitude of a finite number.
* `Single.equals` : equality of numbers, which no NaN satisfies and both zeros share.
* `Single.isIntegral`, `Single.toInt64` : the whole numbers, and their value as a signed word.
* `Single.ofInt` : the nearest single-precision number to an integer.
-/

namespace Dataflow

/-- A single-precision number, given by its bits. -/
structure Single where
  bits : UInt32
deriving DecidableEq

namespace Single

/-- The sign bit. -/
def isNegative (x : Single) : Bool :=
  decide (1 <<< 31 ≤ x.bits.toNat)

/-- The biased exponent. -/
def exponent (x : Single) : Nat :=
  x.bits.toNat >>> 23 % 1 <<< 8

/-- The bits after the exponent. -/
def fraction (x : Single) : Nat :=
  x.bits.toNat % 1 <<< 23

/-- Infinities and NaNs have the largest exponent; every other number is finite. -/
def isFinite (x : Single) : Bool :=
  x.exponent != 255

def isNaN (x : Single) : Bool :=
  x.exponent == 255 && x.fraction != 0

def isZero (x : Single) : Bool :=
  x.exponent == 0 && x.fraction == 0

/-- The integer significand: subnormal numbers lack the leading bit. -/
def significand (x : Single) : Nat :=
  if x.exponent = 0 then x.fraction else 1 <<< 23 + x.fraction

/-- The power of two that the significand is multiplied by. -/
def scale (x : Single) : Int :=
  (max x.exponent 1 : Nat) - 150

/-- Equality of numbers: a NaN equals nothing and the two zeros are equal. -/
def equals (x y : Single) : Bool :=
  !x.isNaN && !y.isNaN && (x == y || (x.isZero && y.isZero))

/-- Whether the number is finite and has no fractional part. -/
def isIntegral (x : Single) : Bool :=
  x.isFinite && decide (x.significand % 1 <<< (-x.scale).toNat = 0)

/-- The magnitude of a finite number, without its fractional part. -/
def magnitude (x : Single) : Nat :=
  x.significand <<< x.scale.toNat >>> (-x.scale).toNat

/-- The number without its fractional part, held to the range of a signed word. -/
def toInt64 (x : Single) : Int :=
  if x.isNegative then max (-0x8000_0000_0000_0000) (-(x.magnitude : Int))
  else min 0x7fff_ffff_ffff_ffff x.magnitude

/-- The quotient of `n` by `2 ^ k`, rounded to the nearest integer, a half to the even one. -/
def roundShift (n k : Nat) : Nat :=
  let q := n >>> k
  let r := n % 1 <<< k
  if 1 <<< k < 2 * r ∨ (2 * r = 1 <<< k ∧ q % 2 = 1) then q + 1 else q

/-- The nearest number to the natural number `n`, for `n` below `2 ^ 127`.  A carry out of the
significand moves into the exponent, because the two fields are adjacent. -/
def ofNat (n : Nat) : Single :=
  if n = 0 then ⟨0⟩
  else
    let e := n.log2
    let m := if e ≤ 23 then n <<< (23 - e) else roundShift n (e - 23)
    ⟨UInt32.ofNat ((e + 126) <<< 23 + m)⟩

/-- The nearest number to the integer `n`, a tie going to the even significand. -/
def ofInt (n : Int) : Single :=
  let x := ofNat n.natAbs
  if n < 0 then ⟨x.bits ||| 0x80000000⟩ else x

end Single

end Dataflow
