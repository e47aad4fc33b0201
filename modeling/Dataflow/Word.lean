/-!
# Sixty-four bit words

Axes are signed words and sizes are unsigned words.  A word of one kind that is stored as the
other keeps its bits, so it may stand for a different number.  Sums and products of sizes keep their
low bits only.

## Main definitions

* `Word.signed` : the signed word with the bits of an unsigned one.
* `Word.unsigned` : the unsigned word with the bits of a signed one.
* `Word.wrap` : the unsigned word with the low bits of a sum or a product.
* `Word.maxInts`, `Word.maxLayouts` : the lengths that lists in memory do not exceed.
-/

namespace Dataflow

namespace Word

/-- The signed word with the low sixty-four bits of `n`: sizes from `2 ^ 63` on are negative. -/
def signed (n : Nat) : Int :=
  Int.bmod n 0x1_0000_0000_0000_0000

/-- The unsigned word with the low sixty-four bits of `n`: negative numbers count down from
`2 ^ 64`. -/
def unsigned (n : Int) : Nat :=
  (n % 0x1_0000_0000_0000_0000).toNat

/-- The unsigned word with the low sixty-four bits of `n`: a sum or a product of sizes that reaches
`2 ^ 64` starts again from zero. -/
def wrap (n : Nat) : Nat :=
  n % 0x1_0000_0000_0000_0000

/-- The number of signed words that a list in memory has room for, `2 ^ 60 - 1`: they take eight
bytes each, and all of them less than `2 ^ 63`. -/
def maxInts : Nat :=
  0xfff_ffff_ffff_ffff

/-- The number of layouts that a list in memory has room for, `2 ^ 56`: such a list grows by powers
of two, and `2 ^ 57` layouts, of more than eight words each, would take more than `2 ^ 63` bytes. -/
def maxLayouts : Nat :=
  0x100_0000_0000_0000

/-- A size below `2 ^ 63` keeps its value as a signed word. -/
theorem signed_of_lt {n : Nat} (h : n < 0x8000_0000_0000_0000) : signed n = n := by
  unfold signed
  rw [Int.bmod_def]
  split <;> omega

/-- A sum or a product below `2 ^ 64` is exact. -/
theorem wrap_of_lt {n : Nat} (h : n < 0x1_0000_0000_0000_0000) : wrap n = n :=
  Nat.mod_eq_of_lt h

end Word

end Dataflow
