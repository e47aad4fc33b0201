import Dataflow.Single

/-!
# The shortest decimal text of a binary32 number

Every decimal in a certain interval around a finite number reads back as that number.  The text of
the number is the point of that interval with the fewest digits, which is found on the coarsest
grid of multiples of a power of ten that meets the interval.  Of two such points the nearer one is
taken, the larger one when both are equally near.  The text is positional: it has no exponent.

## Main definitions

* `Single.onGrid` : the decimal that a grid contributes, if the grid meets the interval.
* `Single.shortest` : the shortest decimal that reads back.
* `Single.text` : the positional text.
-/

namespace Dataflow

namespace Single

/-- The multiple of `10 ^ k` that stands for `x`, as its quotient by `10 ^ k`, if one lies in the
interval of decimals that read back as `x`.  The interval reaches half a unit in the last place to
each side, a quarter below a power of two, and contains its ends when the significand is even. -/
def onGrid (x : Single) (k : Int) : Option Nat :=
  let m := x.significand
  -- Lengths are counted in quarters of the last place and multiplied by a common denominator.
  let q := x.scale - 2
  let length (n : Nat) : Nat := n <<< q.toNat * Nat.pow 10 (-k).toNat
  let step := 1 <<< (-q).toNat * Nat.pow 10 k.toNat
  let below := if m = 1 <<< 23 ∧ 1 < x.exponent then 1 else 2
  let low := length (4 * m - below)
  let high := length (4 * m + 2)
  let inside (c : Nat) : Bool :=
    if m % 2 = 0 then decide (low ≤ c * step ∧ c * step ≤ high)
    else decide (low < c * step ∧ c * step < high)
  let c := length (4 * m) / step
  match inside c, inside (c + 1) with
  | true, true => some (if 2 * (length (4 * m) % step) < step then c else c + 1)
  | true, false => some c
  | false, true => some (c + 1)
  | false, false => none

/-- The shortest decimal `c * 10 ^ k` that reads back as the finite nonzero number `x`.  The
largest finite number is below `10 ^ 39` and the smallest one is above `10 ^ (-46)`. -/
def shortest (x : Single) : Nat × Int :=
  let grids : List Int := (List.range 86).map fun i : Nat => 39 - (i : Int)
  (grids.findSome? fun k => (x.onGrid k).map (·, k)).getD (0, 0)

/-- The positional text of `c * 10 ^ k`. -/
def positional (c : Nat) (k : Int) : String :=
  let digits := (Nat.repr c).toList
  if 0 ≤ k then String.ofList (digits ++ List.replicate k.toNat '0')
  else
    let places := (-k).toNat
    let padded := List.replicate (places + 1 - digits.length) '0' ++ digits
    let whole := padded.length - places
    String.ofList (padded.take whole ++ '.' :: padded.drop whole)

/-- The shortest positional text that reads back as `x`. -/
def text (x : Single) : String :=
  let sign := if x.isNegative then "-" else ""
  if x.isNaN then "NaN"
  else if !x.isFinite then sign ++ "inf"
  else if x.isZero then sign ++ "0"
  else
    let (c, k) := x.shortest
    sign ++ positional c k

end Single

end Dataflow
