import Dataflow.Error
import Dataflow.Word

/-!
# Axes

An axis of a tensor is a number below the rank, or a negative number that counts from the end.

## Main definitions

* `normalizeAxis` : the axis counted from the front.
* `Shape.dim` : reading a dimension that has to exist.
* `Shape.permuted` : the shape with its dimensions listed in another order.
-/

namespace Dataflow

/-- The axis counted from the front.  The rank is read as a signed word. -/
def normalizeAxis (axis : Int) (rank : Nat) : Except Error Nat :=
  let r := Word.signed rank
  let a := if axis < 0 then axis + r else axis
  if a < 0 ∨ r ≤ a then .error (.invalidAxis axis rank) else .ok a.toNat

namespace Shape

/-- The dimension at `axis`, which has to exist. -/
def dim (s : Shape) (axis : Nat) : Except Error Dim :=
  match s.dim? axis with
  | some d => .ok d
  | none => .error .outOfRange

/-- The shape whose dimension number `i` is dimension number `order[i]` of `s`. -/
def permuted (s : Shape) (order : List Nat) : Except Error Shape :=
  if order.length = s.rank then do
    let dims ← order.mapM fun i =>
      match s.dim? i with
      | some d => .ok d
      | none => .error (.invalidAxis (Word.signed i) s.rank)
    return ⟨dims⟩
  else .error (.shapeMismatch (.permutation order s.rank))

end Shape

end Dataflow
