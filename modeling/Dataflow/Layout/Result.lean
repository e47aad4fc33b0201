import Dataflow.Layout
import Dataflow.Shape.Reshape

/-!
# Layouts of results

The layout that each shape-changing operation declares for its result, given the layout of its
operand.  Results keep the element type and take the planar format.

## Main definitions

* `Layout.unsqueeze`, `Layout.squeeze`, `Layout.transpose`, `Layout.reshape` : one result.
* `Layout.concat` : the result of laying values end to end.
* `Layout.part` : one of the equal parts that a value is split into.
-/

namespace Dataflow

namespace Layout

/-- The layout with a dimension of length one before the dimension at `axis`. -/
def unsqueeze (l : Layout) (axis : Nat) : Except Error Layout :=
  if axis ≤ l.shape.rank then
    .ok (.planar (l.shape.insertAxis axis (.known 1)) l.elementType)
  else .error (.invalidAxis (Word.signed axis) l.shape.rank)

/-- The layout without the dimension at `axis`, which must not be known to differ from one. -/
def squeeze (l : Layout) (axis : Nat) : Except Error Layout :=
  match l.shape.dim? axis with
  | some (.known 1) | some .unknown => .ok (.planar (l.shape.dropAxis axis) l.elementType)
  | _ => .error (.shapeMismatch (.squeeze axis l.shape))

/-- The layout with its dimensions in another order. -/
def transpose (l : Layout) (order : List Nat) : Except Error Layout := do
  return .planar (← l.shape.permuted order) l.elementType

/-- The layout after reshaping to a target. -/
def reshape (l : Layout) (target : List Int) : Except Error Layout := do
  return .planar (← l.shape.reshape target) l.elementType

/-- The dimension of the result of a concatenation along `axis`, from the sum `d` of the dimensions
before the layouts in the list.  All layouts have the rank and the element type of the first. -/
def concatDim (first : Layout) (axis : Nat) (d : Dim) (l : Layout) : Except Error Dim :=
  if l.shape.rank = first.shape.rank ∧ l.elementType = first.elementType then
    .ok (d.add ((l.shape.dim? axis).getD .unknown))
  else .error (.shapeMismatch (.concat first.shape l.shape))

/-- One of the equal parts that the layout is split into along `axis`.  A dimension that is not
known may turn out to divide into any number of parts. -/
def part (l : Layout) (axis parts : Nat) : Except Error Layout :=
  match l.shape.dim? axis with
  | some (.known d) =>
    if 0 < parts ∧ d % parts = 0 then
      .ok (.planar (l.shape.setDim axis (.known (d / parts))) l.elementType)
    else .error (.shapeMismatch (.split axis l.shape parts))
  | some .unknown => .ok (.planar l.shape l.elementType)
  | none => .error (.shapeMismatch (.split axis l.shape parts))

end Layout

end Dataflow
