import Dataflow.Shape.Axis

/-!
# Reshape targets

A reshape target lists one integer per new axis.  A positive entry is a length, zero copies the
dimension of the input at the same position, and at most one entry `-1` asks for the length that
keeps the number of elements.

## Main definitions

* `Shape.reshapeDims` : the dimensions of a target, the inferred one still unknown.
* `Shape.knownCount` : the number of elements, when every length is known.
* `Shape.reshape` : the shape after reshaping.
-/

namespace Dataflow

namespace Shape

/-- The dimensions that the entries of a target ask for, starting at position `i`, and the
position of the entry to infer, if there is one.  `inferred` tells whether such an entry has been
met before. -/
def reshapeDims (input : Shape) (target : List Int) :
    (i : Nat) → (inferred : Bool) → List Int → Except Error (List Dim × Option Nat)
  | _, _, [] => .ok ([], none)
  | i, inferred, t :: rest => do
    if t = 0 then
      match input.dim? i with
      | none => throw (.invalidAxis (Word.signed i) input.rank)
      | some d =>
        let (dims, at?) ← reshapeDims input target (i + 1) inferred rest
        return (d :: dims, at?)
    else if t = -1 ∧ inferred = false then
      let (dims, _) ← reshapeDims input target (i + 1) true rest
      return (.unknown :: dims, some i)
    else if 0 < t then
      let (dims, at?) ← reshapeDims input target (i + 1) inferred rest
      return (.known t.toNat :: dims, at?)
    else throw (.shapeMismatch (.reshapeTarget target))

/-- The number of elements of a shape as a word, when every length is known. -/
def knownCount (dims : List Dim) : Option Nat :=
  (dims.mapM Dim.length?).map wordCount

/-- The shape after reshaping to `target`. -/
def reshape (input : Shape) (target : List Int) : Except Error Shape := do
  let (dims, at?) ← reshapeDims input target 0 false target
  match at? with
  | none => return ⟨dims⟩
  | some i =>
    match knownCount input.dims, knownCount (dims.eraseIdx i) with
    | some total, some known =>
      if known = 0 ∨ total % known ≠ 0 then throw (.shapeMismatch (.reshape input target))
      else return ⟨dims.set i (.known (total / known))⟩
    | _, _ => return ⟨dims⟩

end Shape

end Dataflow
