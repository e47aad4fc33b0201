import Dataflow.Tensor

/-!
# Tensors laid end to end

The concatenation of tensors along an axis has the shape of each of them off the axis, and the sum
of their lengths on it.  In row-major order the axes before the chosen one count *rows*; within
every row the elements of each part form one block, and the blocks of the parts follow each other.

## Main definitions

* `interleave` : the rows of the result, from the blocks of the parts.
* `Tensor.offAxis` : the lengths that parts have to share.
* `Tensor.concat` : the concatenation.
-/

namespace Dataflow

/-- The first `rows` rows of a concatenation.  Each part gives the length of its blocks and its
elements; a row takes one block of every part. -/
def interleave {α : Type} : (rows : Nat) → (parts : List (Nat × List α)) → List α
  | 0, _ => []
  | rows + 1, parts =>
    parts.flatMap (fun p => p.2.take p.1) ++
      interleave rows (parts.map fun p => (p.1, p.2.drop p.1))

theorem length_flatMap_take {α : Type} (parts : List (Nat × List α))
    (h : ∀ p ∈ parts, p.1 ≤ p.2.length) :
    (parts.flatMap fun p => p.2.take p.1).length = (parts.map (·.1)).foldr (· + ·) 0 := by
  induction parts with
  | nil => rfl
  | cons p parts ih =>
    have hp := h p List.mem_cons_self
    rw [List.flatMap_cons, List.length_append, ih fun q hq => h q (List.mem_cons_of_mem _ hq)]
    simp [Nat.min_eq_left hp]

/-- Every block of every part is used once. -/
theorem length_interleave {α : Type} (rows : Nat) (parts : List (Nat × List α))
    (h : ∀ p ∈ parts, p.2.length = rows * p.1) :
    (interleave rows parts).length = rows * (parts.map (·.1)).foldr (· + ·) 0 := by
  induction rows generalizing parts with
  | zero => simp [interleave]
  | succ rows ih =>
    have hlen : ∀ p ∈ parts, p.1 ≤ p.2.length := fun p hp => by
      rw [h p hp, Nat.succ_mul]; exact Nat.le_add_left _ _
    have hrest : ∀ q ∈ parts.map (fun p => (p.1, p.2.drop p.1)), q.2.length = rows * q.1 := by
      intro q hq
      obtain ⟨p, hp, rfl⟩ := List.mem_map.1 hq
      simp only [List.length_drop, h p hp, Nat.succ_mul, Nat.add_sub_cancel]
    rw [interleave, List.length_append, length_flatMap_take parts hlen, ih _ hrest, List.map_map]
    simp only [Function.comp_def, Nat.succ_mul, Nat.add_comm]

namespace Tensor

/-- The lengths off the axis.  A part whose rank does not reach the axis gives up its last axis
instead, except that a matrix is read past its end. -/
def offAxis (shape : List Nat) (axis : Nat) : Except Error (List Nat) :=
  if axis < shape.length then .ok (shape.eraseIdx axis)
  else if shape.length = 2 then .error .outOfRange
  else .ok shape.dropLast

/-- Checks that every shape has the lengths `common` off the axis. -/
def checkParts (common : List Nat) (axis : Nat) : List (List Nat) → Except Error Unit
  | [] => .ok ()
  | shape :: rest => do
    if (← offAxis shape axis) = common then checkParts common axis rest
    else throw (.shapeMismatch .incompatibleParts)

/-- The length of a shape on the axis, which has to exist. -/
def lengthAt (axis : Nat) (shape : List Nat) : Except Error Nat :=
  match shape[axis]? with
  | some n => .ok n
  | none => .error .outOfRange

/-- The concatenated elements of parts with the given shapes, whose lengths off the axis agree
with those of `first`. -/
def joinData {α : Type} (first : List Nat) (axis : Nat) (shapes : List (List Nat))
    (data : List (List α)) : List α :=
  let inner := numel (first.drop (axis + 1))
  let blocks := shapes.map fun shape => (shape[axis]?).getD 0 * inner
  interleave (numel (first.take axis)) (blocks.zip data)

/-- The tensor of the concatenated elements, once the shapes of the parts are found to agree and the
shape of the result leaves room for the positions of its elements.  The last condition is not one of
concatenation as such: it is the documented limit of the tensors that can be held. -/
def assemble {α : Type} (wrap : List α → Elements) (first : List Nat) (axis : Nat)
    (shapes : List (List Nat)) (data : List (List α)) : Except Error Tensor := do
  checkParts (first.eraseIdx axis) axis shapes
  let lengths ← shapes.mapM (lengthAt axis)
  let shape := first.set axis (lengths.foldr (· + ·) 0)
  if isAddressable shape then ofElements (wrap (joinData first axis shapes data)) shape
  else throw (.shapeMismatch .joinedLengths)

/-- The tensors laid end to end along an axis.  All parts have the element type of the first. -/
def concat (parts : List Tensor) (axis : Nat) : Except Error Tensor :=
  match parts with
  | [] => .error (.internal .concatOfNoTensors)
  | first :: _ =>
    if axis < first.rank then
      let shapes := parts.map Tensor.shape
      match first.elements with
      | .f32 _ => do assemble .f32 first.shape axis shapes (← parts.mapM Tensor.singles)
      | .i64 _ => do assemble .i64 first.shape axis shapes (← parts.mapM Tensor.ints)
    else .error (.invalidAxis (Word.signed axis) first.rank)

end Tensor

end Dataflow
