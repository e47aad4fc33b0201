import Dataflow.Edit
import Dataflow.Layout.Result

/-!
# Building small subgraphs

Edits that add a shape-changing node together with the constants it needs.  The new node has the
given name; its constants and its inner nodes have names below it, set off by a slash.  A builder
that fails may leave constants behind that it has added.

## Main definitions

* `Edit.unsqueeze`, `Edit.squeeze`, `Edit.transpose`, `Edit.reshape` : one node and one constant.
* `Edit.concat`, `Edit.split` : values laid end to end, and a value cut into equal parts.
* `Edit.sequenceLengths` : for a batch of sequences, the common length once per sequence.
-/

namespace Dataflow

namespace Edit

variable {β : Type}

/-- The declared layout of a value of a stored node. -/
def layoutOf (v : Value) : Edit β Layout :=
  ask fun g =>
    match g.layout? v with
    | some l => .ok l
    | none => .error (.invalidNode v.node)

/-- A result that does not depend on the graph. -/
def pureExcept {α : Type} (x : Except Error α) : Edit β α :=
  ask fun _ => x

/-- A list of `n` copies of `a`, unless memory has `room` for fewer of them. -/
def copies {α : Type} (room n : Nat) (a : α) : Edit β (List α) :=
  pureExcept (if n ≤ room then .ok (List.replicate n a) else .error .tooLong)

/-- A node with one operand, one list of integers and one output. -/
def withInts (op : Op) (name suffix : String) (v : Value) (ints : List Int) (layout : Layout) :
    Edit β Value := do
  let operand ← addInts (name ++ "/" ++ suffix) ints
  let id ← addNode { op, name := some name, inputs := [v, operand], outputs := [layout] }
  return ⟨id, 0⟩

/-- The value with a new axis of length one. -/
def unsqueeze (name : String) (v : Value) (axis : Nat) : Edit β Value := do
  let layout ← pureExcept ((← layoutOf v).unsqueeze axis)
  withInts .unsqueeze name "axes" v [(axis : Int)] layout

/-- The value without an axis of length one. -/
def squeeze (name : String) (v : Value) (axis : Nat) : Edit β Value := do
  let layout ← pureExcept ((← layoutOf v).squeeze axis)
  withInts .squeeze name "axes" v [(axis : Int)] layout

/-- The value with its axes in another order. -/
def transpose (name : String) (v : Value) (order : List Nat) : Edit β Value := do
  let layout ← pureExcept ((← layoutOf v).transpose order)
  withInts .transpose name "order" v (order.map Int.ofNat) layout

/-- The value reshaped to a target. -/
def reshape (name : String) (v : Value) (target : List Int) : Edit β Value := do
  let layout ← pureExcept ((← layoutOf v).reshape target)
  withInts .reshape name "shape" v target layout

/-- The dimension on the axis of the values laid end to end after the first one. -/
def concatDim (first : Layout) (axis : Nat) : List Value → Dim → Edit β Dim
  | [], d => return d
  | v :: rest, d => do
    let d ← pureExcept (first.concatDim axis d (← layoutOf v))
    concatDim first axis rest d

/-- The values laid end to end along an axis. -/
def concat (name : String) (values : List Value) (axis : Nat) : Edit β Value := do
  match values with
  | [] => throw (.internal .concatOfNoValues)
  | v :: rest =>
    let first ← layoutOf v
    match first.shape.dim? axis with
    | none => throw (.invalidAxis (Word.signed axis) first.shape.rank)
    | some d =>
      let d ← concatDim first axis rest d
      let id ← addNode
        { op := .concat
          name := some name
          inputs := values
          outputs := [.planar (first.shape.setDim axis d) first.elementType]
          attributes := Attributes.empty.insert "axis" (.int axis) }
      return ⟨id, 0⟩

/-- The equal parts of a value along an axis. -/
def split (name : String) (v : Value) (axis parts : Nat) : Edit β (List Value) := do
  let part ← pureExcept ((← layoutOf v).part axis parts)
  let outputs ← copies Word.maxLayouts parts part
  let id ← addNode
    { op := .split
      name := some name
      inputs := [v]
      outputs
      attributes := (Attributes.empty.insert "axis" (.int axis)).insert "num_splits" (.int parts) }
  return (List.range parts).map fun i => ⟨id, i⟩

/-- The entry number `index` of a vector of lengths, as a vector of its own. -/
def entry (name suffix : String) (lengths : Value) (index : Int) : Edit β Value := do
  let indices ← addInts (name ++ "/" ++ suffix ++ "_index") [index]
  let id ← addNode
    { op := .gather
      name := some (name ++ "/" ++ suffix)
      inputs := [lengths, indices]
      outputs := [.planar (.ofLengths [1]) .i64]
      attributes := Attributes.empty.insert "axis" (.int 0) }
  return ⟨id, 0⟩

/-- The length of every sequence of a batch-major value: its time dimension, once for every entry
of the batch.  It is a constant when both dimensions are known; otherwise the dimensions are read
off when the graph runs.  A constant holds the length as a signed word. -/
def sequenceLengths (name : String) (x : Value) : Edit β Value := do
  let layout ← layoutOf x
  match layout.shape.dim? 0, layout.shape.dim? 1 with
  | some (.known batch), some (.known time) => do
    addInts name (← copies Word.maxInts batch (Word.signed time))
  | some batch, some _ =>
    let shape ← addNode
      { op := .shapeOf
        name := some (name ++ "/shape_of")
        inputs := [x]
        outputs := [.planar (.ofLengths [layout.shape.rank]) .i64] }
    let time ← entry name "time" ⟨shape, 0⟩ 1
    let count ← entry name "batch" ⟨shape, 0⟩ 0
    let id ← addNode
      { op := .broadcast
        name := some name
        inputs := [time, count]
        outputs := [.planar ⟨[batch]⟩ .i64] }
    return ⟨id, 0⟩
  | _, _ => throw (.shapeMismatch (.sequenceInput layout.shape))

end Edit

end Dataflow
