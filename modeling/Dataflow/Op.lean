/-!
# Operations

The operations that nodes of a graph perform, in their declared order.

## Main definitions

* `Op` : the operations.
* `Op.name` : the printed name.
* `Op.isCell`, `Op.isSequence` : recurrent cells, and cells run over a whole sequence.
* `Op.union` : lists of operations merged without repetition.
-/

namespace Dataflow

/-- The operation of a node. -/
inductive Op
  | parameter
  | constant
  | data
  | identity
  | convert
  | reshape
  | squeeze
  | unsqueeze
  | transpose
  | permute
  | concat
  | split
  | gather
  | stridedSlice
  | shapeOf
  | broadcast
  | kvCache
  | add
  | matMul
  | relu
  | reverseSequence
  | lstmCell
  | rnnCell
  | gruCell
  | lstmSequence
  | rnnSequence
  | gruSequence
  | tensorIterator
  | loop
deriving DecidableEq

namespace Op

/-- The printed name of an operation. -/
def name : Op → String
  | parameter => "Parameter"
  | constant => "Constant"
  | data => "Data"
  | identity => "Identity"
  | convert => "Convert"
  | reshape => "Reshape"
  | squeeze => "Squeeze"
  | unsqueeze => "Unsqueeze"
  | transpose => "Transpose"
  | permute => "Permute"
  | concat => "Concat"
  | split => "Split"
  | gather => "Gather"
  | stridedSlice => "StridedSlice"
  | shapeOf => "ShapeOf"
  | broadcast => "Broadcast"
  | kvCache => "KvCache"
  | add => "Add"
  | matMul => "MatMul"
  | relu => "Relu"
  | reverseSequence => "ReverseSequence"
  | lstmCell => "LSTMCell"
  | rnnCell => "RNNCell"
  | gruCell => "GRUCell"
  | lstmSequence => "LSTMSequence"
  | rnnSequence => "RNNSequence"
  | gruSequence => "GRUSequence"
  | tensorIterator => "TensorIterator"
  | loop => "Loop"

/-- Every operation, in the declared order. -/
def all : List Op :=
  [parameter, constant, data, identity, convert, reshape, squeeze, unsqueeze, transpose, permute,
    concat, split, gather, stridedSlice, shapeOf, broadcast, kvCache, add, matMul, relu,
    reverseSequence, lstmCell, rnnCell, gruCell, lstmSequence, rnnSequence, gruSequence,
    tensorIterator, loop]

/-- The operations compare by their place in the declared order. -/
def rank (op : Op) : Nat :=
  op.ctorIdx

/-- A list of operations in the declared order. -/
def sort (ops : List Op) : List Op :=
  ops.mergeSort fun a b => decide (a.rank ≤ b.rank)

/-- The place of every operation in the list of all of them is its rank. -/
theorem getElem?_all_rank (op : Op) : all[op.rank]? = some op := by
  cases op <;> rfl

/-- The operations that one step of a recurrent network performs. -/
def cells : List Op :=
  [lstmCell, rnnCell, gruCell]

/-- The operations that run a recurrent cell over a sequence. -/
def sequences : List Op :=
  [lstmSequence, rnnSequence, gruSequence]

/-- The operations that may drop an axis. -/
def squeezeLike : List Op :=
  [squeeze, reshape]

/-- The operations that may insert an axis. -/
def unsqueezeLike : List Op :=
  [unsqueeze, reshape]

def isCell (op : Op) : Bool :=
  cells.contains op

def isSequence (op : Op) : Bool :=
  sequences.contains op

/-- Whether the operation has its value from the start: constants and weights. -/
def isConstant : Op → Bool
  | constant | data => true
  | _ => false

/-- The operations of several lists, each at its first occurrence. -/
def union (lists : List (List Op)) : List Op :=
  lists.flatten.eraseDups

end Op

end Dataflow
