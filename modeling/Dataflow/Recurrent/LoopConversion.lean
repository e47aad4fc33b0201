import Dataflow.Build
import Dataflow.Graph.Prune
import Dataflow.Pass
import Dataflow.Recurrent.LoopPlan

/-!
# Loops converted to sequences

A loop that runs a recurrent cell over a sequence is replaced by one sequence node.  The node works
on batch-major sequences and has an extra axis for its directions, so its operands and results are
transposed and reshaped to fit the readers of the loop.

## Main definitions

* `LoopPlan.build` : the replacement.
* `iteratorRule`, `loopRule` : the conversion of the two kinds of loop nodes.
* `convertIterator`, `convertIterators`, `convertLoop` : the passes.
-/

namespace Dataflow

variable {β : Type}

namespace LoopPlan

/-- The name of a part of the replacement. -/
def part (plan : LoopPlan) (suffix : String) : String :=
  plan.name ++ "/" ++ suffix

/-- A weight of the cell as a constant with an axis for the directions. -/
def addWeight (plan : LoopPlan) (suffix : String) (t : Tensor) : Edit β Value := do
  let t ← Edit.pureExcept (t.insertAxis 0)
  Edit.addConstant (plan.part suffix) t

/-- The description of the sequence node. -/
def sequenceSpec (plan : LoopPlan) (inputs : List Value) (batch time : Dim) (t : ElementType) :
    NodeSpec β :=
  let one : Dim := .known 1
  let hidden : Dim := .known plan.hidden
  let state : Layout := .planar ⟨[batch, one, hidden]⟩ t
  let attributes := plan.attributes.insert "hidden_size" (.int plan.hidden)
  { op := plan.kind.sequenceOp
    name := some (plan.part "sequence")
    inputs
    outputs := .planar ⟨[batch, one, time, hidden]⟩ t :: List.replicate plan.kind.stateCount state
    attributes := attributes.insert "direction" (.str (if plan.reverse then "reverse" else "forward")) }

/-- The sequence node, together with its operands. -/
def addSequence (plan : LoopPlan) : Edit β Nat := do
  let x ←
    if plan.timeAxis = 0 then Edit.transpose (plan.part "x_batch_major") plan.x [1, 0, 2]
    else pure plan.x
  let layout ← Edit.layoutOf x
  let batch ← Edit.pureExcept (layout.shape.dim 0)
  let time ← Edit.pureExcept (layout.shape.dim 1)
  let h ← Edit.unsqueeze (plan.part "h_init") plan.h 1
  let c ←
    match plan.c with
    | some c => do pure [← Edit.unsqueeze (plan.part "c_init") c 1]
    | none => pure []
  let lengths ← Edit.sequenceLengths (plan.part "seq_len") x
  let w ← plan.addWeight "W" plan.w
  let r ← plan.addWeight "R" plan.r
  let b ← plan.addWeight "B" plan.b
  Edit.addNode
    (plan.sequenceSpec ([x, h] ++ c ++ [lengths, w, r, b]) batch time layout.elementType)

/-- The readers of some outputs of the loop node read a value instead. -/
def redirectOutputs (plan : LoopPlan) (v : Value) : List Nat → Edit β Unit
  | [] => return ()
  | i :: rest => do
    let _ ← Edit.redirect ⟨plan.loop, i⟩ v
    redirectOutputs plan v rest

/-- The readers of the outputs of the loop node that hold the sequence of hidden states read the
first output of the sequence node, in the axis order of the input. -/
def connectSequence (plan : LoopPlan) (sequence : Nat) : Edit β Unit := do
  let outputs := plan.outputsOf .sequence
  if !outputs.isEmpty then
    let y ← Edit.squeeze (plan.part "y") ⟨sequence, 0⟩ 1
    let y ←
      if plan.timeAxis = 0 then Edit.transpose (plan.part "y_time_major") y [1, 0, 2] else pure y
    plan.redirectOutputs y outputs

/-- The readers of the outputs of the loop node that hold a last state read an output of the
sequence node. -/
def connectState (plan : LoopPlan) (result : LoopResult) (suffix : String) (v : Value) :
    Edit β Unit := do
  let outputs := plan.outputsOf result
  if !outputs.isEmpty then
    let state ← Edit.squeeze (plan.part suffix) v 1
    plan.redirectOutputs state outputs

/-- The loop node is replaced by a sequence node, and the constants that only the loop has read are
removed. -/
def build (plan : LoopPlan) : Edit β Bool := do
  let sequence ← plan.addSequence
  plan.connectSequence sequence
  plan.connectState .hidden "ho" ⟨sequence, 1⟩
  plan.connectState .cell "co" ⟨sequence, 2⟩
  let inputs := (((← get).node? plan.loop).map Node.inputs).getD []
  let _ ← Edit.markEliminated plan.loop
  let _ ← Edit.always (Graph.eliminateUnusedConstants inputs)
  return true

end LoopPlan

/-- The pattern of the first output of a loop node. -/
def loopPattern (op : Op) : Pattern β :=
  (PatternBuilder.opWith [op] [] fun _ v => v.index == 0).build.1

/-- The name of the conversion of iterators over one kind of cell. -/
def Cell.conversionName : Cell → String
  | lstm => "convert_ti_to_lstm_sequence"
  | rnn => "convert_ti_to_rnn_sequence"
  | gru => "convert_ti_to_gru_sequence"

/-- An iterator over a recurrent cell becomes a sequence node. -/
def iteratorRule (kind : Cell) : Rule Body where
  name := kind.conversionName
  pattern := loopPattern .tensorIterator
  action m := do
    match LoopPlan.find? (← get) m.root.node kind with
    | some plan => plan.build
    | none => return false

/-- A loop over a long short-term memory becomes a sequence node if it runs over the whole input. -/
def loopRule : Rule Body where
  name := "convert_loop_to_lstm_sequence"
  pattern := loopPattern .loop
  action m := do
    let g ← get
    match LoopPlan.find? g m.root.node .lstm with
    | some plan => if plan.isPlain g then plan.build else return false
    | none => return false

/-- The conversion of the iterators over one kind of cell. -/
def convertIterator (kind : Cell) (config : RunConfig := {}) : Pass Body :=
  { { iteratorRule kind with config }.toPass with
    applicable := fun g => !(g.findOps [.tensorIterator]).isEmpty }

/-- The conversion of the iterators over any kind of cell. -/
def convertIterators (config : RunConfig := {}) : Pass Body :=
  let set : RuleSet Body :=
    { name := "convert_ti_to_sequence", rules := [.lstm, .rnn, .gru].map iteratorRule, config }
  { set.toPass with applicable := fun g => !(g.findOps [.tensorIterator]).isEmpty }

/-- The conversion of loops over a long short-term memory. -/
def convertLoop (config : RunConfig := {}) : Pass Body :=
  { { loopRule with config }.toPass with
    applicable := fun g => !(g.findOps [.loop]).isEmpty }

end Dataflow
