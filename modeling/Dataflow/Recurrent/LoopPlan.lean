import Dataflow.Body
import Dataflow.Pattern.Match
import Dataflow.Recurrent.Cell
import Dataflow.Shape.Axis

/-!
# Loops that run a recurrent cell

A loop runs a recurrent cell over a sequence when its body drops the time axis of one part of the
input, applies the cell, and puts the time axis back; when the states of the cell go round the loop
unchanged; and when the weights are constant.  Such a loop can be replaced by one sequence node.

## Main definitions

* `CellStep` : the body of such a loop, found by its pattern.
* `LoopPlan` : everything that the sequence node is made from.
* `LoopPlan.find?` : the plan for a loop node, if its body has the required form.
* `LoopPlan.isPlain` : whether a loop with a trip count and a condition runs over the whole input.
-/

namespace Dataflow

variable {β : Type}

/-! ### The body -/

/-- The numbers of the nodes in the pattern of a body. -/
structure StepPattern where
  x : Nat
  squeeze : Nat
  cell : Nat

/-- The pattern of a body: a parameter without its time axis goes into the cell as the first input,
and the time axis is put back into the result. -/
def stepPattern (kind : Cell) : Pattern β × StepPattern :=
  PatternBuilder.build do
    let x ← .op [.parameter] []
    let squeezeAxes ← .any
    let squeeze ← .op Op.squeezeLike [x, squeezeAxes]
    let states ← (List.replicate kind.stateCount PatternBuilder.any).mapM id
    let w ← .any
    let r ← .any
    let b ← .any
    let cell ← .op [kind.stepOp] (squeeze :: states ++ [w, r, b])
    let unsqueezeAxes ← .any
    let _ ← .op Op.unsqueezeLike [cell, unsqueezeAxes]
    return { x, squeeze, cell }

/-- The nodes of a body that apply a cell to one position of a sequence. -/
structure CellStep where
  /-- The parameter that holds one part of the sequence. -/
  x : Value
  squeeze : Node Body
  cell : Node Body
  unsqueeze : Node Body

/-- The one cell step of a body.  There must be no second one, and the time axis must be put back
into the first output of the cell. -/
def CellStep.find? (body : Body) (kind : Cell) : Option CellStep := do
  let (pattern, nodes) := stepPattern kind
  let [m] := pattern.findAll body.graph | none
  let cell ← m.get? nodes.cell
  guard (cell.index = 0)
  return {
    x := ← m.get? nodes.x
    squeeze := ← body.graph.node? (← m.get? nodes.squeeze).node
    cell := ← body.graph.node? cell.node
    unsqueeze := ← body.graph.node? m.root.node }

/-- Whether the second input of a node is a constant list of the given axis of a tensor of rank
three. -/
def listsAxis (g : Graph β) (n : Node β) (axis : Nat) : Bool :=
  match (n.inputs[1]?).bind g.constantInts? with
  | some [a] => (normalizeAxis a 3).toOption == some axis
  | _ => false

/-- Whether a node drops the given axis, of length one, from a part of rank three. -/
def dropsAxis (g : Graph β) (n : Node β) (axis : Nat) : Bool :=
  match n.op with
  | .squeeze => listsAxis g n axis
  | .reshape =>
    match (n.inputs[0]?).bind g.layout?, n.outputs[0]? with
    | some input, some output =>
      input.shape.dim? axis == some (.known 1) && output.shape == input.shape.dropAxis axis
    | _, _ => false
  | _ => false

/-- Whether a node inserts the given axis, of length one, to make a part of rank three. -/
def insertsAxis (g : Graph β) (n : Node β) (axis : Nat) : Bool :=
  match n.op with
  | .unsqueeze => listsAxis g n axis
  | .reshape =>
    match (n.inputs[0]?).bind g.layout?, n.outputs[0]? with
    | some input, some output => output.shape == input.shape.insertAxis axis (.known 1)
    | _, _ => false
  | _ => false

/-! ### Inputs of the loop node -/

/-- The tensor of a value of the body that is constant, in the body itself or outside. -/
def loopConstant? (g : Graph Body) (loop : Node Body) (body : Body) (v : Value) :
    Option Tensor :=
  match body.graph.constant? v with
  | some t => some t
  | none => do
    let .invariant input _ ← body.inputFor? (← body.paramIndex? v) | none
    g.constant? (← loop.inputs[input]?)

/-- The value that a parameter has at first, if later on it takes the value `back` of the body. -/
def initialValue? (loop : Node Body) (body : Body) (v back : Value) : Option Value := do
  let .merged input _ result ← body.inputFor? (← body.paramIndex? v) | none
  guard ((← body.resultValue? result) = back)
  loop.inputs[input]?

/-! ### Outputs of the loop node -/

/-- What an output of the loop node holds. -/
inductive LoopResult
  /-- The hidden states of all positions. -/
  | sequence
  /-- The last hidden state. -/
  | hidden
  /-- The last cell state. -/
  | cell
deriving DecidableEq

/-- What the described output of the loop node holds, if the sequence node has it.  The walk and
the time axis are those of the input. -/
def loopResult? (kind : Cell) (body : Body) (step : CellStep) (walk : Walk) (axis : Nat)
    (d : OutputMap) : Option (LoopResult × Nat) := do
  let v ← body.resultValue? d.result
  match d with
  | .concat _ output w =>
    guard (v = step.unsqueeze.output 0 ∧ w.partSize = 1 ∧ w.stride = walk.stride ∧
      (normalizeAxis w.axis 3).toOption = some axis)
    return (.sequence, output)
  | .last _ output =>
    if v = step.cell.output 0 then return (.hidden, output)
    else if kind.hasCellState ∧ v = step.cell.output 1 then return (.cell, output)
    else none

/-! ### Plans -/

/-- What a sequence node in the place of a loop is made from. -/
structure LoopPlan where
  kind : Cell
  /-- The loop node. -/
  loop : Nat
  name : String
  /-- The sequence, of rank three. -/
  x : Value
  /-- The time axis of the sequence, which is the first or the second one. -/
  timeAxis : Nat
  reverse : Bool
  /-- The initial hidden state. -/
  h : Value
  /-- The initial cell state of a cell that has one. -/
  c : Option Value
  /-- The weights of the input, the weights of the hidden state, and the bias. -/
  w : Tensor
  r : Tensor
  b : Tensor
  /-- The number of entries of the hidden state. -/
  hidden : Nat
  /-- The attributes of the cell. -/
  attributes : Attributes
  /-- The outputs of the loop node, with what they hold. -/
  results : List (LoopResult × Nat)

namespace LoopPlan

/-- The outputs of the loop node that hold one of the results. -/
def outputsOf (plan : LoopPlan) (result : LoopResult) : List Nat :=
  (plan.results.filter (·.1 == result)).map (·.2)

/-- The number of entries of the hidden state that the shapes of the weights agree on, for an input
with the given last dimension. -/
def hiddenSize? (kind : Cell) (w r b : Tensor) (width : Dim) : Option Nat :=
  match w.shape, r.shape, b.shape with
  | [rows, columns], [rows', hidden], [length] =>
    if rows = kind.rows hidden ∧ rows' = kind.rows hidden ∧ kind.fitsBias hidden length ∧
        (width = .unknown ∨ width = .known columns) then some hidden
    else none
  | _, _, _ => none

/-- The plan for a loop node whose body runs a cell of the given kind. -/
def find? (g : Graph Body) (id : Nat) (kind : Cell) : Option LoopPlan := do
  let loop ← g.node? id
  let body ← loop.body
  let step ← CellStep.find? body kind
  -- The sequence is walked over position by position along its time axis.
  let .sliced input _ walk ← body.inputFor? (← body.paramIndex? step.x) | none
  guard walk.isFullUnit
  let x ← loop.inputs[input]?
  let shape := (← g.layout? x).shape
  guard (shape.rank = 3)
  let axis ← (normalizeAxis walk.axis 3).toOption
  guard (axis ≤ 1)
  guard (dropsAxis body.graph step.squeeze axis && insertsAxis body.graph step.unsqueeze axis)
  -- The states go round the loop.
  let operand (i : Nat) : Option Value := step.cell.inputs[i]?
  let h ← initialValue? loop body (← operand 1) (step.cell.output 0)
  let c ←
    if kind.hasCellState then do
      pure (some (← initialValue? loop body (← operand 2) (step.cell.output 1)))
    else pure none
  -- The weights are constant and fit together.
  let weight (i : Nat) : Option Tensor := do
    loopConstant? g loop body (← operand (1 + kind.stateCount + i))
  let w ← weight 0
  let r ← weight 1
  let b ← weight 2
  let hidden ← hiddenSize? kind w r b (← shape.dim? 2)
  guard ((step.cell.int? "hidden_size").all (· == (hidden : Int)))
  let results ← body.outputs.mapM (loopResult? kind body step walk axis)
  return {
    kind, loop := id, name := loop.name, x, timeAxis := axis, reverse := decide (walk.stride < 0),
    h, c, w, r, b, hidden, attributes := step.cell.attributes, results }

/-- Whether a loop with a trip count and a condition runs over the whole sequence: the trip count is
unlimited or the length of the sequence, the condition is true before and after every iteration,
and the number of the iteration is not used. -/
def isPlain (g : Graph Body) (plan : LoopPlan) : Bool :=
  (do
    let loop ← g.node? plan.loop
    let body ← loop.body
    let control ← body.control
    let trip ← loop.inputs[0]?
    let start ← loop.inputs[1]?
    let [count] ← g.constantInts? trip | none
    guard (count = -1 ∨
      ((g.layout? plan.x).bind fun l => l.shape.dim? plan.timeAxis)
        = some (.known (Word.unsigned count)))
    guard (g.constantInts? start = some [1])
    guard ((body.resultValue? control.condition).bind body.graph.constantInts? = some [1])
    guard ((control.counter.bind body.paramValue?).all body.graph.isUnused)
    : Option Unit).isSome

end LoopPlan

end Dataflow
