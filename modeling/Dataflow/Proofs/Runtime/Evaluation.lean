import Dataflow.Body
import Dataflow.Graph.Query
import Dataflow.Proofs.Runtime.Reshaping

/-!
# What a graph computes

A graph computes the tensors of its values from those of its parameters, node by node.  What an
operation does to its operands is left to an interpretation; a loop node to which it gives no meaning
runs its body once for every iteration.  A value has a tensor only if the declared layouts are true
of it and of everything that it is computed from.

The evaluation is bounded by a number of steps, which limits how deep references go and how often a
loop is run, so that it is a function for every graph.  More steps never change a tensor that is
found.

## Main definitions

* `Layout.admits` : whether a declared layout is true of a tensor.
* `Interpretation`, `Environment` : what operations do, and the tensors of the parameters.
* `Body.iterate?`, `Node.loopValue?` : the results of the iterations, and the outputs of a loop.
* `Node.result?` : an output of a node with operands.
* `Graph.eval` : the bounded evaluation.
* `Graph.Computes` : the tensor of a value.
-/

namespace Dataflow

/-! ### True layouts -/

/-- Whether a declared dimension is true of a length at run time.  Lengths are signed words. -/
def Dim.admits (d : Dim) (n : Nat) : Bool :=
  decide (n < 2 ^ 63) &&
    match d with
    | known m => m == n
    | unknown => true

/-- Whether the declared dimensions are true of the lengths of a tensor. -/
def admitsLengths : List Dim → List Nat → Bool
  | [], [] => true
  | d :: dims, n :: lengths => d.admits n && admitsLengths dims lengths
  | _, _ => false

/-- Whether the declared shape is true of a tensor. -/
def Layout.admits (l : Layout) (t : Grid) : Bool :=
  admitsLengths l.shape.dims t.shape

/-! ### Iterations of a loop -/

/-- The tensors of the parameters of a graph, by the numbers of their nodes. -/
abbrev Environment : Type :=
  Nat → Option Grid

/-- What the operations of nodes do to the tensors of their operands. -/
abbrev Interpretation : Type :=
  Op → Attributes → List Grid → Option (List Grid)

/-- A way of finding the tensors of values. -/
abbrev Evaluator : Type :=
  Graph Body → Environment → Value → Option Grid

namespace Walk

/-- A bound of a walk along an axis of the given length, counted from the front.  The end of the
axis is the bound minus one. -/
def bound (b : Int) (length : Nat) : Int :=
  if b < 0 then b + length + 1 else b

/-- The number of parts of an axis. -/
def count (w : Walk) (length : Nat) : Nat :=
  (bound w.start length - bound w.stop length).natAbs / w.partSize.toNat

/-- The first position of a part. -/
def first (w : Walk) (length k : Nat) : Nat :=
  if 0 < w.stride then (bound w.start length + k * w.partSize).toNat
  else (bound w.start length - (k + 1) * w.partSize).toNat

end Walk

namespace Body

/-- What a parameter holds in iteration number `k`.  There are results before the iteration, unless
it is the first one. -/
def argument? (operands : List Grid) (previous : Option (List Grid)) (k : Nat) :
    InputMap → Option Grid
  | .sliced input _ w => do
    let t ← operands[input]?
    let axis ← (normalizeAxis w.axis t.shape.length).toOption
    t.slice? axis (w.first (t.lengthAt axis) k) w.partSize.toNat
  | .merged input _ result =>
    match previous with
    | some results => results[result]?
    | none => operands[input]?
  | .invariant input _ => operands[input]?

/-- The tensors of the parameters in iteration number `k`.  The counter holds the number. -/
def environment (body : Body) (counter : Option Value) (operands : List Grid)
    (previous : Option (List Grid)) (k : Nat) : Environment := fun id =>
  if counter = some ⟨id, 0⟩ then some (Tensor.scalar k).grid
  else do
    let m ← body.inputFor? (← body.paramIndex? ⟨id, 0⟩)
    argument? operands previous k m

/-- The results of iteration number `k`. -/
def iterate? (f : Evaluator) (body : Body) (counter : Option Value) (operands : List Grid) :
    (k : Nat) → Option (List Grid)
  | 0 => body.graph.outputs.mapM (f body.graph (body.environment counter operands none 0))
  | k + 1 => do
    let results ← iterate? f body counter operands k
    body.graph.outputs.mapM
      (f body.graph (body.environment counter operands (some results) (k + 1)))

/-- The numbers of parts that the sliced inputs have. -/
def partCounts? (body : Body) (operands : List Grid) : Option (List Nat) :=
  (body.inputs.filterMap fun m =>
    match m with
    | .sliced input _ w => some (input, w)
    | _ => none).mapM fun p => do
      let t ← operands[p.1]?
      let axis ← (normalizeAxis p.2.axis t.shape.length).toOption
      return p.2.count (t.lengthAt axis)

/-- The number of parts that all sliced inputs have, if there are any. -/
def partCount? (body : Body) (operands : List Grid) : Option (Option Nat) := do
  match ← body.partCounts? operands with
  | [] => return none
  | n :: rest =>
    guard (rest.all (· = n))
    return some n

/-- The number of iterations from number `k` on until the limit is reached or the condition fails,
each step of the bound being one iteration. -/
def stepsFrom? (f : Evaluator) (body : Body) (counter : Option Value) (condition : Nat)
    (operands : List Grid) (limit : Option Nat) : (bound k : Nat) → Option Nat
  | 0, _ => none
  | bound + 1, k =>
    if limit = some k then some k
    else do
      let results ← body.iterate? f counter operands k
      let flag ← (← (← results[condition]?).ints?).head?
      if flag = 0 then return k + 1
      else stepsFrom? f body counter condition operands limit bound (k + 1)

/-- The number of iterations that a loop with a trip count and a condition has at most, if that is
limited.  A negative trip count is no limit, and a loop does not begin unless its condition is true
at first. -/
def limit? (body : Body) (operands : List Grid) : Option (Option Nat) := do
  let parts ← body.partCount? operands
  let trip ← (← (← operands[0]?).ints?).head?
  let start ← (← (← operands[1]?).ints?).head?
  if start = 0 then return some 0
  else if trip < 0 then return parts
  else return some (parts.elim trip.toNat (min trip.toNat))

/-- What the described output of a loop holds after the given number of iterations.  A backward walk
lays out the parts from the last one to the first. -/
def outputValue? (f : Evaluator) (body : Body) (counter : Option Value) (operands : List Grid)
    (steps : Nat) : OutputMap → Option Grid
  | .last result _ => do
    guard (0 < steps)
    (← body.iterate? f counter operands (steps - 1))[result]?
  | .concat result _ w => do
    let parts ← (List.range steps).mapM fun k => do
      (← body.iterate? f counter operands k)[result]?
    let axis ← (normalizeAxis w.axis (← parts.head?).shape.length).toOption
    Grid.concat? axis (if w.stride < 0 then parts.reverse else parts)

end Body

/-- An output of a loop node.  An iterator has as many iterations as its sliced inputs have
parts. -/
def Node.loopValue? (f : Evaluator) (bound : Nat) (n : Node Body) (operands : List Grid)
    (output : Nat) : Option Grid := do
  let body ← n.body
  let d ← body.outputFor? output
  if n.op = .loop then
    let control ← body.control
    let counter := control.counter.bind body.paramValue?
    let limit ← body.limit? operands
    let steps ← body.stepsFrom? f counter control.condition operands limit bound 0
    body.outputValue? f counter operands steps d
  else
    let steps ← (body.partCount? operands).join
    body.outputValue? f none operands steps d

/-- An output of a node that works on operands. -/
def Node.result? (I : Interpretation) (f : Evaluator) (bound : Nat) (n : Node Body)
    (operands : List Grid) (output : Nat) : Option Grid :=
  match I n.op n.attributes operands with
  | some results => results[output]?
  | none =>
    if n.op = .tensorIterator ∨ n.op = .loop then n.loopValue? f bound operands output else none

namespace Graph

/-- The tensor of output number `output` of a node. -/
def nodeValue? (I : Interpretation) (f : Evaluator) (bound : Nat) (g : Graph Body)
    (ρ : Environment) (id : Nat) (n : Node Body) (output : Nat) : Option Grid :=
  if n.op = .parameter then
    if output = 0 then ρ id else none
  else if n.op.isConstant then
    if output = 0 then n.constant?.map Tensor.grid else none
  else do
    let operands ← n.inputs.mapM (f g ρ)
    n.result? I f bound operands output

/-- The tensor of a value, in a bounded number of steps. -/
def eval (I : Interpretation) : (bound : Nat) → Evaluator
  | 0, _, _, _ => none
  | bound + 1, g, ρ, v => do
    let n ← g.live? v.node
    let l ← n.outputs[v.index]?
    let t ← g.nodeValue? I (eval I bound) bound ρ v.node n v.index
    guard (l.admits t)
    return t

/-- The tensor that a graph computes for a value when its parameters have the given tensors, and
the declared layouts are true of everything that is computed on the way. -/
def Computes (g : Graph Body) (I : Interpretation) (ρ : Environment) (v : Value) (t : Grid) :
    Prop :=
  ∃ bound, g.eval I bound ρ v = some t

end Graph

end Dataflow
