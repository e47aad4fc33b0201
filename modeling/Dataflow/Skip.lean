import Dataflow.Graph.Mutate
import Dataflow.Graph.Query
import Dataflow.Pass
import Dataflow.Shape.Axis

/-!
# Nodes that may be skipped at run time

A gather, a permutation or a strided slice may turn out to return its input unchanged once the
shapes are known.  Nodes of which this is possible, and which may then be left out, are marked.

## Main definitions

* `Graph.gatherSkippable`, `Graph.permuteSkippable`, `Graph.sliceSkippable` : the conditions.
* `Graph.isSkippable` : the condition for any node.
* `markSkippable` : the pass that marks the nodes.
-/

namespace Dataflow

namespace Graph

variable {β : Type}

/-- Whether the first input and the first output of a node have the same element type. -/
def keepsElementType (g : Graph β) (n : Node β) : Bool :=
  match g.inputLayout? n.id 0, n.outputs[0]? with
  | some input, some output => input.elementType == output.elementType
  | _, _ => false

/-- A gather may return its data if its list of indices is computed and may be as long as the data
on the gathered axis. -/
def gatherSkippable (g : Graph β) (n : Node β) : Bool :=
  !n.isFused && g.keepsElementType n &&
    match n.inputs[1]? with
    | none => false
    | some indices =>
      !g.isConstant indices &&
        match g.inputLayout? n.id 0, (g.layout? indices).map (·.shape.dims), n.int? "axis" with
        | some data, some [count], some axis =>
          match normalizeAxis axis data.shape.rank with
          | .ok axis =>
            match data.shape.dim? axis, count with
            | some (.known a), .known i => a == i
            | some _, _ => true
            | none, .unknown => true
            | none, .known _ => false
          | .error _ => false
        | _, _, _ => false

/-- The distinct nodes that use some value of a node. -/
def userNodes (g : Graph β) (n : Node β) : List Nat :=
  (n.values.flatMap fun v => (g.uses v).map Use.node).eraseDups

/-- A permutation may return its input if a shape is left open.  It stays if it gives an output of
the graph, reads a cache, or is only there for one concatenation. -/
def permuteSkippable (g : Graph β) (n : Node β) : Bool :=
  !g.isOutputNode n.id && !n.isFused && g.keepsElementType n && g.isDynamicNode n.id &&
    (match n.inputs[0]? with
      | none => false
      | some v => g.op? v != some .kvCache) &&
    match g.userNodes n with
    | [user] => ((g.node? user).map Node.op) != some .concat
    | _ => true

/-- Whether the end bounds of a slice reach the ends of the axes from number `i` on: a bound that
is masked does, and so does one that equals a known length. -/
def reachesEnds (shape : Shape) (mask : Nat → Bool) : Nat → List Int → Bool
  | _, [] => true
  | i, e :: rest =>
    (mask i ||
      match shape.dim? i with
      | some (.known d) => decide (0 ≤ e ∧ d = e.toNat)
      | _ => false) && reachesEnds shape mask (i + 1) rest

/-- A slice returns its input if it starts at the beginning of every axis, takes every position,
and reaches the ends.  It stays if it gives an output of the graph or changes the rank. -/
def sliceSkippable (g : Graph β) (n : Node β) : Bool :=
  !g.isOutputNode n.id && !n.isFused &&
    match g.inputLayout? n.id 0, n.outputs[0]? with
    | some input, some output =>
      let list (name : String) : List Int := (n.ints? name).getD []
      let stop := list "end"
      let stopMask := list "end_mask"
      let startMask := list "begin_mask"
      input.format == output.format && input.elementType == output.elementType &&
        !(["new_axis_mask", "shrink_axis_mask", "ellipsis_mask"].any fun m =>
          (list m).contains 1) &&
        ((list "begin").all (· == 0) || (!startMask.isEmpty && startMask.all (· == 1))) &&
        (list "strides").all (· == 1) &&
        reachesEnds input.shape
          (fun i => stop.length == stopMask.length && stopMask[i]? == some 1) 0 stop
    | _, _ => false

/-- Whether a node may be skipped at run time. -/
def isSkippable (g : Graph β) (n : Node β) : Bool :=
  match n.op with
  | .gather => g.gatherSkippable n
  | .permute => g.permuteSkippable n
  | .stridedSlice => g.sliceSkippable n
  | _ => false

/-- The live nodes that may be skipped at run time and are not bound to the processor, in
processing order. -/
def skippableNodes (g : Graph β) : List Nat :=
  (g.liveNodes.filter fun n => n.kernel != .cpu && g.isSkippable n).map Node.id

/-- The graph with a mark on the listed nodes. -/
def markNodes : List Nat → Graph β → Graph β
  | [], g => g
  | id :: rest, g => markNodes rest (g.modifyNode id fun n => { n with skippable := true })

end Graph

/-- The operations of the nodes that may be skipped. -/
def skippableOps : List Op :=
  [.gather, .permute, .stridedSlice]

/-- The pass that marks the nodes which may be skipped at run time. -/
def markSkippable {β : Type} : Pass β where
  name := "mark_runtime_skippable_nodes"
  applicable := fun g => !(g.findOps skippableOps).isEmpty
  run := do
    let ids := (← get).skippableNodes
    modify (Graph.markNodes ids)
    let report : Report := { matched := ids.length, iterations := 1 }
    return ids.foldl Report.record report

end Dataflow
