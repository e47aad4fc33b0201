import Dataflow.Graph

/-!
# Loop bodies

A loop node runs a graph of its own, its body, once per iteration.  Descriptions connect the inputs
of the loop node to parameters of the body, and results of the body to outputs of the loop node.

## Main definitions

* `Walk` : the parts of a tensor that consecutive iterations take from it or give to it.
* `InputMap`, `OutputMap` : the connection of one input or output.
* `LoopControl` : the counter and the condition of a loop with an explicit trip count.
* `Body` : the body graph with its connections.
* `Body.same` : equality of bodies, numbers being compared as numbers.
-/

namespace Dataflow

/-- A walk along an axis of a tensor: consecutive iterations handle parts of `partSize` positions,
`stride` apart, from `start` to `stop`.  Negative bounds count from the end. -/
structure Walk where
  axis : Int
  start : Int
  stride : Int
  partSize : Int
  stop : Int
deriving DecidableEq

namespace Walk

/-- The walk over all positions one by one, backward if the stride is negative. -/
def full (axis stride : Int) : Walk :=
  if stride < 0 then ⟨axis, -1, stride, 1, 0⟩ else ⟨axis, 0, stride, 1, -1⟩

/-- Whether the walk handles every position by itself, in either direction. -/
def isFullUnit (w : Walk) : Bool :=
  w.partSize == 1 &&
    ((w.stride == 1 && w.start == 0 && w.stop == -1) ||
      (w.stride == -1 && w.start == -1 && w.stop == 0))

end Walk

/-- How a parameter of the body gets its value. -/
inductive InputMap
  /-- Iteration by iteration, the parts of an input. -/
  | sliced (input param : Nat) (walk : Walk)
  /-- An input at first, and then a result of the iteration before. -/
  | merged (input param result : Nat)
  /-- The same input in every iteration. -/
  | invariant (input param : Nat)
deriving DecidableEq

namespace InputMap

/-- The input of the loop node. -/
def input : InputMap → Nat
  | sliced input _ _ | merged input _ _ | invariant input _ => input

/-- The parameter of the body. -/
def param : InputMap → Nat
  | sliced _ param _ | merged _ param _ | invariant _ param => param

end InputMap

/-- How an output of the loop node gets its value. -/
inductive OutputMap
  /-- The results of all iterations, laid out along a walk. -/
  | concat (result output : Nat) (walk : Walk)
  /-- The result of the last iteration. -/
  | last (result output : Nat)
deriving DecidableEq

namespace OutputMap

/-- The result of the body. -/
def result : OutputMap → Nat
  | concat result _ _ | last result _ => result

/-- The output of the loop node. -/
def output : OutputMap → Nat
  | concat _ output _ | last _ output => output

end OutputMap

/-- The control values of a loop with an explicit trip count and condition. -/
structure LoopControl where
  /-- The parameter that holds the number of the iteration. -/
  counter : Option Nat
  /-- The result that tells whether to go on. -/
  condition : Nat
deriving DecidableEq

/-- The body of a loop node. -/
structure Body where
  graph : Graph Body
  /-- The parameter nodes, in the order that descriptions number them in. -/
  params : List Nat
  inputs : List InputMap
  outputs : List OutputMap
  control : Option LoopControl

namespace Body

/-- The value of a numbered parameter. -/
def paramValue? (b : Body) (param : Nat) : Option Value :=
  (b.params[param]?).map (⟨·, 0⟩)

/-- The number of the parameter with a value. -/
def paramIndex? (b : Body) (v : Value) : Option Nat :=
  if v.index = 0 then b.params.idxOf? v.node else none

/-- The value of a numbered result. -/
def resultValue? (b : Body) (result : Nat) : Option Value :=
  b.graph.outputs[result]?

/-- The first description of a parameter. -/
def inputFor? (b : Body) (param : Nat) : Option InputMap :=
  b.inputs.find? (·.param == param)

/-- The first description of an output of the loop node. -/
def outputFor? (b : Body) (output : Nat) : Option OutputMap :=
  b.outputs.find? (·.output == output)

theorem sizeOf_lt_of_mem_bodies {g : Graph Body} {b : Body} (h : b ∈ g.bodies) :
    sizeOf b < sizeOf g := by
  obtain ⟨s, hs, hb⟩ := Graph.mem_bodies.1 h
  have hslots := List.sizeOf_lt_of_mem hs
  rcases g with ⟨slots, index, order, outputs⟩
  rcases s with ⟨node, eliminated⟩
  rcases node with ⟨id, name, op, inputs, outs, attributes, fused, kernel, skippable, body⟩
  simp only at hb
  subst hb
  simp only [Graph.mk.sizeOf_spec, Option.some.sizeOf_spec, Slot.mk.sizeOf_spec,
    Node.mk.sizeOf_spec] at *
  omega

/-- Equality of bodies, apart from the contents of nested bodies. -/
def sameShell (a b : Body) : Bool :=
  a.graph.sameShell b.graph && a.params == b.params && a.inputs == b.inputs &&
    a.outputs == b.outputs && a.control == b.control

/-- Equality of bodies, numbers being compared as numbers. -/
def same (a b : Body) : Bool :=
  a.sameShell b &&
    (a.graph.bodies.attach.zip b.graph.bodies).all fun p => same p.1.1 p.2
termination_by sizeOf a
decreasing_by
  have := sizeOf_lt_of_mem_bodies p.1.2
  rcases a with ⟨graph, params, inputs, outputs, control⟩
  simp only [mk.sizeOf_spec] at *
  omega

end Body

/-- Equality of graphs with their bodies, numbers being compared as numbers: a graph that holds a
NaN differs from itself. -/
def Graph.same (g h : Graph Body) : Bool :=
  g.sameBy Body.same h

end Dataflow
