import Dataflow.Error
import Dataflow.Graph

/-!
# Changing a graph

Adding nodes, rewiring their inputs, and marking nodes as eliminated.  Every change keeps the index
of uses in step with the inputs of the live nodes.

## Main definitions

* `Graph.addNode`, `Graph.addParameter`, `Graph.addConstant` : new nodes.
* `Graph.setInput` : a new value for one input.
* `Graph.redirect` : another value in the place of a value, wherever it is read.
* `Graph.markEliminated` : the first step of removal.
-/

namespace Dataflow

namespace Graph

variable {β : Type}

/-- The graph with `f` applied to a stored node.  The index of uses is left as it is. -/
def modifyNode (g : Graph β) (id : Nat) (f : Node β → Node β) : Graph β :=
  { g with slots := g.slots.modify id (Option.map fun s => { s with node := f s.node }) }

/-! ### New nodes -/

/-- The graph with the node of a description in a new slot, at the end of the order. -/
def push (g : Graph β) (spec : NodeSpec β) : Graph β :=
  let node := spec.build g.slots.length
  { g with
    slots := g.slots ++ [some { node }]
    index := g.index.insertAll node.reads
    order := g.order ++ [g.slots.length] }

/-- The first error among values that have to be outputs of live nodes. -/
def checkValues (g : Graph β) : List Value → Except Error Unit
  | [] => .ok ()
  | v :: rest => if g.hasValue v then g.checkValues rest else .error (.invalidNode v.node)

/-- The graph with a new node, and the node's number.  Its inputs have to be outputs of live
nodes. -/
def addNode (g : Graph β) (spec : NodeSpec β) : Except Error (Nat × Graph β) := do
  g.checkValues spec.inputs
  return (g.slots.length, g.push spec)

/-- The graph with a new parameter, and the parameter's value. -/
def addParameter (g : Graph β) (name : String) (layout : Layout) : Value × Graph β :=
  (⟨g.slots.length, 0⟩, g.push { op := .parameter, name, outputs := [layout] })

/-- The description of a constant node. -/
def constantSpec (name : String) (data : Tensor) : NodeSpec β where
  op := .constant
  name := name
  outputs := [.planar data.partialShape data.elementType]
  attributes := Attributes.empty.insert "value" (.tensor data)

/-- The graph with a new constant, and the constant's value. -/
def addConstant (g : Graph β) (name : String) (data : Tensor) : Value × Graph β :=
  (⟨g.slots.length, 0⟩, g.push (constantSpec name data))

/-! ### Outputs -/

def setOutputs (g : Graph β) (outputs : List Value) : Graph β :=
  { g with outputs }

def addOutput (g : Graph β) (v : Value) : Graph β :=
  { g with outputs := g.outputs ++ [v] }

/-! ### Inputs -/

/-- The graph in which the use `u` reads `w` where it read `v`. -/
def rewire (g : Graph β) (u : Use) (v w : Value) : Graph β :=
  { g.modifyNode u.node fun n => { n with inputs := n.inputs.set u.input w } with
    index := g.index.move u v w }

/-- The graph with a new value for an input of a stored node.  The value has to be an output of a
live node. -/
def setInput (g : Graph β) (id input : Nat) (v : Value) : Except Error (Graph β) :=
  if g.hasValue v then
    match g.node? id with
    | none => .error (.invalidNode id)
    | some n =>
      match n.inputs[input]? with
      | none => .error (.internal (.noInput id input))
      | some old => .ok (g.rewire ⟨id, input⟩ old v)
  else .error (.invalidNode v.node)

/-- The graph in which the listed uses of `v` read `w`, and the number of them.  A use that names
no input of a stored node is passed over. -/
def redirectUses (v w : Value) : List Use → Graph β → Nat × Graph β
  | [], g => (0, g)
  | u :: rest, g =>
    match g.input? u with
    | none => redirectUses v w rest g
    | some _ =>
      let (count, g) := redirectUses v w rest (g.rewire u v w)
      (count + 1, g)

/-- The graph in which everything that read `v` reads `w`, the inputs of the producer of `w`
excepted, and the number of readers that changed. -/
def redirect (g : Graph β) (v w : Value) : Nat × Graph β :=
  if v = w then (0, g)
  else
    let (count, g) := redirectUses v w ((g.uses v).filter (·.node != w.node)) g
    (count + g.outputs.count v, { g with outputs := g.outputs.map fun o => if o = v then w else o })

/-! ### Removal -/

/-- The graph in which a live node is marked as eliminated and uses nothing, and whether there was
such a node. -/
def markEliminated (g : Graph β) (id : Nat) : Bool × Graph β :=
  match g.live? id with
  | none => (false, g)
  | some n =>
    (true, { g with
      slots := g.slots.modify id (Option.map fun s => { s with eliminated := true })
      index := g.index.eraseAll n.reads })

end Graph

end Dataflow
