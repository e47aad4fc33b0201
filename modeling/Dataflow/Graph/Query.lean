import Dataflow.Graph

/-!
# Questions about a graph

Nodes found by operation or name, the values of constants, the layouts of inputs, and the
references that lead nowhere.

## Main definitions

* `Graph.findOps`, `Graph.findName` : nodes with an operation or a name.
* `Graph.constant?`, `Graph.constantInts?` : the tensor of a constant value, and its entries.
* `Graph.dangling` : the values that are read and do not exist.
-/

namespace Dataflow

namespace Graph

variable {β : Type}

/-- The live nodes whose operation is in a list, in processing order. -/
def findOps (g : Graph β) (ops : List Op) : List (Node β) :=
  g.liveNodes.filter fun n => ops.contains n.op

/-- The first stored node with a name, in processing order. -/
def findName (g : Graph β) (name : String) : Option (Node β) :=
  g.nodes.find? (·.name == name)

/-- The operation that produces a value. -/
def op? (g : Graph β) (v : Value) : Option Op :=
  (g.producer? v).map Node.op

/-- The tensor of a constant value. -/
def constant? (g : Graph β) (v : Value) : Option Tensor :=
  if v.index = 0 then (g.producer? v).bind Node.constant? else none

/-- Whether a constant node produces the value. -/
def isConstant (g : Graph β) (v : Value) : Bool :=
  (g.op? v).any Op.isConstant

/-- The entries of a constant value, as signed words. -/
def constantInts? (g : Graph β) (v : Value) : Option (List Int) :=
  (g.constant? v).bind (·.toInts.toOption)

/-- The layout of an input of a stored node. -/
def inputLayout? (g : Graph β) (id input : Nat) : Option Layout :=
  (g.input? ⟨id, input⟩).bind g.layout?

def elementType? (g : Graph β) (v : Value) : Option ElementType :=
  (g.layout? v).map Layout.elementType

/-- Whether some output or input of the node has a dimension that is not known. -/
def isDynamicNode (g : Graph β) (id : Nat) : Bool :=
  match g.node? id with
  | none => false
  | some n => n.isDynamic || n.inputs.any fun v => (g.layout? v).any Layout.isDynamic

/-- The values that live nodes or the graph's outputs read although they are no outputs of live
nodes.  Neighbouring repetitions are listed once. -/
def dangling (g : Graph β) : List Value :=
  ((g.liveNodes.flatMap Node.inputs ++ g.outputs).filter (!g.hasValue ·)).eraseReps

end Graph

end Dataflow
