import Dataflow.Attribute
import Dataflow.Layout
import Dataflow.Op
import Dataflow.Value

/-!
# Nodes

A node performs an operation on the values of its inputs.  A loop node also carries a body, whose
type `β` is left open here: a body holds a graph of nodes in turn.

## Main definitions

* `NodeSpec` : what is said about a node before it has a place in a graph.
* `Node` : a node with its name in the graph.
* `NodeSpec.build` : the node of a specification, named after its operation by default.
-/

namespace Dataflow

/-- The description of a node that is to be added to a graph. -/
structure NodeSpec (β : Type) where
  op : Op
  name : Option String := none
  inputs : List Value := []
  outputs : List Layout := []
  attributes : Attributes := .empty
  /-- The number of further operations that the node performs on its result. -/
  fused : Nat := 0
  kernel : Kernel := .any
  body : Option β := none

/-- A node of a graph. -/
structure Node (β : Type) where
  id : Nat
  name : String
  op : Op
  /-- The values that the node reads. -/
  inputs : List Value
  /-- The declared layouts of the values that the node produces. -/
  outputs : List Layout
  attributes : Attributes
  /-- The number of further operations that the node performs on its result. -/
  fused : Nat
  kernel : Kernel
  /-- Whether the node may be skipped when the graph runs. -/
  skippable : Bool
  body : Option β

variable {β : Type}

/-- The name of a node that is given none: its operation in lower case, and its number. -/
def defaultName (op : Op) (id : Nat) : String :=
  op.name.toLower ++ "_" ++ Nat.repr id

/-- The node of a description. -/
def NodeSpec.build (spec : NodeSpec β) (id : Nat) : Node β where
  id := id
  name := spec.name.getD (defaultName spec.op id)
  op := spec.op
  inputs := spec.inputs
  outputs := spec.outputs
  attributes := spec.attributes
  fused := spec.fused
  kernel := spec.kernel
  skippable := false
  body := spec.body

namespace Node

/-- Output number `index` of the node, as a value. -/
def output (n : Node β) (index : Nat) : Value :=
  ⟨n.id, index⟩

/-- The values that the node produces. -/
def values (n : Node β) : List Value :=
  (List.range n.outputs.length).map n.output

/-- The uses that the node makes of other nodes, each with the value it reads. -/
def reads (n : Node β) : List (Value × Use) :=
  n.inputs.zipIdx.map fun p => (p.1, ⟨n.id, p.2⟩)

/-- Whether the layout of some output leaves a dimension unknown. -/
def isDynamic (n : Node β) : Bool :=
  n.outputs.any Layout.isDynamic

def isFused (n : Node β) : Bool :=
  decide (0 < n.fused)

def attribute? (n : Node β) (name : String) : Option Attribute :=
  n.attributes.get? name

/-- The value of an integer attribute. -/
def int? (n : Node β) (name : String) : Option Int :=
  match n.attribute? name with
  | some (.int i) => some i
  | _ => none

/-- The value of a string attribute. -/
def str? (n : Node β) (name : String) : Option String :=
  match n.attribute? name with
  | some (.str s) => some s
  | _ => none

/-- The value of an attribute that lists integers. -/
def ints? (n : Node β) (name : String) : Option (List Int) :=
  match n.attribute? name with
  | some (.ints l) => some l
  | _ => none

/-- The tensor of a constant node. -/
def constant? (n : Node β) : Option Tensor :=
  if n.op.isConstant then
    match n.attribute? "value" with
    | some (.tensor t) => some t
    | _ => none
  else none

/-- Equality of nodes, apart from the contents of their bodies. -/
def sameShell {γ : Type} (n : Node β) (m : Node γ) : Bool :=
  n.id == m.id && n.name == m.name && n.op == m.op && n.inputs == m.inputs &&
    n.outputs == m.outputs && n.attributes.same m.attributes && n.fused == m.fused &&
    n.kernel == m.kernel && n.skippable == m.skippable && n.body.isSome == m.body.isSome

end Node

end Dataflow
