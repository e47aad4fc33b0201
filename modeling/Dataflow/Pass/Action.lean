import Dataflow.Graph.Prune
import Dataflow.Pass.Rule

/-!
# Stock actions

Actions that rules of any pattern can use.  Each of them takes a match and answers whether it has
changed the graph.

## Main definitions

* `Action.bridge`, `Action.forward`, `Action.replaceOp` : another value in the place of the root.
* `Action.sweep` : removal of everything that leads to no output.
* `Action.tag` : a mark on the root's node.
* `Action.answer`, `Action.fail` : an answer that does not depend on the graph.
-/

namespace Dataflow

namespace Action

variable {β : Type}

/-- The same answer for every match. -/
def answer (applied : Bool) (_ : Match) : Edit β Bool :=
  return applied

/-- The same error for every match. -/
def fail (e : Error) (_ : Match) : Edit β Bool :=
  throw e

/-- The root's node is replaced by one of its inputs. -/
def bridge (input : Nat) (m : Match) : Edit β Bool := do
  match (← get).bridge m.root.node input with
  | some (_, g) => set g; return true
  | none => return false

/-- The root is replaced by the value of a pattern node, and its node is eliminated. -/
def forward (i : Nat) (m : Match) : Edit β Bool := do
  match m.get? i with
  | none => return false
  | some v =>
    let _ ← Edit.redirect m.root v
    Edit.markEliminated m.root.node

/-- The root's node is replaced by a node of another operation with the same inputs, outputs and
attributes. -/
def replaceOp (op : Op) (m : Match) : Edit β Bool := do
  match (← get).node? m.root.node with
  | none => return false
  | some n =>
    let id ← Edit.addNode
      { op, inputs := n.inputs, outputs := n.outputs, attributes := n.attributes }
    let _ ← Edit.redirect m.root ⟨id, m.root.index⟩
    Edit.markEliminated m.root.node

/-- Everything that leads to no output is removed. -/
def sweep (_ : Match) : Edit β Bool := do
  return !(← Edit.always Graph.eliminateDead).isEmpty

/-- The root's node is given an attribute, if it does not have it. -/
def tag (name : String) (m : Match) : Edit β Bool := do
  match (← get).node? m.root.node with
  | none => return false
  | some n =>
    modify fun g => g.modifyNode m.root.node fun n =>
      { n with attributes := n.attributes.insert name (.int 1) }
    return (n.attribute? name).isNone

end Action

end Dataflow
