import Dataflow.Graph.Mutate
import Dataflow.Graph.Query

/-!
# Removing nodes

Nodes that a change has made superfluous are marked as eliminated: a node whose readers are
bridged to one of its inputs, a node that nothing reads, and all nodes that lead to no output.

## Main definitions

* `Graph.bridge` : a node replaced by one of its inputs.
* `Graph.eliminateIfUnused`, `Graph.eliminateUnusedConstants` : single nodes that nothing reads.
* `Graph.eliminateDead` : everything that leads to no output.
-/

namespace Dataflow

namespace Graph

variable {β : Type}

/-- The graph in which the readers of a node's first output read one of its inputs, and the node is
eliminated; with the number of readers.  The node has to be live and to have the input. -/
def bridge (g : Graph β) (id input : Nat) : Option (Nat × Graph β) := do
  let node ← g.live? id
  let source ← node.inputs[input]?
  let (count, g) := g.redirect ⟨id, 0⟩ source
  return (count, (g.markEliminated id).2)

/-- The graph without a node, if the node is live and nothing reads it. -/
def eliminateIfUnused (g : Graph β) (id : Nat) : Bool × Graph β :=
  if g.isUnusedNode id then g.markEliminated id else (false, g)

/-- The graph without those producers of the listed values that are constants nothing reads, and
their number. -/
def eliminateUnusedConstants : List Value → Graph β → Nat × Graph β
  | [], g => (0, g)
  | v :: rest, g =>
    if g.op? v = some .constant then
      let (removed, g) := g.eliminateIfUnused v.node
      let (count, g) := eliminateUnusedConstants rest g
      (count + removed.toNat, g)
    else eliminateUnusedConstants rest g

/-- The live nodes that nothing reads, other than parameters. -/
def deadNodes (g : Graph β) : List Nat :=
  (g.liveNodes.filter fun n => n.op != .parameter && g.isUnusedNode n.id).map Node.id

/-- The graph without the listed nodes, and those that were live. -/
def eliminateAll : List Nat → Graph β → List Nat × Graph β
  | [], g => ([], g)
  | id :: rest, g =>
    let (removed, g) := g.markEliminated id
    let (more, g) := eliminateAll rest g
    (if removed then id :: more else more, g)

/-- Rounds that each remove the nodes that nothing reads, until there are none. -/
def eliminateRounds : (rounds : Nat) → Graph β → List Nat × Graph β
  | 0, g => ([], g)
  | rounds + 1, g =>
    match g.deadNodes with
    | [] => ([], g)
    | dead =>
      let (removed, g) := eliminateAll dead g
      let (more, g) := eliminateRounds rounds g
      (removed ++ more, g)

/-- The graph without the nodes that lead neither to an output nor to a parameter, and those nodes
in the order of their removal.  Every round but the last removes a node, so as many rounds as
there are slots are enough. -/
def eliminateDead (g : Graph β) : List Nat × Graph β :=
  eliminateRounds (g.slots.length + 1) g

end Graph

end Dataflow
