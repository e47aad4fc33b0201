import Dataflow.Graph

/-!
# Reachability

Breadth-first walks along the edges of a graph: forward from a node to the nodes that read its
values, or backward to the producers of its inputs.

## Main definitions

* `Direction`, `Graph.neighbours` : the edges that a walk follows.
* `Graph.walk` : the nodes that a walk meets, in the order in which it meets them.
* `Graph.successors`, `Graph.predecessors`, `Graph.hasPath` : what is reachable.
-/

namespace Dataflow

/-- The direction of a walk. -/
inductive Direction
  | forward
  | backward
deriving DecidableEq

namespace Graph

variable {β : Type}

/-- The nodes one step away.  Forward they are the nodes of the uses of the node's outputs,
backward the producers of its inputs, except those marked as eliminated. -/
def neighbours (g : Graph β) : Direction → Node β → List Nat
  | .forward, n => n.values.flatMap fun v => (g.uses v).map Use.node
  | .backward, n => (n.inputs.map Value.node).filter (!g.isEliminated ·)

/-- The entries of a list that are not in `seen`, each at its first occurrence. -/
def unseen (seen : List Nat) (l : List Nat) : List Nat :=
  (l.filter (!seen.contains ·)).eraseDups

/-- The nodes that are taken from the queue in turn, each one adding its unseen neighbours at the
end.  The walk ends at the first number that names no stored node.  Every number enters the queue
once, so as many steps as there are slots are enough. -/
def walkFrom (g : Graph β) (d : Direction) :
    (steps : Nat) → (queue seen : List Nat) → List (Node β)
  | 0, _, _ => []
  | _ + 1, [], _ => []
  | steps + 1, id :: queue, seen =>
    match g.node? id with
    | none => []
    | some n =>
      let fresh := unseen seen (g.neighbours d n)
      n :: g.walkFrom d steps (queue ++ fresh) (seen ++ fresh)

/-- The breadth-first walk from a stored node, which comes first. -/
def walk (g : Graph β) (d : Direction) (start : Nat) : List (Node β) :=
  g.walkFrom d (g.slots.length + 1) [start] [start]

/-- The nodes that a forward walk meets after its start. -/
def successors (g : Graph β) (start : Nat) : List (Node β) :=
  (g.walk .forward start).drop 1

/-- The nodes that a backward walk meets after its start. -/
def predecessors (g : Graph β) (start : Nat) : List (Node β) :=
  (g.walk .backward start).drop 1

/-- Whether a forward walk leads from one node to another; no step is needed to stay. -/
def hasPath (g : Graph β) (start goal : Nat) : Bool :=
  start == goal || (g.walk .forward start).any (·.id == goal)

end Graph

end Dataflow
