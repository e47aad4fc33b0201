import Dataflow.Graph

/-!
# Compacting a graph

Compaction empties the slots of the eliminated nodes, lists the uses of the remaining ones afresh,
and sorts the processing order so that, as far as there is no cycle, every node comes after the
nodes whose values it reads.  The sort is a depth-first search along the inputs which starts from
the nodes in their old order, so an order that is sorted already does not change.

## Main definitions

* `Graph.visit` : the search from one node.
* `Graph.sortedOrder` : the new processing order.
* `Graph.compact` : the compacted graph.
-/

namespace Dataflow

namespace Graph

variable {β : Type}

/-- The producers of the inputs of a stored node, in order. -/
def inputNodes (g : Graph β) (id : Nat) : List Nat :=
  ((g.node? id).map fun n => n.inputs.map Value.node).getD []

/-- The state of the search: the nodes met so far, and the finished ones, the last one first. -/
abbrev SearchState :=
  List Nat × List Nat

/-- Depth-first search from a node.  A node that has been met is passed over, and so is one that is
not stored; any other node is finished after the producers of its inputs.  The search is nested at
most `depth` deep, and as deep as there are slots is enough. -/
def visit (g : Graph β) : (depth : Nat) → SearchState → Nat → SearchState
  | 0, state, _ => state
  | depth + 1, (met, finished), id =>
    if met.contains id || !g.hasNode id then (met, finished)
    else
      let (met, finished) := (g.inputNodes id).foldl (g.visit depth) (id :: met, finished)
      (met, id :: finished)

/-- The stored nodes, first those of the processing order and then all of them by number, sorted by
depth-first search. -/
def sortedOrder (g : Graph β) : List Nat :=
  ((g.order ++ List.range g.slots.length).foldl (g.visit (g.slots.length + 1)) ([], [])).2.reverse

/-- The slot that remains of a slot: none if its node is eliminated. -/
def compactSlot (s : Option (Slot β)) : Option (Slot β) :=
  s.filter (!·.eliminated)

/-- The uses that the nodes of a list of slots make, slot by slot. -/
def slotReads (slots : List (Option (Slot β))) : List (Value × Use) :=
  slots.flatMap fun s => (s.map fun s => s.node.reads).getD []

/-- The compacted graph, and the number of emptied slots. -/
def compact (g : Graph β) : Nat × Graph β :=
  let slots := g.slots.map compactSlot
  let h : Graph β := { g with slots, index := UseIndex.empty.insertAll (slotReads slots) }
  (g.slots.countP fun s => s.any Slot.eliminated, { h with order := h.sortedOrder })

end Graph

end Dataflow
