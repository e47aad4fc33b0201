import Dataflow.Node
import Dataflow.UseIndex

/-!
# Dataflow graphs

A graph holds its nodes in numbered slots, so that a number never names two nodes.  A node that is
taken out of the graph is first marked as eliminated and keeps its slot; the slot is emptied later,
when the graph is compacted.  A node that is stored and not marked is *live*.

Beside the nodes a graph keeps an index of uses, an order in which the nodes are processed, and the
list of its outputs.

## Main definitions

* `Slot`, `Graph` : a stored node with its mark, and the graph.
* `Graph.node?`, `Graph.live?` : the stored node and the live node with a number.
* `Graph.layout?` : the declared layout of a value.
* `Graph.hasValue` : whether a value is an output of a live node.
* `Graph.uses` : the uses of a value.
-/

namespace Dataflow

/-- A stored node, with the mark of the nodes that are on their way out. -/
structure Slot (β : Type) where
  node : Node β
  eliminated : Bool := false

/-- A dataflow graph whose loop nodes carry bodies of type `β`. -/
structure Graph (β : Type) where
  slots : List (Option (Slot β))
  index : UseIndex
  /-- The numbers of the stored nodes, in the order in which they are processed. -/
  order : List Nat
  outputs : List Value

namespace Graph

variable {β : Type}

/-- The graph without nodes. -/
def empty : Graph β :=
  ⟨[], .empty, [], []⟩

instance : Inhabited (Graph β) :=
  ⟨empty⟩

/-! ### Nodes -/

/-- The slot of a stored node. -/
def slot? (g : Graph β) (id : Nat) : Option (Slot β) :=
  (g.slots[id]?).join

/-- The stored node with a number. -/
def node? (g : Graph β) (id : Nat) : Option (Node β) :=
  (g.slot? id).map Slot.node

/-- The live node with a number. -/
def live? (g : Graph β) (id : Nat) : Option (Node β) :=
  match g.slot? id with
  | some s => if s.eliminated then none else some s.node
  | none => none

def hasNode (g : Graph β) (id : Nat) : Bool :=
  (g.slot? id).isSome

/-- Whether the node is stored and marked as eliminated. -/
def isEliminated (g : Graph β) (id : Nat) : Bool :=
  ((g.slot? id).map Slot.eliminated).getD false

/-- The stored nodes, in processing order. -/
def nodes (g : Graph β) : List (Node β) :=
  g.order.filterMap g.node?

/-- The live nodes, in processing order. -/
def liveNodes (g : Graph β) : List (Node β) :=
  g.order.filterMap g.live?

/-- The number of stored nodes. -/
def nodeCount (g : Graph β) : Nat :=
  g.slots.countP Option.isSome

/-- The number of live nodes. -/
def liveCount (g : Graph β) : Nat :=
  g.slots.countP fun s => s.any (!·.eliminated)

/-- The number of nodes that are marked but still stored. -/
def pendingCount (g : Graph β) : Nat :=
  g.nodeCount - g.liveCount

/-! ### Values -/

/-- The stored node that produces a value. -/
def producer? (g : Graph β) (v : Value) : Option (Node β) :=
  g.node? v.node

/-- The declared layout of a value of a stored node. -/
def layout? (g : Graph β) (v : Value) : Option Layout :=
  (g.producer? v).bind (·.outputs[v.index]?)

/-- The live node that has the value as an output. -/
def source? (g : Graph β) (v : Value) : Option (Node β) :=
  (g.live? v.node).filter fun n => v.index < n.outputs.length

/-- Whether the value is an output of a live node. -/
def hasValue (g : Graph β) (v : Value) : Bool :=
  (g.source? v).isSome

/-- The value that a use reads. -/
def input? (g : Graph β) (u : Use) : Option Value :=
  (g.node? u.node).bind (·.inputs[u.input]?)

/-- The uses of a value, oldest first. -/
def uses (g : Graph β) (v : Value) : List Use :=
  g.index.uses v

/-- The stored nodes that use a value, once for every use. -/
def users (g : Graph β) (v : Value) : List (Node β) :=
  (g.uses v).filterMap fun u => g.node? u.node

/-- Whether the value is an output of the graph. -/
def isOutputValue (g : Graph β) (v : Value) : Bool :=
  g.outputs.contains v

/-- Whether some output of the graph is a value of the node. -/
def isOutputNode (g : Graph β) (id : Nat) : Bool :=
  g.outputs.any (·.node == id)

/-- Whether nothing reads the value: no use and no output of the graph. -/
def isUnused (g : Graph β) (v : Value) : Bool :=
  !g.isOutputValue v && (g.uses v).isEmpty

/-- Whether nothing reads any value of the node; so it is of a number that names no node. -/
def isUnusedNode (g : Graph β) (id : Nat) : Bool :=
  match g.node? id with
  | some n => n.values.all g.isUnused
  | none => true

/-! ### Bodies -/

/-- The bodies of the stored nodes, slot by slot. -/
def bodies (g : Graph β) : List β :=
  g.slots.filterMap fun s => s.bind (·.node.body)

theorem mem_bodies {g : Graph β} {b : β} :
    b ∈ g.bodies ↔ ∃ s, some s ∈ g.slots ∧ s.node.body = some b := by
  simp only [bodies, List.mem_filterMap]
  constructor
  · rintro ⟨s, hs, hb⟩
    cases s with
    | none => simp at hb
    | some s => exact ⟨s, hs, by simpa using hb⟩
  · rintro ⟨s, hs, hb⟩
    exact ⟨some s, hs, by simpa using hb⟩

/-- Equality of slots, apart from the contents of bodies. -/
def sameSlot {γ : Type} : Option (Slot β) → Option (Slot γ) → Bool
  | none, none => true
  | some s, some t => s.eliminated == t.eliminated && s.node.sameShell t.node
  | _, _ => false

/-- Equality of graphs, apart from the contents of bodies. -/
def sameShell {γ : Type} (g : Graph β) (h : Graph γ) : Bool :=
  g.slots.length == h.slots.length && (g.slots.zip h.slots).all (fun p => sameSlot p.1 p.2) &&
    g.index == h.index && g.order == h.order && g.outputs == h.outputs

/-- Equality of graphs, bodies being compared by `same`.  When the shells agree, so do the places
of the bodies. -/
def sameBy (same : β → β → Bool) (g h : Graph β) : Bool :=
  g.sameShell h && (g.bodies.zip h.bodies).all fun p => same p.1 p.2

end Graph

end Dataflow
