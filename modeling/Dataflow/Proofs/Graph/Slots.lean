import Dataflow.Graph.Compact
import Dataflow.Graph.Prune
import Mathlib.Data.List.Nodup
import Mathlib.Tactic.Common

/-!
# What the changes of a graph do to its slots

Every change of a graph comes down to a few elementary ones: a node pushed into a new slot, one use
rewired, one node marked, the slots compacted.  Here each of them is described by the slot that it
leaves under every number; stored and live nodes follow from the slot.

## Main statements

* `Graph.live?_eq_some` : a live node is one in a slot without a mark.
* `Graph.slot?_push`, `Graph.slot?_modifyNode`, `Graph.slot?_rewire`, `Graph.slot?_markEliminated`,
  `Graph.slot?_compact` : the slots after a change.
-/

namespace Dataflow

namespace Graph

variable {β : Type} {g : Graph β} {id : Nat} {n : Node β} {s : Slot β}

/-! ### Nodes and slots -/

theorem node?_eq_some : g.node? id = some n ↔ ∃ s, g.slot? id = some s ∧ s.node = n := by
  simp [node?]

theorem live?_eq_bind (g : Graph β) (id : Nat) :
    g.live? id = (g.slot? id).bind fun s => if s.eliminated then none else some s.node := by
  unfold live?
  cases g.slot? id <;> rfl

theorem live?_eq_some :
    g.live? id = some n ↔ ∃ s, g.slot? id = some s ∧ s.eliminated = false ∧ s.node = n := by
  rw [live?_eq_bind]
  cases h : g.slot? id with
  | none => simp
  | some s => cases he : s.eliminated <;> simp [he]

theorem live?_of_slot? (h : g.slot? id = some s) (he : s.eliminated = false) :
    g.live? id = some s.node :=
  live?_eq_some.2 ⟨s, h, he, rfl⟩

theorem node?_of_live? (h : g.live? id = some n) : g.node? id = some n := by
  obtain ⟨s, hs, -, rfl⟩ := live?_eq_some.1 h
  exact node?_eq_some.2 ⟨s, hs, rfl⟩

/-- A stored node that is not marked is live. -/
theorem live?_of_node? (h : g.node? id = some n) (he : g.isEliminated id = false) :
    g.live? id = some n := by
  obtain ⟨s, hs, rfl⟩ := node?_eq_some.1 h
  exact live?_of_slot? hs (by simpa [isEliminated, hs] using he)

theorem hasNode_of_node? (h : g.node? id = some n) : g.hasNode id = true := by
  obtain ⟨s, hs, rfl⟩ := node?_eq_some.1 h
  simp [hasNode, hs]

theorem exists_node?_of_hasNode (h : g.hasNode id = true) : ∃ n, g.node? id = some n := by
  obtain ⟨s, hs⟩ := Option.isSome_iff_exists.1 h
  exact ⟨s.node, node?_eq_some.2 ⟨s, hs, rfl⟩⟩

theorem lt_length_of_slot? (h : g.slot? id = some s) : id < g.slots.length := by
  by_contra hlt
  simp [slot?, List.getElem?_eq_none (Nat.le_of_not_lt hlt)] at h

theorem lt_length_of_live? (h : g.live? id = some n) : id < g.slots.length := by
  obtain ⟨s, hs, -, -⟩ := live?_eq_some.1 h
  exact lt_length_of_slot? hs

theorem slot?_length : g.slot? g.slots.length = none := by
  simp [slot?]

theorem slots_eq_map (g : Graph β) : g.slots = (List.range g.slots.length).map g.slot? := by
  refine List.ext_getElem? fun id => ?_
  rw [List.getElem?_map]
  by_cases hid : id < g.slots.length
  · simp [slot?, hid]
  · simp [hid]

theorem live?_length : g.live? g.slots.length = none := by
  rw [live?_eq_bind, slot?_length]
  rfl

theorem source?_eq_some {v : Value} :
    g.source? v = some n ↔ g.live? v.node = some n ∧ v.index < n.outputs.length := by
  simp [source?, Option.filter_eq_some_iff]

theorem hasValue_iff {v : Value} :
    g.hasValue v = true ↔ ∃ n, g.live? v.node = some n ∧ v.index < n.outputs.length := by
  rw [hasValue, Option.isSome_iff_exists]
  simp only [source?_eq_some]

/-! ### The empty graph -/

@[simp] theorem slot?_empty : (empty : Graph β).slot? id = none := by
  simp [slot?, empty]

@[simp] theorem live?_empty : (empty : Graph β).live? id = none := by
  simp [live?]

/-! ### A new node -/

theorem slot?_push (g : Graph β) (spec : NodeSpec β) (id : Nat) :
    (g.push spec).slot? id =
      if id = g.slots.length then some { node := spec.build g.slots.length } else g.slot? id := by
  simp only [slot?, push, List.getElem?_append]
  rcases Nat.lt_trichotomy id g.slots.length with h | h | h
  · simp [h, Nat.ne_of_lt h]
  · simp [h]
  · have hne : ¬ id < g.slots.length := by omega
    have hne' : id ≠ g.slots.length := by omega
    have hsub : id - g.slots.length ≠ 0 := by omega
    simp [hne, hne', hsub]

/-- A filled slot is not touched. -/
theorem slot?_push_of_slot? (spec : NodeSpec β) (h : g.slot? id = some s) :
    (g.push spec).slot? id = some s := by
  rwa [slot?_push, if_neg (Nat.ne_of_lt (lt_length_of_slot? h))]

theorem live?_push (g : Graph β) (spec : NodeSpec β) (id : Nat) :
    (g.push spec).live? id =
      if id = g.slots.length then some (spec.build g.slots.length) else g.live? id := by
  rw [live?_eq_bind, live?_eq_bind, slot?_push]
  split <;> rfl

/-! ### A changed node -/

theorem slot?_modifyNode (g : Graph β) (i : Nat) (f : Node β → Node β) (id : Nat) :
    (g.modifyNode i f).slot? id =
      if id = i then (g.slot? id).map fun s => { s with node := f s.node } else g.slot? id := by
  simp only [slot?, modifyNode, List.getElem?_modify]
  by_cases h : i = id
  · subst h
    cases hs : g.slots[i]? <;> simp
  · cases hs : g.slots[id]? <;> simp [h, Ne.symm h]

theorem live?_modifyNode (g : Graph β) (i : Nat) (f : Node β → Node β) (id : Nat) :
    (g.modifyNode i f).live? id =
      if id = i then (g.live? id).map f else g.live? id := by
  rw [live?_eq_bind, live?_eq_bind, slot?_modifyNode]
  split
  · cases h : g.slot? id with
    | none => rfl
    | some s => cases he : s.eliminated <;> simp [he]
  · rfl

theorem slot?_rewire (g : Graph β) (u : Use) (v w : Value) (id : Nat) :
    (g.rewire u v w).slot? id =
      if id = u.node then
        (g.slot? id).map fun s =>
          { s with node := { s.node with inputs := s.node.inputs.set u.input w } }
      else g.slot? id :=
  slot?_modifyNode g u.node (fun n => { n with inputs := n.inputs.set u.input w }) id

theorem live?_rewire (g : Graph β) (u : Use) (v w : Value) (id : Nat) :
    (g.rewire u v w).live? id =
      if id = u.node then
        (g.live? id).map fun n => { n with inputs := n.inputs.set u.input w }
      else g.live? id :=
  live?_modifyNode g u.node (fun n => { n with inputs := n.inputs.set u.input w }) id

/-! ### A marked node -/

theorem markEliminated_fst (g : Graph β) (i : Nat) :
    (g.markEliminated i).1 = (g.live? i).isSome := by
  unfold markEliminated
  cases g.live? i <;> rfl

theorem markEliminated_of_not_live (h : g.live? id = none) : g.markEliminated id = (false, g) := by
  simp [markEliminated, h]

theorem slot?_markEliminated (g : Graph β) (i id : Nat) :
    (g.markEliminated i).2.slot? id =
      if id = i then (g.slot? id).map fun s => { s with eliminated := true } else g.slot? id := by
  cases hn : g.live? i with
  | none =>
    rw [markEliminated_of_not_live hn]
    split
    · next hid =>
      subst hid
      cases hs : g.slot? id with
      | none => rfl
      | some s =>
        have he : s.eliminated = true := by
          by_contra he
          simp [live?_of_slot? hs (by simpa using he)] at hn
        simp [← he]
    · rfl
  | some n =>
    simp only [markEliminated, hn, slot?, List.getElem?_modify]
    by_cases h : i = id
    · subst h
      cases hs : g.slots[i]? <;> simp
    · cases hs : g.slots[id]? <;> simp [h, Ne.symm h]

theorem live?_markEliminated (g : Graph β) (i id : Nat) :
    (g.markEliminated i).2.live? id = if id = i then none else g.live? id := by
  rw [live?_eq_bind, live?_eq_bind, slot?_markEliminated]
  split
  · cases g.slot? id <;> simp
  · rfl

@[simp] theorem outputs_markEliminated (g : Graph β) (i : Nat) :
    (g.markEliminated i).2.outputs = g.outputs := by
  unfold markEliminated
  cases g.live? i <;> rfl

@[simp] theorem order_markEliminated (g : Graph β) (i : Nat) :
    (g.markEliminated i).2.order = g.order := by
  unfold markEliminated
  cases g.live? i <;> rfl

@[simp] theorem length_slots_markEliminated (g : Graph β) (i : Nat) :
    (g.markEliminated i).2.slots.length = g.slots.length := by
  unfold markEliminated
  cases g.live? i <;> simp

/-! ### Compaction -/

theorem slot?_compact (g : Graph β) (id : Nat) :
    g.compact.2.slot? id = (g.slot? id).filter (!·.eliminated) := by
  simp only [slot?, compact, List.getElem?_map]
  cases hs : g.slots[id]? with
  | none => rfl
  | some s => cases s <;> simp [compactSlot]

theorem live?_compact (g : Graph β) (id : Nat) : g.compact.2.live? id = g.live? id := by
  rw [live?_eq_bind, live?_eq_bind, slot?_compact]
  cases g.slot? id with
  | none => rfl
  | some s => cases he : s.eliminated <;> simp [Option.filter, he]

/-- After compaction every stored node is live. -/
theorem node?_compact (g : Graph β) (id : Nat) : g.compact.2.node? id = g.live? id := by
  rw [live?_eq_bind, node?, slot?_compact]
  cases g.slot? id with
  | none => rfl
  | some s => cases he : s.eliminated <;> simp [Option.filter, he]

end Graph

end Dataflow
