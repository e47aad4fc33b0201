import Dataflow.Proofs.Graph.Order
import Dataflow.Proofs.Graph.References
import Dataflow.Proofs.Graph.Specs

/-!
# The graph after compaction

Compaction empties the slots of the eliminated nodes and keeps everything that a reader of the graph
can see: the live nodes, the outputs, and the uses of every value, which are only listed in another
order.  The processing order is sorted afresh.  On a graph that has been compacted and has no cycles
it does nothing.

## Main definitions

* `Graph.Compaction` : what compaction makes of a graph.

## Main statements

* `Graph.WellKept.compact` : compaction keeps a graph well kept.
* `Graph.compaction_compact` : the account of a compaction.
-/

namespace Dataflow

namespace Graph

variable {β : Type} {g : Graph β}

/-- The compacted graph before its order is sorted. -/
def unsorted (g : Graph β) : Graph β :=
  { g with
    slots := g.slots.map compactSlot
    index := UseIndex.empty.insertAll (slotReads (g.slots.map compactSlot)) }

theorem compact_snd (g : Graph β) :
    g.compact.2 = { g.unsorted with order := g.unsorted.sortedOrder } :=
  rfl

/-! ### The uses after compaction -/

theorem mem_slotReads {slots : List (Option (Slot β))} {p : Value × Use} :
    p ∈ slotReads slots ↔ ∃ s, some s ∈ slots ∧ p ∈ s.node.reads := by
  simp only [slotReads, List.mem_flatMap]
  constructor
  · rintro ⟨s, hs, hp⟩
    cases s with
    | none => simp at hp
    | some s => exact ⟨s, hs, by simpa using hp⟩
  · rintro ⟨s, hs, hp⟩
    exact ⟨some s, hs, by simpa using hp⟩

/-- When every slot holds the node of its number, no two slots make the same use. -/
theorem nodup_slotReads {slots : List (Option (Slot β))}
    (h : ∀ (i : Nat) (s : Slot β), slots[i]? = some (some s) → s.node.id = i) :
    ((slotReads slots).map (·.2)).Nodup := by
  rw [slotReads, List.map_flatMap, List.nodup_flatMap]
  constructor
  · intro s hs
    cases s with
    | none => simp
    | some s => exact nodup_map_snd_reads s.node
  · rw [List.pairwise_iff_getElem]
    intro i j hi hj hij u hu hu'
    have node_eq : ∀ {k : Nat} (hk : k < slots.length),
        u ∈ ((slots[k].map fun s => s.node.reads).getD []).map (·.2) → u.node = k := by
      intro k hk hu
      cases hs : slots[k] with
      | none => simp [hs] at hu
      | some s =>
        rw [hs] at hu
        obtain ⟨⟨v, x⟩, hp, rfl⟩ := List.mem_map.1 hu
        have hnode := (mem_reads_iff.1 hp).1
        rw [h k s (by rw [List.getElem?_eq_getElem hk, hs])] at hnode
        exact hnode
    have := node_eq hi hu
    have := node_eq hj hu'
    omega

theorem uses_compact (g : Graph β) (v : Value) :
    g.compact.2.uses v =
      ((slotReads (g.slots.map compactSlot)).filter fun p => p.1 = v).map (·.2) := by
  simp only [uses, compact, UseIndex.uses_insertAll, UseIndex.uses_empty, List.nil_append]

theorem reads_compact {u : Use} {v : Value} : g.compact.2.Reads u v ↔ g.Reads u v := by
  simp only [Reads, live?_compact]

theorem acyclic_compact : g.compact.2.Acyclic ↔ g.Acyclic := by
  have hfeeds : g.compact.2.Feeds = g.Feeds := by
    funext a b
    simp only [Feeds, reads_compact]
  rw [Acyclic, Acyclic, hfeeds]

theorem hasNode_compact (g : Graph β) (id : Nat) :
    g.compact.2.hasNode id = (g.live? id).isSome := by
  rw [← node?_compact, node?, Option.isSome_map, hasNode]

private theorem mem_compacted_slots {s : Slot β} :
    some s ∈ g.slots.map compactSlot ↔ ∃ id, g.slot? id = some s ∧ s.eliminated = false := by
  rw [List.mem_iff_getElem?]
  refine exists_congr fun id => ?_
  have h := slot?_compact g id
  simp only [slot?, compact] at h
  constructor
  · intro hs
    rw [hs, Option.join_some] at h
    simpa [slot?, Option.filter_eq_some_iff] using h.symm
  · rintro ⟨hs, he⟩
    rw [slot?, Option.join_eq_some_iff] at hs
    simp [hs, compactSlot, he]

/-- When every slot holds the node of its number, compaction brings the order and the index of uses
into line with the slots. -/
theorem Numbered.wellKept_compact (h : g.Numbered) : g.compact.2.WellKept where
  numbered := fun id n hn => h.live (node?_compact g id ▸ hn)
  ordered := ⟨nodup_sortedOrder _, fun _ => mem_sortedOrder⟩
  indexed :=
    { tight := UseIndex.tight_insertAll UseIndex.tight_empty _
      nodup := fun v => by
        rw [uses_compact]
        refine (nodup_slotReads fun i s hs => ?_).sublist (List.filter_sublist.map _)
        have hslot : g.compact.2.slot? i = some s := by
          rw [slot?, Graph.compact, hs, Option.join_some]
        rw [slot?_compact, Option.filter_eq_some_iff] at hslot
        exact h i s.node (node?_eq_some.2 ⟨s, hslot.1, rfl⟩)
      mem_uses := fun v u => by
        rw [uses_compact, reads_compact]
        simp only [List.mem_map (f := Prod.snd), List.mem_filter, decide_eq_true_eq, mem_slotReads,
          mem_compacted_slots]
        constructor
        · rintro ⟨⟨_, _⟩, ⟨⟨s, ⟨id, hs, he⟩, hp⟩, rfl⟩, rfl⟩
          obtain ⟨hnode, hv⟩ := mem_reads_iff.1 hp
          have hid : s.node.id = id := h id s.node (node?_eq_some.2 ⟨s, hs, rfl⟩)
          exact ⟨s.node, by rw [hnode, hid]; exact live?_of_slot? hs he, hv⟩
        · rintro ⟨n, hn, hv⟩
          obtain ⟨s, hs, he, rfl⟩ := live?_eq_some.1 hn
          have hid : s.node.id = u.node := h _ s.node (node?_eq_some.2 ⟨s, hs, rfl⟩)
          exact ⟨(v, u), ⟨⟨s, ⟨u.node, hs, he⟩, mem_reads_iff.2 ⟨hid.symm, hv⟩⟩, rfl⟩, rfl⟩ }

theorem WellKept.compact (h : g.WellKept) : g.compact.2.WellKept :=
  h.numbered.wellKept_compact

/-! ### The emptied slots -/

theorem slot?_compact_eq_ite (g : Graph β) (id : Nat) :
    g.compact.2.slot? id = if g.isEliminated id = true then none else g.slot? id := by
  rw [slot?_compact, isEliminated]
  cases g.slot? id with
  | none => simp
  | some s => cases hs : s.eliminated <;> simp [Option.filter, hs]

theorem compact_fst (g : Graph β) :
    g.compact.1 = (List.range g.slots.length).countP g.isEliminated := by
  have hcount : g.compact.1 = g.slots.countP fun s => s.any Slot.eliminated := rfl
  conv at hcount => rhs; rw [slots_eq_map]
  rw [hcount, List.countP_map]
  refine List.countP_congr fun id _ => ?_
  rw [Function.comp_apply, isEliminated]
  cases g.slot? id <;> simp

/-! ### The order afterwards -/

/-- After compaction the producers that the search looks at are those that the nodes read from. -/
theorem mem_inputNodes_compact {p id : Nat} : p ∈ g.compact.2.inputNodes id ↔ g.Feeds p id := by
  rw [mem_inputNodes, node?_compact]
  constructor
  · rintro ⟨n, hn, v, hv, rfl⟩
    exact .of_mem hn hv
  · rintro ⟨u, v, ⟨n, hn, hv⟩, rfl, rfl⟩
    exact ⟨n, hn, v, List.mem_of_getElem? hv, rfl⟩

theorem Acyclic.topological_compact (h : g.Acyclic) :
    g.compact.2.Topological g.compact.2.order := by
  have hsorted := topological_sortedOrder (g := g.unsorted) fun i hi =>
    h i (Relation.TransGen.mono (fun _ _ hp => mem_inputNodes_compact.1 hp) i i hi)
  exact ⟨hsorted.nodup, hsorted.mem_iff, hsorted.follows⟩

/-- The old order stays as it is, less the nodes that are gone, if it is topological. -/
theorem order_compact_of_topological
    (h : g.compact.2.Topological (g.order.filter g.compact.2.hasNode)) :
    g.compact.2.order = g.order.filter g.compact.2.hasNode := by
  have hunsorted : g.unsorted.Topological (g.unsorted.order.filter g.unsorted.hasNode) :=
    ⟨h.nodup, h.mem_iff, h.follows⟩
  exact sortedOrder_eq_of_topological hunsorted

theorem eliminated_of_compactSlot {s : Option (Slot β)} {t : Slot β}
    (h : compactSlot s = some t) : t.eliminated = false := by
  simpa using (Option.filter_eq_some_iff.1 h).2

theorem unsorted_compact (g : Graph β) : g.compact.2.unsorted = g.compact.2 := by
  have hslots : g.compact.2.slots.map compactSlot = g.compact.2.slots := by
    rw [compact_snd, unsorted, List.map_map]
    refine List.map_congr_left fun s _ => ?_
    cases s with
    | none => rfl
    | some s => cases hs : s.eliminated <;> simp [compactSlot, Option.filter, hs]
  rw [unsorted, hslots]
  rfl

/-- Compacting a second time changes nothing in a topological order. -/
theorem compact_compact (h : g.compact.2.Topological g.compact.2.order) :
    g.compact.2.compact = (0, g.compact.2) := by
  have hstored : g.compact.2.order.filter g.compact.2.hasNode = g.compact.2.order :=
    List.filter_eq_self.2 fun id hid => (h.mem_iff id).1 hid
  have horder : g.compact.2.sortedOrder = g.compact.2.order := by
    rw [← hstored] at h
    exact (sortedOrder_eq_of_topological h).trans hstored
  have hcount : g.compact.2.compact.1 = 0 := by
    refine List.countP_eq_zero.2 fun s hs => ?_
    obtain ⟨t, -, rfl⟩ := List.mem_map.1 hs
    cases ht : compactSlot t with
    | none => simp
    | some t => simp [eliminated_of_compactSlot ht]
  refine Prod.ext hcount ?_
  rw [compact_snd, unsorted_compact, horder]

/-! ### The account of a compaction -/

/-- The graph `h` is what compaction makes of the graph `g`, with `removed` slots emptied. -/
structure Compaction (g : Graph β) (removed : Nat) (h : Graph β) : Prop where
  /-- The slots of eliminated nodes are emptied and counted; every other slot stays. -/
  slot? : ∀ id, h.slot? id = if g.isEliminated id = true then none else g.slot? id
  length_slots : h.slots.length = g.slots.length
  removed_eq : removed = (List.range g.slots.length).countP g.isEliminated
  live? : ∀ id, h.live? id = g.live? id
  outputs : h.outputs = g.outputs
  /-- The uses of a value are listed in another order at most. -/
  uses : ∀ v, (h.uses v).Perm (g.uses v)
  indexed : h.Indexed
  /-- The search along the inputs comes to an end, and the order is what it has finished. -/
  searched : ∃ met, h.Searched (g.order ++ List.range g.slots.length) ([], [])
    (met, h.order.reverse)
  nodup_order : h.order.Nodup
  mem_order : ∀ id, id ∈ h.order ↔ (g.live? id).isSome = true
  /-- Without cycles every node comes after the stored producers of its inputs. -/
  topological : g.Acyclic → h.Topological h.order
  /-- An order in which that was so before stays as it is, less the nodes that are gone. -/
  stable : h.Topological (g.order.filter fun id => (g.live? id).isSome) →
    h.order = g.order.filter fun id => (g.live? id).isSome
  /-- Without cycles a second compaction empties no slot and changes nothing. -/
  idempotent : g.Acyclic → h.compact = (0, h)

/-- **Compaction.**  Whether the graph has cycles or not, compaction empties the slots of eliminated
nodes and no others, keeps all that can be seen of the live nodes, and lists them in a new order. -/
theorem compaction_compact (hn : g.Numbered) (hi : g.Indexed) :
    g.Compaction g.compact.1 g.compact.2 := by
  have hk := hn.wellKept_compact
  have hremaining : g.compact.2.hasNode = fun id => (g.live? id).isSome :=
    funext (hasNode_compact g)
  constructor
  case slot? => exact slot?_compact_eq_ite g
  case length_slots => exact List.length_map _
  case removed_eq => exact compact_fst g
  case live? => exact live?_compact g
  case outputs => rfl
  case uses =>
    refine fun v => (List.perm_ext_iff_of_nodup (hk.indexed.nodup v) (hi.nodup v)).2 fun u => ?_
    rw [hk.indexed.mem_uses, hi.mem_uses, reads_compact]
  case indexed => exact hk.indexed
  case searched =>
    obtain ⟨met, hs⟩ := searched_sortedOrder g.unsorted
    rw [unsorted, List.length_map] at hs
    exact ⟨met, hs.setOrder _⟩
  case nodup_order => exact hk.ordered.nodup
  case mem_order =>
    intro id
    rw [hk.ordered.mem_iff, hasNode_compact]
  case topological => exact Acyclic.topological_compact
  case stable =>
    rw [← hremaining]
    exact order_compact_of_topological
  case idempotent => exact fun ha => compact_compact ha.topological_compact

/-! ### A compaction that sorts -/

/-- Four nodes, of which the last three read the first. -/
def readersSpecs : List (NodeSpec Unit) :=
  [{ op := .parameter, outputs := [.planar (.ofLengths [2]) .f32] },
    { op := .relu, inputs := [⟨0, 0⟩], outputs := [.planar (.ofLengths [2]) .f32] },
    { op := .relu, inputs := [⟨0, 0⟩], outputs := [.planar (.ofLengths [2]) .f32] },
    { op := .relu, inputs := [⟨0, 0⟩], outputs := [.planar (.ofLengths [2]) .f32] }]

/-- The third node is eliminated, and the second one reads the last one. -/
def unsortedChain : Graph Unit :=
  ((ofSpecs readersSpecs [⟨1, 0⟩]).markEliminated 2).2.rewire ⟨1, 0⟩ ⟨0, 0⟩ ⟨3, 0⟩

theorem wellKept_unsortedChain : unsortedChain.WellKept := by
  obtain ⟨hk, -, -⟩ := ofSpecs_sound readersSpecs [⟨1, 0⟩] (by decide +kernel) (by decide +kernel)
  exact (hk.markEliminated 2).rewire ⟨_, rfl, rfl⟩ ⟨3, 0⟩

/-- A node that reads a later one comes after it, and the eliminated node is gone. -/
theorem compaction_unsortedChain :
    (unsortedChain.Numbered ∧ unsortedChain.Indexed) ∧
      unsortedChain.Compaction 1 unsortedChain.compact.2 ∧
        unsortedChain.order = [0, 1, 2, 3] ∧ unsortedChain.compact.2.order = [0, 3, 1] := by
  have hk := wellKept_unsortedChain
  exact ⟨⟨hk.numbered, hk.indexed⟩, compaction_compact hk.numbered hk.indexed, by decide +kernel,
    by decide +kernel⟩

end Graph

end Dataflow
