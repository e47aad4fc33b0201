import Dataflow.Proofs.Graph.Steps
import Mathlib.Data.Finset.Card
import Mathlib.Order.Interval.Finset.Nat

/-!
# Counting nodes

The numbers of stored, live and marked nodes, and of the live nodes with an operation, are sizes of
sets of slot numbers.  What a change of the graph does to such a set is what it does to single nodes.

## Main definitions

* `Graph.idsWith` : the numbers of the live nodes with an operation.

## Main statements

* `Graph.nodeCount_eq_add` : a stored node is live or marked.
* `Graph.Accrues.liveCount_add` : the balance of steps without a compaction.
* `Graph.idsWith_push`, `Graph.idsWith_markEliminated` and their companions : the live nodes with an
  operation after a change.
* `Graph.WellKept.length_findOps` : the nodes with an operation, counted in the processing order.
-/

namespace Dataflow

namespace Graph

variable {β : Type} {g h : Graph β} {op : Op} {id : Nat}

/-! ### Sets of slot numbers -/

/-- The number of slots with a property is the number of their numbers. -/
theorem countP_slots (g : Graph β) (p : Option (Slot β) → Bool) :
    g.slots.countP p =
      ((Finset.range g.slots.length).filter fun id => p (g.slot? id) = true).card := by
  conv_lhs => rw [slots_eq_map]
  rw [List.countP_map, List.countP_eq_length_filter,
    ← List.toFinset_card_of_nodup (List.nodup_range.filter _)]
  congr 1
  ext id
  simp

theorem nodeCount_eq_card (g : Graph β) :
    g.nodeCount = ((Finset.range g.slots.length).filter fun id => g.hasNode id = true).card :=
  g.countP_slots Option.isSome

theorem liveCount_eq_card (g : Graph β) : g.liveCount =
    ((Finset.range g.slots.length).filter fun id => (g.live? id).isSome = true).card := by
  have hlive (id : Nat) : (g.live? id).isSome = (g.slot? id).any (!·.eliminated) := by
    rw [live?_eq_bind]
    cases g.slot? id with
    | none => rfl
    | some s => cases he : s.eliminated <;> simp [he]
  simp only [hlive]
  exact g.countP_slots fun s => s.any (!·.eliminated)

/-- The numbers of the nodes that are marked. -/
def markedIds (g : Graph β) : Finset Nat :=
  (Finset.range g.slots.length).filter fun id => g.isEliminated id = true

/-- A stored node is either live or marked. -/
theorem nodeCount_eq_add (g : Graph β) : g.nodeCount = g.liveCount + g.markedIds.card := by
  rw [nodeCount_eq_card, liveCount_eq_card, markedIds, ← Finset.card_union_of_disjoint]
  · congr 1
    ext id
    simp only [Finset.mem_union, Finset.mem_filter, Finset.mem_range, isSome_live?, ← and_or_left]
    refine and_congr_right fun _ => ?_
    have hmarked : g.isEliminated id = true → g.hasNode id = true := by
      rw [isEliminated, hasNode]
      cases g.slot? id <;> simp
    cases hs : g.hasNode id <;> cases he : g.isEliminated id <;> simp_all
  · refine Finset.disjoint_filter.2 fun id _ hlive hmarked => ?_
    simp [isSome_live?, hmarked] at hlive

theorem pendingCount_eq_card (g : Graph β) : g.pendingCount = g.markedIds.card := by
  rw [pendingCount, nodeCount_eq_add, Nat.add_sub_cancel_left]

/-! ### Live nodes -/

/-- Without a compaction every new slot holds a new node. -/
theorem Accrues.nodeCount_eq (hgh : g.Accrues h) :
    h.nodeCount = g.nodeCount + (h.slots.length - g.slots.length) := by
  rw [nodeCount_eq_card, nodeCount_eq_card, ← Nat.card_Ico, ← Finset.card_union_of_disjoint]
  · congr 1
    ext id
    have hlt : g.hasNode id = true → id < g.slots.length := lt_length_of_hasNode
    have hle := hgh.length_le
    simp only [Finset.mem_union, Finset.mem_filter, Finset.mem_range, Finset.mem_Ico, hgh.stored]
    constructor
    · rintro ⟨hid, hstored | hnew⟩
      · exact .inl ⟨hlt hstored, hstored⟩
      · exact .inr hnew
    · rintro (⟨hid, hstored⟩ | hnew)
      · exact ⟨Nat.lt_of_lt_of_le hid hle, .inl hstored⟩
      · exact ⟨hnew.2, .inr hnew⟩
  · refine Finset.disjoint_left.2 fun id hid hnew => ?_
    simp only [Finset.mem_filter, Finset.mem_range, Finset.mem_Ico] at hid hnew
    omega

theorem Accrues.pendingCount_le (hgh : g.Accrues h) : g.pendingCount ≤ h.pendingCount := by
  rw [pendingCount_eq_card, pendingCount_eq_card]
  refine Finset.card_le_card fun id hid => ?_
  simp only [markedIds, Finset.mem_filter, Finset.mem_range] at hid ⊢
  exact ⟨Nat.lt_of_lt_of_le hid.1 hgh.length_le, hgh.marked id hid.2⟩

/-- The balance of steps without a compaction: the nodes that came to be marked are those that were
live or are new, and are not live any more. -/
theorem Accrues.liveCount_add (hgh : g.Accrues h) :
    h.liveCount + (h.pendingCount - g.pendingCount) =
      g.liveCount + (h.slots.length - g.slots.length) := by
  have hnodes := hgh.nodeCount_eq
  have hpending := hgh.pendingCount_le
  have hg := g.nodeCount_eq_add
  have hh := h.nodeCount_eq_add
  rw [← pendingCount_eq_card] at hg hh
  omega

@[simp] theorem length_slots_compact (g : Graph β) :
    g.compact.2.slots.length = g.slots.length :=
  List.length_map _

@[simp] theorem liveCount_compact (g : Graph β) : g.compact.2.liveCount = g.liveCount := by
  simp only [liveCount_eq_card, live?_compact, length_slots_compact]

/-! ### Live nodes with an operation -/

/-- The numbers of the live nodes with an operation. -/
def idsWith (g : Graph β) (op : Op) : Finset Nat :=
  (Finset.range g.slots.length).filter fun id => ∃ n, g.live? id = some n ∧ n.op = op

theorem mem_idsWith : id ∈ g.idsWith op ↔ ∃ n, g.live? id = some n ∧ n.op = op := by
  simp only [idsWith, Finset.mem_filter, Finset.mem_range, and_iff_right_iff_imp]
  rintro ⟨n, hn, -⟩
  exact lt_length_of_live? hn

theorem idsWith_push (g : Graph β) (spec : NodeSpec β) (op : Op) : (g.push spec).idsWith op =
    if spec.op = op then insert g.slots.length (g.idsWith op) else g.idsWith op := by
  ext id
  rw [mem_idsWith, live?_push]
  by_cases hid : id = g.slots.length
  · have hold : g.slots.length ∉ g.idsWith op := by simp [mem_idsWith, live?_length]
    by_cases hop : spec.op = op <;> simp [hid, hop, hold, NodeSpec.build]
  · rw [if_neg hid, ← mem_idsWith]
    split <;> simp [hid]

theorem idsWith_rewire (g : Graph β) (u : Use) (v w : Value) (op : Op) :
    (g.rewire u v w).idsWith op = g.idsWith op := by
  ext id
  simp only [mem_idsWith, live?_rewire]
  split
  · cases g.live? id <;> simp
  · rfl

theorem idsWith_redirectUses (v w : Value) (us : List Use) (g : Graph β) (op : Op) :
    (redirectUses v w us g).2.idsWith op = g.idsWith op := by
  induction us generalizing g with
  | nil => rfl
  | cons u rest ih =>
    rw [redirectUses]
    split
    · exact ih g
    · exact (ih _).trans (idsWith_rewire g u v w op)

@[simp] theorem idsWith_redirect (g : Graph β) (v w : Value) (op : Op) :
    (g.redirect v w).2.idsWith op = g.idsWith op := by
  rw [redirect]
  split
  · rfl
  · exact idsWith_redirectUses v w _ g op

@[simp] theorem idsWith_markEliminated (g : Graph β) (i : Nat) (op : Op) :
    (g.markEliminated i).2.idsWith op = (g.idsWith op).erase i := by
  ext id
  rw [Finset.mem_erase, mem_idsWith, mem_idsWith, live?_markEliminated]
  split
  · next h => simp [h]
  · next h => simp [h]

@[simp] theorem idsWith_compact (g : Graph β) (op : Op) :
    g.compact.2.idsWith op = g.idsWith op := by
  ext id
  simp only [mem_idsWith, live?_compact]

theorem idsWith_eliminateAll (ids : List Nat) (g : Graph β) (op : Op) :
    (eliminateAll ids g).2.idsWith op = g.idsWith op \ ids.toFinset := by
  induction ids generalizing g with
  | nil => simp [eliminateAll]
  | cons id rest ih =>
    rw [eliminateAll, ih, idsWith_markEliminated, List.toFinset_cons, Finset.erase_sdiff_comm,
      Finset.sdiff_insert]

theorem idsWith_eliminateIfUnused_subset (g : Graph β) (id : Nat) (op : Op) :
    (g.eliminateIfUnused id).2.idsWith op ⊆ g.idsWith op := by
  rw [eliminateIfUnused]
  split
  · rw [idsWith_markEliminated]
    exact Finset.erase_subset id _
  · exact Finset.Subset.refl _

/-- The nodes that go are constants. -/
theorem idsWith_eliminateUnusedConstants (values : List Value) (g : Graph β) (hop : op ≠ .constant) :
    (eliminateUnusedConstants values g).2.idsWith op = g.idsWith op := by
  induction values generalizing g with
  | nil => rfl
  | cons v rest ih =>
    rw [eliminateUnusedConstants]
    split
    · next hconstant =>
      refine (ih _).trans ?_
      rw [eliminateIfUnused]
      split
      · refine (idsWith_markEliminated g v.node op).trans (Finset.erase_eq_of_notMem fun hv => ?_)
        obtain ⟨n, hn, hnop⟩ := mem_idsWith.1 hv
        simp only [op?, producer?, node?_of_live? hn, Option.map_some, hnop, Option.some.injEq]
          at hconstant
        exact hop hconstant
      · rfl
    · exact ih g

/-- In the processing order the live nodes with an operation come up once each. -/
theorem WellKept.length_findOps (hg : g.WellKept) (op : Op) :
    (g.findOps [op]).length = (g.idsWith op).card := by
  have hnodup : (g.order.filter fun id => (g.live? id).any (·.op == op)).Nodup :=
    hg.ordered.nodup.filter _
  have hset : (g.order.filter fun id => (g.live? id).any (·.op == op)).toFinset = g.idsWith op := by
    ext id
    simp only [List.mem_toFinset, List.mem_filter, mem_idsWith, Option.any_eq_true, beq_iff_eq]
    refine ⟨fun h => h.2, fun h => ⟨?_, h⟩⟩
    obtain ⟨n, hn, -⟩ := h
    exact (hg.ordered.mem_iff id).2 (hasNode_of_node? (node?_of_live? hn))
  rw [← hset, List.toFinset_card_of_nodup hnodup, findOps, liveNodes,
    ← List.countP_eq_length_filter, ← List.countP_eq_length_filter, List.countP_filterMap]
  refine List.countP_congr fun id _ => ?_
  cases g.live? id <;> simp

end Graph

end Dataflow
