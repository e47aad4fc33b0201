import Dataflow.Graph.Query
import Dataflow.Proofs.Graph.Store
import Mathlib.Data.Fintype.EquivFin
import Mathlib.Logic.Relation

/-!
# References between nodes

Live nodes read values of other nodes.  A reference dangles when there is no such value, and a graph
is acyclic when following the references from a node never leads back to it.

## Main definitions

* `Graph.Feeds`, `Graph.Acyclic` : one reference between nodes, and the graphs without cycles.
* `Graph.NoDangling` : every value that is read exists.

## Main statements

* `Graph.dangling_eq_nil_iff` : the list of dangling references decides it.
* `Graph.Acyclic.wellFounded`, `Graph.Acyclic.wellFounded_flip` : references cannot be followed for
  ever, neither back nor forth.
-/

namespace Dataflow

namespace Graph

variable {β : Type} {g : Graph β} {a b c : Nat} {u : Use} {v : Value} {n : Node β}

/-- The live node `b` reads a value of the node `a`. -/
def Feeds (g : Graph β) (a b : Nat) : Prop :=
  ∃ u v, g.Reads u v ∧ u.node = b ∧ v.node = a

/-- No node reads from itself, directly or through others. -/
def Acyclic (g : Graph β) : Prop :=
  ∀ id, ¬ Relation.TransGen g.Feeds id id

/-- Everything that live nodes or the graph's outputs read is an output of a live node. -/
structure NoDangling (g : Graph β) : Prop where
  reads : ∀ ⦃u v⦄, g.Reads u v → g.hasValue v = true
  outputs : ∀ v ∈ g.outputs, g.hasValue v = true

theorem reads_of_mem (hn : g.live? a = some n) (hv : v ∈ n.inputs) :
    ∃ u, g.Reads u v ∧ u.node = a := by
  obtain ⟨i, hi⟩ := List.mem_iff_getElem?.1 hv
  exact ⟨⟨a, i⟩, ⟨n, hn, hi⟩, rfl⟩

theorem Feeds.of_mem (hn : g.live? b = some n) (hv : v ∈ n.inputs) : g.Feeds v.node b := by
  obtain ⟨u, hu, rfl⟩ := reads_of_mem hn hv
  exact ⟨u, v, hu, rfl, rfl⟩

theorem Reads.feeds (h : g.Reads u v) : g.Feeds v.node u.node :=
  ⟨u, v, h, rfl, rfl⟩

theorem Feeds.exists_live? (h : g.Feeds a b) : ∃ n, g.live? b = some n := by
  obtain ⟨u, v, ⟨n, hn, -⟩, rfl, -⟩ := h
  exact ⟨n, hn⟩

theorem Feeds.lt_length (h : g.Feeds a b) : b < g.slots.length := by
  obtain ⟨n, hn⟩ := h.exists_live?
  exact lt_length_of_live? hn

/-- Fewer references make no cycle. -/
theorem Acyclic.mono {h : Graph β} (ha : g.Acyclic) (hsub : ∀ ⦃a b⦄, h.Feeds a b → g.Feeds a b) :
    h.Acyclic :=
  fun id hid => ha id (Relation.TransGen.mono (fun _ _ hab => hsub hab) id id hid)

theorem Acyclic.not_feeds_self (h : g.Acyclic) : ¬ g.Feeds a a :=
  fun haa => h a (.single haa)

theorem Acyclic.not_feeds_two (h : g.Acyclic) (hab : g.Feeds a b) : ¬ g.Feeds b a :=
  fun hba => h a (.tail (.single hab) hba)

/-- Numbers that grow along every reference exclude cycles. -/
theorem Acyclic.of_rank (rank : Nat → Nat) (h : ∀ a b, g.Feeds a b → rank a < rank b) :
    g.Acyclic := by
  have hlt : ∀ a b, Relation.TransGen g.Feeds a b → rank a < rank b := by
    intro a b hab
    induction hab with
    | single hab => exact h _ _ hab
    | tail _ hbc ih => exact Nat.lt_trans ih (h _ _ hbc)
  exact fun id hid => Nat.lt_irrefl _ (hlt id id hid)

/-- Without cycles, following references backward comes to an end. -/
theorem Acyclic.wellFounded (h : g.Acyclic) : WellFounded g.Feeds := by
  let r : Fin g.slots.length → Fin g.slots.length → Prop := fun i j =>
    Relation.TransGen g.Feeds i j
  have : IsTrans _ r := ⟨fun _ _ _ => Relation.TransGen.trans⟩
  have : Std.Irrefl r := ⟨fun i => h i⟩
  have hr : WellFounded r := Finite.wellFounded_of_trans_of_irrefl r
  -- A node without a slot reads nothing, and there are only so many slots.
  have hfree : ∀ b, ¬ b < g.slots.length → Acc g.Feeds b := fun b hb =>
    .intro b fun a hab => absurd hab.lt_length hb
  have hslots : ∀ b : Fin g.slots.length, Acc g.Feeds b := by
    intro b
    induction b using hr.induction with
    | _ b ih =>
      refine .intro _ fun a hab => ?_
      by_cases ha : a < g.slots.length
      · exact ih ⟨a, ha⟩ (.single hab)
      · exact hfree a ha
  refine ⟨fun b => ?_⟩
  by_cases hb : b < g.slots.length
  · exact hslots ⟨b, hb⟩
  · exact hfree b hb

/-- Without cycles, following references forward comes to an end, too. -/
theorem Acyclic.wellFounded_flip (h : g.Acyclic) : WellFounded (flip g.Feeds) := by
  let r : Fin g.slots.length → Fin g.slots.length → Prop := fun i j =>
    Relation.TransGen g.Feeds j i
  have : IsTrans _ r := ⟨fun _ _ _ hij hjk => Relation.TransGen.trans hjk hij⟩
  have : Std.Irrefl r := ⟨fun i => h i⟩
  have hr : WellFounded r := Finite.wellFounded_of_trans_of_irrefl r
  have hslots : ∀ a : Fin g.slots.length, Acc (flip g.Feeds) a := by
    intro a
    induction a using hr.induction with
    | _ a ih => exact .intro _ fun b hab => ih ⟨b, hab.lt_length⟩ (.single hab)
  exact ⟨fun a => .intro a fun b hab => hslots ⟨b, hab.lt_length⟩⟩

/-- The uses of a value are the references to it. -/
theorem Indexed.uses_eq_nil_iff (h : g.Indexed) : g.uses v = [] ↔ ∀ u, ¬ g.Reads u v := by
  rw [List.eq_nil_iff_forall_not_mem]
  exact forall_congr' fun u => not_congr (h.mem_uses v u)

theorem Indexed.isUnused_iff (h : g.Indexed) :
    g.isUnused v = true ↔ v ∉ g.outputs ∧ ∀ u, ¬ g.Reads u v := by
  simp [isUnused, isOutputValue, h.uses_eq_nil_iff]

private theorem eraseRepsBy_loop_ne_nil (v : Value) (l kept : List Value) :
    List.eraseRepsBy.loop (· == ·) v l kept ≠ [] := by
  induction l generalizing v kept with
  | nil => simp [List.eraseRepsBy.loop]
  | cons w l ih =>
    rw [List.eraseRepsBy.loop]
    split
    · exact ih v kept
    · exact ih w (v :: kept)

private theorem eraseReps_eq_nil {l : List Value} : l.eraseReps = [] ↔ l = [] := by
  cases l with
  | nil => exact iff_of_true rfl rfl
  | cons v l => exact iff_of_false (eraseRepsBy_loop_ne_nil v l []) (List.cons_ne_nil v l)

/-- The listed dangling references are all that there are. -/
theorem dangling_eq_nil_iff (h : g.Ordered) : g.dangling = [] ↔ g.NoDangling := by
  rw [dangling, eraseReps_eq_nil, List.filter_eq_nil_iff]
  simp only [List.mem_append, List.mem_flatMap, liveNodes, List.mem_filterMap, Bool.not_eq_true',
    Bool.not_eq_false]
  constructor
  · intro hall
    refine ⟨fun u v hu => ?_, fun v hv => hall v (.inr hv)⟩
    obtain ⟨n, hn, hv⟩ := hu
    have hstored : u.node ∈ g.order :=
      (h.mem_iff _).2 (hasNode_of_node? (node?_of_live? hn))
    exact hall v (.inl ⟨n, ⟨u.node, hstored, hn⟩, List.mem_of_getElem? hv⟩)
  · rintro hd v (⟨n, ⟨id, -, hn⟩, hv⟩ | hv)
    · obtain ⟨u, hu, -⟩ := reads_of_mem hn hv
      exact hd.reads hu
    · exact hd.outputs v hv

end Graph

end Dataflow
