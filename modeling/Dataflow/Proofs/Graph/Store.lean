import Dataflow.Proofs.Graph.Slots

/-!
# What a graph keeps in step

A graph is *well kept* when its slots, its processing order and its index of uses agree: slot
number `id` holds the node `id` or nothing, the order lists every stored node once, and the index
lists, for every value, exactly the inputs of live nodes that read it.  The elementary changes keep
a graph so, and hence do all changes that are made of them.

## Main definitions

* `Graph.Reads` : a use of a live node reads a value.
* `Graph.Indexed` : the index of uses lists exactly the reads.
* `Graph.WellKept` : slots, order and index agree.

## Main statements

* `Graph.reads_push`, `Graph.reads_rewire`, `Graph.reads_markEliminated` : the reads after an
  elementary change.
* `Graph.WellKept.push`, `Graph.WellKept.rewire`, `Graph.WellKept.markEliminated` : every elementary
  change keeps a graph well kept.
-/

namespace Dataflow

namespace Graph

variable {β : Type} {g : Graph β}

/-- A live node reads the value at the given input. -/
def Reads (g : Graph β) (u : Use) (v : Value) : Prop :=
  ∃ n, g.live? u.node = some n ∧ n.inputs[u.input]? = some v

/-- Slot number `id` holds the node `id`, or nothing. -/
def Numbered (g : Graph β) : Prop :=
  ∀ id n, g.node? id = some n → n.id = id

/-- The processing order lists every stored node once. -/
structure Ordered (g : Graph β) : Prop where
  nodup : g.order.Nodup
  mem_iff : ∀ id, id ∈ g.order ↔ g.hasNode id = true

/-- The index of uses lists exactly the reads, each once, and has no empty lists. -/
structure Indexed (g : Graph β) : Prop where
  tight : g.index.Tight
  nodup : ∀ v, (g.uses v).Nodup
  mem_uses : ∀ v u, u ∈ g.uses v ↔ g.Reads u v

/-- The slots, the processing order and the index of uses agree. -/
structure WellKept (g : Graph β) : Prop where
  numbered : g.Numbered
  ordered : g.Ordered
  indexed : g.Indexed

theorem Reads.unique {u : Use} {v w : Value} (h : g.Reads u v) (h' : g.Reads u w) : v = w := by
  obtain ⟨n, hn, hv⟩ := h
  obtain ⟨m, hm, hw⟩ := h'
  obtain rfl : n = m := Option.some.inj (hn.symm.trans hm)
  exact Option.some.inj (hv.symm.trans hw)

theorem Numbered.live (h : g.Numbered) {id : Nat} {n : Node β} (hn : g.live? id = some n) :
    n.id = id :=
  h id n (node?_of_live? hn)

theorem Numbered.map_id_liveNodes (h : g.Numbered) :
    g.liveNodes.map Node.id = g.order.filter fun id => (g.live? id).isSome := by
  rw [liveNodes, List.map_filterMap, ← List.filterMap_eq_filter]
  refine List.filterMap_congr fun id _ => ?_
  cases hn : g.live? id with
  | none => simp [Option.guard, hn]
  | some n => simp [Option.guard, hn, h.live hn]

/-- The input that a listed use names. -/
theorem Indexed.input?_of_mem (h : g.Indexed) {u : Use} {v : Value} (hu : u ∈ g.uses v) :
    g.input? u = some v := by
  obtain ⟨n, hn, hv⟩ := (h.mem_uses v u).1 hu
  simp [input?, node?_of_live? hn, hv]

theorem WellKept.setOutputs (h : g.WellKept) (outputs : List Value) :
    (g.setOutputs outputs).WellKept :=
  ⟨h.numbered, ⟨h.ordered.nodup, h.ordered.mem_iff⟩,
    ⟨h.indexed.tight, h.indexed.nodup, h.indexed.mem_uses⟩⟩

/-! ### The uses that a node makes -/

theorem mem_reads_iff {n : Node β} {u : Use} {v : Value} :
    (v, u) ∈ n.reads ↔ u.node = n.id ∧ n.inputs[u.input]? = some v := by
  obtain ⟨node, input⟩ := u
  simp only [Node.reads, List.mem_map, List.mem_zipIdx_iff_getElem?, Prod.mk.injEq, Use.mk.injEq,
    Prod.exists]
  constructor
  · rintro ⟨w, i, hi, rfl, rfl, rfl⟩
    exact ⟨rfl, hi⟩
  · rintro ⟨rfl, hv⟩
    exact ⟨v, input, hv, rfl, rfl, rfl⟩

theorem nodup_map_snd_reads (n : Node β) : (n.reads.map (·.2)).Nodup := by
  have h : n.reads.map (·.2) = (List.range n.inputs.length).map fun i => (⟨n.id, i⟩ : Use) := by
    rw [Node.reads, List.map_map, List.range_eq_range', ← List.zipIdx_map_snd 0 n.inputs,
      List.map_map]
    rfl
  rw [h]
  exact List.Nodup.map (fun i j hij => (Use.mk.inj hij).2) List.nodup_range

theorem nodup_filter_reads (n : Node β) (v : Value) :
    ((n.reads.filter fun p => p.1 = v).map (·.2)).Nodup :=
  (nodup_map_snd_reads n).sublist (List.filter_sublist.map _)

/-! ### The empty graph -/

theorem not_reads_empty {u : Use} {v : Value} : ¬ (empty : Graph β).Reads u v := by
  simp [Reads]

theorem WellKept.empty : (empty : Graph β).WellKept where
  numbered := by simp [Numbered, node?]
  ordered := ⟨.nil, by simp [Graph.empty, hasNode, slot?]⟩
  indexed :=
    { tight := UseIndex.tight_empty
      nodup := fun v => .nil
      mem_uses := fun v u => ⟨fun hu => absurd hu List.not_mem_nil, fun h => absurd h not_reads_empty⟩ }

/-! ### A new node -/

theorem reads_push (g : Graph β) (spec : NodeSpec β) {u : Use} {v : Value} :
    (g.push spec).Reads u v ↔
      g.Reads u v ∨ (u.node = g.slots.length ∧ spec.inputs[u.input]? = some v) := by
  unfold Reads
  rw [live?_push]
  split
  · next h => simp [h, live?_length, NodeSpec.build]
  · next h => simp [h]

theorem uses_push (g : Graph β) (spec : NodeSpec β) (v : Value) :
    (g.push spec).uses v =
      g.uses v ++ ((spec.build g.slots.length).reads.filter fun p => p.1 = v).map (·.2) :=
  UseIndex.uses_insertAll _ _ v

theorem Numbered.push (h : g.Numbered) (spec : NodeSpec β) : (g.push spec).Numbered := by
  intro id m hm
  obtain ⟨s, hs, rfl⟩ := node?_eq_some.1 hm
  rw [slot?_push] at hs
  split at hs
  · next hid =>
    cases hs
    exact hid.symm
  · exact h id _ (node?_eq_some.2 ⟨s, hs, rfl⟩)

theorem WellKept.push (h : g.WellKept) (spec : NodeSpec β) : (g.push spec).WellKept where
  numbered := h.numbered.push spec
  ordered :=
    { nodup := by
        have hlast : g.slots.length ∉ g.order := fun hm => by
          simpa [hasNode, slot?_length] using (h.ordered.mem_iff _).1 hm
        exact List.nodup_append.2 ⟨h.ordered.nodup, List.nodup_singleton _, fun a ha b hb hab =>
          hlast (List.mem_singleton.1 hb ▸ hab ▸ ha)⟩
      mem_iff := fun id => by
        have hid := h.ordered.mem_iff id
        simp only [hasNode, slot?_push] at hid ⊢
        simp only [Graph.push, List.mem_append, List.mem_singleton, hid]
        split <;> simp_all }
  indexed :=
    { tight := UseIndex.tight_insertAll h.indexed.tight _
      nodup := fun v => by
        rw [uses_push]
        refine List.nodup_append.2 ⟨h.indexed.nodup v, nodup_filter_reads _ v, ?_⟩
        -- The new uses are of the new node, which nothing has used before.
        rintro u hu u' hu' rfl
        obtain ⟨⟨w, x⟩, hp, rfl⟩ := List.mem_map.1 hu'
        obtain ⟨hnode, -⟩ := mem_reads_iff.1 (List.mem_filter.1 hp).1
        obtain ⟨n, hn, -⟩ := (h.indexed.mem_uses v x).1 hu
        rw [hnode, NodeSpec.build, live?_length] at hn
        simp at hn
      mem_uses := fun v u => by
        rw [uses_push, List.mem_append, h.indexed.mem_uses, reads_push]
        refine or_congr_right ?_
        simp only [List.mem_map, List.mem_filter, decide_eq_true_eq, Prod.exists]
        constructor
        · rintro ⟨w, x, ⟨hp, rfl⟩, rfl⟩
          exact mem_reads_iff.1 hp
        · exact fun hu => ⟨v, u, ⟨mem_reads_iff.2 hu, rfl⟩, rfl⟩ }

/-! ### A rewired use -/

theorem uses_rewire (g : Graph β) (u : Use) (v w x : Value) :
    (g.rewire u v w).uses x =
      (if v = x then (g.uses x).filter (· != u) else g.uses x) ++ if w = x then [u] else [] :=
  UseIndex.uses_move _ u v w x

theorem reads_rewire {u : Use} {v : Value} (h : g.Reads u v) (w : Value) {u' : Use} {x : Value} :
    (g.rewire u v w).Reads u' x ↔ if u' = u then x = w else g.Reads u' x := by
  obtain ⟨n, hn, hv⟩ := h
  obtain ⟨node, input⟩ := u
  obtain ⟨node', input'⟩ := u'
  simp only at hn hv
  have hlt : input < n.inputs.length := (List.getElem?_eq_some_iff.1 hv).1
  simp only [Reads, live?_rewire, Use.mk.injEq]
  by_cases hnode : node' = node
  · subst hnode
    by_cases hinput : input' = input
    · subst hinput
      simp [hn, hlt, eq_comm]
    · simp [hn, hinput, Ne.symm hinput]
  · simp [hnode]

theorem hasNode_rewire (g : Graph β) (u : Use) (v w : Value) (id : Nat) :
    (g.rewire u v w).hasNode id = g.hasNode id := by
  simp only [hasNode, slot?_rewire]
  split <;> simp

theorem Numbered.rewire (h : g.Numbered) (u : Use) (v w : Value) : (g.rewire u v w).Numbered := by
  intro id m hm
  obtain ⟨s, hs, rfl⟩ := node?_eq_some.1 hm
  rw [slot?_rewire] at hs
  split at hs
  · obtain ⟨t, ht, rfl⟩ := Option.map_eq_some_iff.1 hs
    exact (h id t.node (node?_eq_some.2 ⟨t, ht, rfl⟩) :)
  · exact h id _ (node?_eq_some.2 ⟨s, hs, rfl⟩)

theorem WellKept.rewire (h : g.WellKept) {u : Use} {v : Value} (hu : g.Reads u v) (w : Value) :
    (g.rewire u v w).WellKept where
  numbered := h.numbered.rewire u v w
  ordered := ⟨h.ordered.nodup, fun id => by rw [hasNode_rewire]; exact h.ordered.mem_iff id⟩
  indexed :=
    { tight := UseIndex.tight_insert (UseIndex.tight_erase h.indexed.tight _ _) _ _
      nodup := fun x => by
        rw [uses_rewire]
        refine List.nodup_append.2 ⟨?_, by split <;> simp, ?_⟩
        · split
          · exact (h.indexed.nodup x).filter _
          · exact h.indexed.nodup x
        · rintro y hy z hz rfl
          split at hz
          · next hwx =>
            obtain rfl := List.mem_singleton.1 hz
            split at hy
            · simp at hy
            · next hvx => exact hvx (hu.unique ((h.indexed.mem_uses x y).1 hy))
          · simp at hz
      mem_uses := fun x u' => by
        rw [uses_rewire, reads_rewire hu, List.mem_append]
        by_cases huu : u' = u
        · subst huu
          have hnot : ¬ (u' ∈ if v = x then (g.uses x).filter (· != u') else g.uses x) := by
            split
            · simp
            · next hvx => exact fun hm => hvx (hu.unique ((h.indexed.mem_uses x u').1 hm))
          simp only [hnot, false_or, ↓reduceIte]
          split <;> simp_all [eq_comm]
        · rw [if_neg huu, ← h.indexed.mem_uses]
          split <;> split <;> simp [huu] }

/-! ### A marked node -/

theorem reads_markEliminated (g : Graph β) (i : Nat) {u : Use} {v : Value} :
    (g.markEliminated i).2.Reads u v ↔ u.node ≠ i ∧ g.Reads u v := by
  unfold Reads
  rw [live?_markEliminated]
  split <;> simp_all

theorem uses_markEliminated {i : Nat} {n : Node β} (hn : g.live? i = some n) (v : Value) :
    (g.markEliminated i).2.uses v = (g.uses v).filter fun u => !n.reads.contains (v, u) := by
  simp only [markEliminated, hn]
  exact UseIndex.uses_eraseAll _ _ v

theorem hasNode_markEliminated (g : Graph β) (i id : Nat) :
    (g.markEliminated i).2.hasNode id = g.hasNode id := by
  simp only [hasNode, slot?_markEliminated]
  split <;> simp

theorem Numbered.markEliminated (h : g.Numbered) (i : Nat) : (g.markEliminated i).2.Numbered := by
  intro id m hm
  obtain ⟨s, hs, rfl⟩ := node?_eq_some.1 hm
  rw [slot?_markEliminated] at hs
  split at hs
  · obtain ⟨t, ht, rfl⟩ := Option.map_eq_some_iff.1 hs
    exact h id _ (node?_eq_some.2 ⟨t, ht, rfl⟩)
  · exact h id _ (node?_eq_some.2 ⟨s, hs, rfl⟩)

theorem WellKept.markEliminated (h : g.WellKept) (i : Nat) : (g.markEliminated i).2.WellKept := by
  cases hn : g.live? i with
  | none =>
    rw [markEliminated_of_not_live hn]
    exact h
  | some n =>
    have hid : n.id = i := h.numbered.live hn
    refine ⟨h.numbered.markEliminated i, ⟨?_, fun id => ?_⟩, ?_, fun v => ?_, fun v u => ?_⟩
    · rw [order_markEliminated]
      exact h.ordered.nodup
    · rw [order_markEliminated, hasNode_markEliminated]
      exact h.ordered.mem_iff id
    · simp only [Graph.markEliminated, hn]
      exact UseIndex.tight_eraseAll h.indexed.tight _
    · rw [uses_markEliminated hn]
      exact (h.indexed.nodup v).filter _
    · rw [uses_markEliminated hn, List.mem_filter, h.indexed.mem_uses, reads_markEliminated,
        Bool.not_eq_true', ← Bool.not_eq_true, List.contains_iff_mem, mem_reads_iff, hid, and_comm]
      refine and_congr_left fun hu => not_congr (and_iff_left_of_imp fun hnode => ?_)
      obtain ⟨m, hm, hv⟩ := hu
      obtain rfl : m = n := Option.some.inj (hm.symm.trans (hnode ▸ hn))
      exact hv

end Graph

end Dataflow
