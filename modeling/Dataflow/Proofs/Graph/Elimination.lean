import Dataflow.Proofs.Graph.Changes

/-!
# What becomes of an eliminated node

A node that has been marked as eliminated stays so: no step makes it live again, no step gives its
number to another node, and its slot holds what it held, the inputs excepted, until it is emptied.

Marking a node takes its uses out of the index.  One step puts such a use back: setting an input
asks only whether the node is stored, and then lists the use that it has set.  Such uses are the
only ones of an eliminated node, and they are listed until the graph is compacted.

## Main definitions

* `Graph.Traceable` : every listed use is an input of a stored node.
* `Graph.Uses` : a use of the node is listed for some value.
* `Graph.Gone` : the slot of a node is empty or holds the node with a mark.

## Main statements

* `Graph.Traceable.run` : every step keeps the listed uses traceable.
* `Change.uses_runAll_iff` : which runs list a use of a node that is not live.
* `Change.eliminated_runAll` : what becomes of an eliminated node.
-/

namespace Dataflow

variable {β : Type}

namespace Graph

variable {g : Graph β} {n : Nat}

/-! ### Uses that can be traced -/

/-- Slots hold the nodes of their numbers, and every listed use is, once, an input of a stored node
that holds the value.  The node may be marked as eliminated. -/
structure Traceable (g : Graph β) : Prop where
  numbered : g.Numbered
  nodup : ∀ v, (g.uses v).Nodup
  input? : ∀ v, ∀ u ∈ g.uses v, g.input? u = some v

theorem WellKept.traceable (h : g.WellKept) : g.Traceable :=
  ⟨h.numbered, h.indexed.nodup, fun _ _ hu => h.indexed.input?_of_mem hu⟩

theorem input?_eq_some {u : Use} {v : Value} :
    g.input? u = some v ↔ ∃ s, g.slot? u.node = some s ∧ s.node.inputs[u.input]? = some v := by
  rw [input?, node?]
  cases g.slot? u.node <;> simp

theorem input?_push_of_some {u : Use} {v : Value} (spec : NodeSpec β) (h : g.input? u = some v) :
    (g.push spec).input? u = some v := by
  obtain ⟨s, hs, hv⟩ := input?_eq_some.1 h
  exact input?_eq_some.2 ⟨s, slot?_push_of_slot? spec hs, hv⟩

theorem input?_rewire {u : Use} {v : Value} (h : g.input? u = some v) (w : Value) (u' : Use) :
    (g.rewire u v w).input? u' = if u' = u then some w else g.input? u' := by
  obtain ⟨s, hs, hv⟩ := input?_eq_some.1 h
  obtain ⟨node, input⟩ := u
  obtain ⟨node', input'⟩ := u'
  have hlt : input < s.node.inputs.length := (List.getElem?_eq_some_iff.1 hv).1
  simp only [input?, node?, slot?_rewire, Use.mk.injEq]
  by_cases hnode : node' = node
  · subst hnode
    by_cases hinput : input' = input
    · subst hinput
      simp [hs, hlt]
    · simp [hs, hinput, Ne.symm hinput]
  · simp [hnode]

theorem input?_markEliminated (g : Graph β) (i : Nat) (u : Use) :
    (g.markEliminated i).2.input? u = g.input? u := by
  simp only [input?, node?, slot?_markEliminated]
  split
  · cases g.slot? u.node <;> rfl
  · rfl

namespace Traceable

theorem setOutputs (h : g.Traceable) (outputs : List Value) : (g.setOutputs outputs).Traceable :=
  ⟨h.numbered, h.nodup, h.input?⟩

theorem push (h : g.Traceable) (spec : NodeSpec β) : (g.push spec).Traceable where
  numbered := h.numbered.push spec
  nodup := fun v => by
    rw [uses_push]
    refine List.nodup_append.2 ⟨h.nodup v, nodup_filter_reads _ v, ?_⟩
    -- The new uses are of the new node, which is in no slot before.
    rintro u hu u' hu' rfl
    obtain ⟨⟨w, x⟩, hp, rfl⟩ := List.mem_map.1 hu'
    have hnode : x.node = g.slots.length := (mem_reads_iff.1 (List.mem_filter.1 hp).1).1
    obtain ⟨s, hs, -⟩ := input?_eq_some.1 (h.input? v x hu)
    rw [hnode, slot?_length] at hs
    simp at hs
  input? := fun v u hu => by
    rw [uses_push, List.mem_append] at hu
    obtain hu | hu := hu
    · exact input?_push_of_some spec (h.input? v u hu)
    · obtain ⟨⟨w, x⟩, hp, rfl⟩ := List.mem_map.1 hu
      obtain ⟨hread, hwv⟩ := List.mem_filter.1 hp
      obtain rfl : w = v := of_decide_eq_true hwv
      obtain ⟨hnode, hw⟩ := mem_reads_iff.1 hread
      exact input?_eq_some.2 ⟨_, (slot?_push g spec x.node).trans (if_pos hnode), hw⟩

/-- An input that is set is listed for its new value, and for no other. -/
theorem rewire (h : g.Traceable) {u : Use} {v : Value} (hu : g.input? u = some v) (w : Value) :
    (g.rewire u v w).Traceable where
  numbered := h.numbered.rewire u v w
  nodup := fun x => by
    rw [uses_rewire]
    refine List.nodup_append.2 ⟨?_, by split <;> simp, ?_⟩
    · split
      · exact (h.nodup x).filter _
      · exact h.nodup x
    · rintro y hy z hz rfl
      split at hz
      · obtain rfl := List.mem_singleton.1 hz
        split at hy
        · simp at hy
        · next hvx => exact hvx (Option.some.inj (hu.symm.trans (h.input? x y hy)))
      · simp at hz
  input? := fun x u' hu' => by
    rw [input?_rewire hu]
    rw [uses_rewire, List.mem_append] at hu'
    obtain hold | hnew := hu'
    · have hne : u' ≠ u := by
        rintro rfl
        split at hold
        · simp at hold
        · next hvx => exact hvx (Option.some.inj (hu.symm.trans (h.input? x u' hold)))
      rw [if_neg hne]
      split at hold
      · exact h.input? x u' (List.mem_filter.1 hold).1
      · exact h.input? x u' hold
    · split at hnew
      · next hwx => rw [if_pos (List.mem_singleton.1 hnew), hwx]
      · simp at hnew

theorem markEliminated (h : g.Traceable) (i : Nat) : (g.markEliminated i).2.Traceable := by
  cases hi : g.live? i with
  | none =>
    rw [markEliminated_of_not_live hi]
    exact h
  | some node =>
    refine ⟨h.numbered.markEliminated i, fun v => ?_, fun v u hu => ?_⟩
    · rw [uses_markEliminated hi]
      exact (h.nodup v).filter _
    · rw [input?_markEliminated]
      rw [uses_markEliminated hi] at hu
      exact h.input? v u (List.mem_filter.1 hu).1

/-- What pushing, rewiring a listed use and marking keep is kept by redirecting a value. -/
theorem redirect_induction {P : Graph β → Prop}
    (hrewire : ∀ (g : Graph β) (u : Use) (v w : Value), g.Traceable → u ∈ g.uses v → P g →
      P (g.rewire u v w))
    (houtputs : ∀ (g : Graph β) (outputs : List Value), P g → P (g.setOutputs outputs))
    (v w : Value) (h : g.Traceable) (hp : P g) :
    (g.redirect v w).2.Traceable ∧ P (g.redirect v w).2 := by
  have huses : ∀ (us : List Use) (g : Graph β), us.Nodup → (∀ u ∈ us, u ∈ g.uses v) →
      g.Traceable → P g → (redirectUses v w us g).2.Traceable ∧ P (redirectUses v w us g).2 := by
    intro us
    induction us with
    | nil => exact fun g _ _ h hp => ⟨h, hp⟩
    | cons u us ih =>
      intro g hnodup hlisted h hp
      obtain ⟨hu, hus⟩ := List.nodup_cons.1 hnodup
      have hmem := hlisted u List.mem_cons_self
      have hin := h.input? v u hmem
      simp only [redirectUses, hin]
      refine ih _ hus (fun u' hu' => ?_) (h.rewire hin w) (hrewire g u v w h hmem hp)
      -- The uses that are still to come are listed for `v` as before.
      rw [uses_rewire, if_pos rfl, List.mem_append, List.mem_filter]
      refine .inl ⟨hlisted u' (List.mem_cons_of_mem u hu'), ?_⟩
      simpa using fun heq : u' = u => hu (heq ▸ hu')
  by_cases hvw : v = w
  · simpa [Graph.redirect, hvw] using And.intro h hp
  · simp only [Graph.redirect, if_neg hvw]
    obtain ⟨h', hp'⟩ := huses ((g.uses v).filter (·.node != w.node)) g ((h.nodup v).filter _)
      (fun u hu => (List.mem_filter.1 hu).1) h hp
    exact ⟨h'.setOutputs _, houtputs _ _ hp'⟩

end Traceable

/-- A use of the node is listed for some value. -/
def Uses (g : Graph β) (n : Nat) : Prop :=
  ∃ v, ∃ u ∈ g.uses v, u.node = n

theorem uses_node_push (g : Graph β) (spec : NodeSpec β) (hn : n < g.slots.length) :
    (g.push spec).Uses n ↔ g.Uses n := by
  refine exists_congr fun v => ⟨fun ⟨u, hu, hnode⟩ => ?_, fun ⟨u, hu, hnode⟩ => ?_⟩
  · rw [uses_push, List.mem_append] at hu
    refine ⟨u, hu.resolve_right fun hnew => ?_, hnode⟩
    obtain ⟨⟨w, x⟩, hp, rfl⟩ := List.mem_map.1 hnew
    have hlast : x.node = g.slots.length := (mem_reads_iff.1 (List.mem_filter.1 hp).1).1
    exact Nat.ne_of_lt hn (hnode.symm.trans hlast)
  · exact ⟨u, by rw [uses_push]; exact List.mem_append_left _ hu, hnode⟩

/-- Setting an input of a node lists a use of the node, whatever has been listed before. -/
theorem uses_node_rewire (g : Graph β) (u : Use) (v w : Value) :
    (g.rewire u v w).Uses n ↔ u.node = n ∨ g.Uses n := by
  simp only [Uses, uses_rewire]
  constructor
  · rintro ⟨x, u', hu', hnode⟩
    obtain hold | hnew := List.mem_append.1 hu'
    · refine .inr ⟨x, u', ?_, hnode⟩
      split at hold
      · exact (List.mem_filter.1 hold).1
      · exact hold
    · split at hnew
      · exact .inl (List.mem_singleton.1 hnew ▸ hnode)
      · simp at hnew
  · intro h
    by_cases hnode : u.node = n
    · exact ⟨w, u, by simp, hnode⟩
    · obtain ⟨x, u', hu', hnode'⟩ := h.resolve_left hnode
      have hne : u' ≠ u := fun heq => hnode (heq ▸ hnode')
      refine ⟨x, u', List.mem_append_left _ ?_, hnode'⟩
      split
      · exact List.mem_filter.2 ⟨hu', by simpa using hne⟩
      · exact hu'

/-- Marking a node takes no use of another node out of the index. -/
theorem uses_node_markEliminated (hg : g.Numbered) {i : Nat} (hi : i ≠ n ∨ g.live? i = none) :
    (g.markEliminated i).2.Uses n ↔ g.Uses n := by
  cases hlive : g.live? i with
  | none => rw [markEliminated_of_not_live hlive]
  | some node =>
    have hne : i ≠ n := hi.resolve_right (by simp [hlive])
    simp only [Uses, uses_markEliminated hlive]
    refine exists_congr fun v => exists_congr fun u => and_congr_left fun hnode => ?_
    refine (List.mem_filter).trans (and_iff_left ?_)
    rw [Bool.not_eq_true', ← Bool.not_eq_true, List.contains_iff_mem, mem_reads_iff]
    exact fun hread => hne ((hg.live hlive).symm.trans (hread.1.symm.trans hnode))

/-- Marking a live node takes all uses of the node out of the index. -/
theorem Traceable.not_uses_markEliminated (h : g.Traceable) (hn : (g.markEliminated n).1 = true) :
    ¬ (g.markEliminated n).2.Uses n := by
  rw [markEliminated_fst] at hn
  obtain ⟨node, hlive⟩ := Option.isSome_iff_exists.1 hn
  rintro ⟨v, u, hu, hnode⟩
  rw [uses_markEliminated hlive, List.mem_filter] at hu
  refine absurd hu.2 ?_
  obtain ⟨s, hs, hv⟩ := input?_eq_some.1 (h.input? v u hu.1)
  obtain ⟨t, ht, -, rfl⟩ := live?_eq_some.1 hlive
  obtain rfl : s = t := Option.some.inj (hs.symm.trans (hnode ▸ ht))
  simpa [mem_reads_iff, hv] using hnode.trans (h.numbered.live hlive).symm

/-- The slot of a node is empty, or it holds the node with a mark and with some inputs. -/
structure Gone (g : Graph β) (n : Nat) (node : Node β) : Prop where
  lt_length : n < g.slots.length
  slot? : ∀ s, g.slot? n = some s → s.eliminated = true ∧ ∃ inputs, s.node = { node with inputs }

namespace Gone

variable {node : Node β}

theorem live? (h : g.Gone n node) : g.live? n = none := by
  rw [live?_eq_bind]
  cases hs : g.slot? n with
  | none => rfl
  | some s => simp [(h.slot? s hs).1]

theorem of_markEliminated (hn : g.live? n = some node) : (g.markEliminated n).2.Gone n node where
  lt_length := by
    rw [length_slots_markEliminated]
    exact lt_length_of_live? hn
  slot? := fun s hs => by
    rw [slot?_markEliminated, if_pos rfl, Option.map_eq_some_iff] at hs
    obtain ⟨t, ht, rfl⟩ := hs
    obtain ⟨t', ht', -, rfl⟩ := live?_eq_some.1 hn
    obtain rfl : t = t' := Option.some.inj (ht.symm.trans ht')
    exact ⟨rfl, t.node.inputs, rfl⟩

theorem setOutputs (h : g.Gone n node) (outputs : List Value) : (g.setOutputs outputs).Gone n node :=
  ⟨h.lt_length, h.slot?⟩

theorem push (h : g.Gone n node) (spec : NodeSpec β) : (g.push spec).Gone n node where
  lt_length := by
    rw [Graph.push, List.length_append]
    exact Nat.lt_add_right _ h.lt_length
  slot? := by
    rw [slot?_push, if_neg (Nat.ne_of_lt h.lt_length)]
    exact h.slot?

theorem rewire (h : g.Gone n node) (u : Use) (v w : Value) : (g.rewire u v w).Gone n node where
  lt_length := by simpa [Graph.rewire, modifyNode] using h.lt_length
  slot? := fun s hs => by
    rw [slot?_rewire] at hs
    split at hs
    · obtain ⟨t, ht, rfl⟩ := Option.map_eq_some_iff.1 hs
      obtain ⟨he, inputs, hnode⟩ := h.slot? t ht
      exact ⟨he, inputs.set u.input w, by rw [hnode]⟩
    · exact h.slot? s hs

theorem markEliminated (h : g.Gone n node) (i : Nat) : (g.markEliminated i).2.Gone n node where
  lt_length := by
    rw [length_slots_markEliminated]
    exact h.lt_length
  slot? := fun s hs => by
    rw [slot?_markEliminated] at hs
    split at hs
    · obtain ⟨t, ht, rfl⟩ := Option.map_eq_some_iff.1 hs
      exact ⟨rfl, (h.slot? t ht).2⟩
    · exact h.slot? s hs

theorem compact (h : g.Gone n node) : g.compact.2.Gone n node where
  lt_length := by
    rw [compact_snd, unsorted, List.length_map]
    exact h.lt_length
  slot? := fun s hs => by
    rw [slot?_compact, Option.filter_eq_some_iff] at hs
    exact h.slot? s hs.1

end Gone

end Graph

/-! ### Steps -/

namespace Change

variable {g : Graph β} {n : Nat} {node : Node β}

/-- What pushing, marking and rewiring a listed use keep is kept by every step that neither sets an
input nor compacts the graph. -/
theorem run_induction {P : Graph β → Prop}
    (hpush : ∀ (g : Graph β) (spec : NodeSpec β), g.Traceable → P g → P (g.push spec))
    (houtputs : ∀ (g : Graph β) (outputs : List Value), P g → P (g.setOutputs outputs))
    (hrewire : ∀ (g : Graph β) (u : Use) (v w : Value), g.Traceable → u ∈ g.uses v → P g →
      P (g.rewire u v w))
    (hmark : ∀ (g : Graph β) (id : Nat), g.Traceable → P g → P (g.markEliminated id).2)
    {c : Change β} (hset : ¬ ∃ id input v, c = setInput id input v) (hcompact : c ≠ compact)
    (h : g.Traceable) (hp : P g) : (c.run g).Traceable ∧ P (c.run g) := by
  have push : ∀ spec : NodeSpec β, (g.push spec).Traceable ∧ P (g.push spec) := fun spec =>
    ⟨h.push spec, hpush g spec h hp⟩
  have mark : ∀ (g : Graph β) (id : Nat), g.Traceable ∧ P g →
      (g.markEliminated id).2.Traceable ∧ P (g.markEliminated id).2 := fun g id hg =>
    ⟨hg.1.markEliminated id, hmark g id hg.1 hg.2⟩
  have redirect : ∀ (g : Graph β) (v w : Value), g.Traceable ∧ P g →
      (g.redirect v w).2.Traceable ∧ P (g.redirect v w).2 := fun g v w hg =>
    Graph.Traceable.redirect_induction hrewire houtputs v w hg.1 hg.2
  cases c with
  | addNode spec =>
    obtain hr | hr := run_addNode g spec <;> rw [hr]
    · exact ⟨h, hp⟩
    · exact push spec
  | addParameter name layout => exact push _
  | addConstant name data => exact push _
  | setOutputs outputs => exact ⟨h.setOutputs outputs, houtputs g outputs hp⟩
  | addOutput v => exact ⟨h.setOutputs _, houtputs g (g.outputs ++ [v]) hp⟩
  | setInput id input v => exact absurd ⟨id, input, v, rfl⟩ hset
  | redirect v w => exact redirect g v w ⟨h, hp⟩
  | markEliminated id => exact mark g id ⟨h, hp⟩
  | compact => exact absurd rfl hcompact
  | bridge id input =>
    simp only [run, edit, Edit.apply_modify]
    cases hb : g.bridge id input with
    | none => exact ⟨h, hp⟩
    | some p => exact Graph.bridge_induction mark redirect ⟨h, hp⟩ hb
  | eliminateIfUnused id => exact Graph.eliminateIfUnused_induction mark id ⟨h, hp⟩
  | eliminateUnusedConstants values =>
    exact Graph.eliminateUnusedConstants_induction mark values ⟨h, hp⟩
  | eliminateDead => exact Graph.eliminateDead_induction mark ⟨h, hp⟩

/-- Setting an input fails, or it rewires the use that the input of the stored node is. -/
theorem apply_setInput (g : Graph β) (id input : Nat) (v : Value) :
    (∃ e, (setInput id input v).edit.apply g = (.error e, g)) ∨
      ∃ w, g.input? ⟨id, input⟩ = some w ∧
        (setInput id input v).edit.apply g = (.ok (), g.rewire ⟨id, input⟩ w v) := by
  have hresult : (∃ e, g.setInput id input v = .error e) ∨
      ∃ w, g.input? ⟨id, input⟩ = some w ∧ g.setInput id input v = .ok (g.rewire ⟨id, input⟩ w v) := by
    simp only [Graph.setInput, Graph.input?]
    split
    · cases hn : g.node? id with
      | none => simp
      | some m => cases hw : m.inputs[input]? <;> simp [hw]
    · simp
  simp only [edit, Edit.apply_attempt]
  obtain ⟨e, he⟩ | ⟨w, hw, hset⟩ := hresult
  · exact .inl ⟨e, by simp [he, Except.map]⟩
  · exact .inr ⟨w, hw, by simp [hset, Except.map]⟩

/-- Every step keeps the listed uses traceable. -/
theorem traceable_run (c : Change β) (h : g.Traceable) : (c.run g).Traceable := by
  by_cases hset : ∃ id input v, c = setInput id input v
  · obtain ⟨id, input, v, rfl⟩ := hset
    rw [run]
    obtain ⟨e, hr⟩ | ⟨w, hw, hr⟩ := apply_setInput g id input v <;> rw [hr]
    · exact h
    · exact h.rewire hw v
  by_cases hcompact : c = compact
  · subst hcompact
    exact h.numbered.wellKept_compact.traceable
  exact (run_induction (P := fun _ => True) (fun _ _ _ _ => trivial) (fun _ _ _ => trivial)
    (fun _ _ _ _ _ _ _ => trivial) (fun _ _ _ _ => trivial) hset hcompact h trivial).1

/-- No step revives a node. -/
theorem gone_run (c : Change β) (h : g.Traceable) (hg : g.Gone n node) : (c.run g).Gone n node := by
  by_cases hset : ∃ id input v, c = setInput id input v
  · obtain ⟨id, input, v, rfl⟩ := hset
    rw [run]
    obtain ⟨e, hr⟩ | ⟨w, -, hr⟩ := apply_setInput g id input v <;> rw [hr]
    · exact hg
    · exact hg.rewire _ _ _
  by_cases hcompact : c = compact
  · subst hcompact
    exact hg.compact
  exact (run_induction (P := fun g => g.Gone n node) (fun _ spec _ hg => hg.push spec)
    (fun _ outputs hg => hg.setOutputs outputs) (fun _ u v w _ _ hg => hg.rewire u v w)
    (fun _ id _ hg => hg.markEliminated id) hset hcompact h hg).2

/-- The step sets an input of the node, and succeeds. -/
def Sets (c : Change β) (n : Nat) (g : Graph β) : Prop :=
  (∃ input v, c = setInput n input v) ∧ (c.edit.apply g).1 = .ok ()

/-- After a step a use of a node that is not live is listed if the step has set one of its inputs,
or if one was listed before and the graph is not compacted. -/
theorem uses_run_iff (c : Change β) (h : g.Traceable) (hg : g.Gone n node) :
    (c.run g).Uses n ↔ g.Uses n ∧ c ≠ compact ∨ c.Sets n g := by
  by_cases hset : ∃ id input v, c = setInput id input v
  · obtain ⟨id, input, v, rfl⟩ := hset
    rw [run, Sets]
    obtain ⟨e, hr⟩ | ⟨w, -, hr⟩ := apply_setInput g id input v
    · simp [hr]
    · rw [hr, Graph.uses_node_rewire]
      simp [or_comm]
  have hnot : ¬ c.Sets n g := by
    rintro ⟨⟨input, v, hc⟩, -⟩
    exact hset ⟨n, input, v, hc⟩
  by_cases hcompact : c = compact
  · subst hcompact
    refine iff_of_false ?_ (by simp [hnot])
    rintro ⟨v, u, hu, rfl⟩
    obtain ⟨m, hm, -⟩ :=
      Graph.reads_compact.1 ((h.numbered.wellKept_compact.indexed.mem_uses v u).1 hu)
    exact absurd hm (by simp [hg.live?])
  have hkeep := (run_induction (P := fun g' => g'.Gone n node ∧ (g'.Uses n ↔ g.Uses n))
    (fun _ spec _ hp => ⟨hp.1.push spec, (Graph.uses_node_push _ spec hp.1.lt_length).trans hp.2⟩)
    (fun _ outputs hp => ⟨hp.1.setOutputs outputs, hp.2⟩)
    (fun g' u v w _ hu hp => ⟨hp.1.rewire u v w, by
      rw [Graph.uses_node_rewire, ← hp.2, or_iff_right_iff_imp]
      exact fun hnode => ⟨v, u, hu, hnode⟩⟩)
    (fun g' id h' hp => ⟨hp.1.markEliminated id, by
      rw [Graph.uses_node_markEliminated h'.numbered, hp.2]
      by_cases hid : id = n
      · exact .inr (hid ▸ hp.1.live?)
      · exact .inl hid⟩)
    hset hcompact h ⟨hg, Iff.rfl⟩).2.2
  simpa [hnot, hcompact] using hkeep

/-! ### Runs -/

theorem runAll_append (cs ds : List (Change β)) (g : Graph β) :
    runAll (cs ++ ds) g = runAll ds (runAll cs g) := by
  induction cs generalizing g with
  | nil => rfl
  | cons c cs ih => exact ih (c.run g)

theorem traceable_runAll (cs : List (Change β)) (h : g.Traceable) : (runAll cs g).Traceable := by
  induction cs generalizing g with
  | nil => exact h
  | cons c cs ih => exact ih (c.traceable_run h)

theorem gone_runAll (cs : List (Change β)) (h : g.Traceable) (hg : g.Gone n node) :
    (runAll cs g).Gone n node := by
  induction cs generalizing g with
  | nil => exact hg
  | cons c cs ih => exact ih (c.traceable_run h) (c.gone_run h hg)

/-- A use of a node that is not live is listed after some steps exactly if one of them has set an
input of the node and no later one has compacted the graph. -/
theorem uses_runAll_iff (cs : List (Change β)) (h : g.Traceable) (hg : g.Gone n node)
    (hnot : ¬ g.Uses n) :
    (runAll cs g).Uses n ↔ ∃ front c back, cs = front ++ c :: back ∧ c.Sets n (runAll front g) ∧
      compact ∉ back := by
  induction cs using List.reverseRecOn with
  | nil => exact iff_of_false hnot (by simp)
  | append_singleton cs c ih =>
    have hstep : runAll (cs ++ [c]) g = c.run (runAll cs g) := runAll_append cs [c] g
    rw [hstep, uses_run_iff c (traceable_runAll cs h) (gone_runAll cs h hg), ih]
    constructor
    · rintro (⟨⟨front, d, back, rfl, hd, hback⟩, hc⟩ | hc)
      · refine ⟨front, d, back ++ [c], by simp, hd, ?_⟩
        simpa using ⟨hback, hc.symm⟩
      · exact ⟨cs, c, [], rfl, hc, List.not_mem_nil⟩
    · rintro ⟨front, d, back, hcs, hd, hback⟩
      obtain rfl | ⟨back, b, rfl⟩ := List.eq_nil_or_concat back
      · obtain ⟨rfl, hcd⟩ := List.append_inj' hcs rfl
        obtain rfl := List.singleton_inj.1 hcd
        exact .inr hd
      · rw [List.concat_eq_append, ← List.cons_append, ← List.append_assoc] at hcs
        obtain ⟨rfl, hcb⟩ := List.append_inj' hcs rfl
        obtain rfl := List.singleton_inj.1 hcb
        simp only [List.concat_eq_append, List.mem_append, List.mem_singleton, not_or] at hback
        exact .inl ⟨⟨front, d, back, rfl, hd, hback.1⟩, Ne.symm hback.2⟩

/-- **What becomes of an eliminated node.**  Let any steps lead from the empty graph to one in which
the node `n` is marked as eliminated, and let any steps follow.  Then the node is not live again; its
number is never the one of a new node, and names no other node; its slot is empty, or holds the node
with the mark and, inputs apart, as it was.  A use of the node is listed at the end exactly if some
later step has set an input of the node that was still stored, and the graph has not been compacted
since. -/
theorem eliminated_runAll (before after : List (Change β)) (n : Nat)
    (hmarked : ((runAll before Graph.empty).markEliminated n).1 = true) :
    let g := ((runAll before Graph.empty).markEliminated n).2
    let h := runAll after g
    h.live? n = none ∧
      (∀ spec id h', h.addNode spec = .ok (id, h') → id ≠ n) ∧
      (∀ id s, h.slot? id = some s → s.node.id = n → id = n ∧ s.eliminated = true ∧
        ∃ inputs, g.node? n = some { s.node with inputs }) ∧
      ((∃ v, ∃ u ∈ h.uses v, u.node = n) ↔
        ∃ front input v back, after = front ++ setInput n input v :: back ∧ compact ∉ back ∧
          ((setInput n input v).edit.apply (runAll front g)).1 = .ok ()) := by
  intro g h
  have htraceable : (runAll before (Graph.empty : Graph β)).Traceable :=
    traceable_runAll before Graph.WellKept.empty.traceable
  have hg : g.Traceable := htraceable.markEliminated n
  obtain ⟨node, hlive⟩ := Option.isSome_iff_exists.1 (Graph.markEliminated_fst _ n ▸ hmarked)
  have hgone : g.Gone n node := .of_markEliminated hlive
  have hstored : g.node? n = some node := by
    rw [Graph.node?, Graph.slot?_markEliminated, if_pos rfl, Option.map_map]
    exact Graph.node?_of_live? hlive
  have hgone' : h.Gone n node := gone_runAll after hg hgone
  refine ⟨hgone'.live?, fun spec id h' hadd => ?_, fun id s hs hid => ?_, ?_⟩
  · obtain rfl : h.slots.length = id := by
      simp only [Graph.addNode, bind, Except.bind] at hadd
      split at hadd
      · simp at hadd
      · exact (Prod.mk.inj (Except.ok.inj hadd)).1
    exact Ne.symm (Nat.ne_of_lt hgone'.lt_length)
  · have hnumber : s.node.id = id :=
      (traceable_runAll after hg).numbered id s.node (Graph.node?_eq_some.2 ⟨s, hs, rfl⟩)
    obtain rfl : id = n := hnumber.symm.trans hid
    obtain ⟨he, inputs, hnode⟩ := hgone'.slot? s hs
    refine ⟨rfl, he, node.inputs, ?_⟩
    rw [hnode]
    exact hstored
  · refine (uses_runAll_iff after hg hgone (htraceable.not_uses_markEliminated hmarked)).trans ?_
    constructor
    · rintro ⟨front, _, back, rfl, ⟨⟨input, v, rfl⟩, hset⟩, hback⟩
      exact ⟨front, input, v, back, rfl, hback, hset⟩
    · rintro ⟨front, input, v, back, rfl, hback, hset⟩
      exact ⟨front, _, back, rfl, ⟨⟨input, v, rfl⟩, hset⟩, hback⟩

/-! ### A stray use -/

/-- A rectifier, the node 1, between two parameters. -/
def rectifierChanges : List (Change Unit) :=
  [.addParameter "x" (.planar (.ofLengths [2]) .f32),
    .addNode { op := .relu, inputs := [⟨0, 0⟩], outputs := [.planar (.ofLengths [2]) .f32] },
    .addParameter "y" (.planar (.ofLengths [2]) .f32)]

/-- The input of the rectifier is set, and then redirected. -/
def strayChanges : List (Change Unit) :=
  [.setInput 1 0 ⟨2, 0⟩, .redirect ⟨2, 0⟩ ⟨0, 0⟩]

/-- The use that is listed of the eliminated rectifier was set after the mark. -/
theorem eliminated_strayChanges :
    let g := runAll rectifierChanges Graph.empty
    (g.markEliminated 1).1 = true ∧
      let h := runAll strayChanges (g.markEliminated 1).2
      h.live? 1 = none ∧ h.uses ⟨0, 0⟩ = [⟨1, 0⟩] ∧
        ∃ front input v back, strayChanges = front ++ setInput 1 input v :: back ∧
          compact ∉ back := by
  intro g
  have hmarked : (g.markEliminated 1).1 = true := by decide
  obtain ⟨hlive, -, -, huses⟩ := eliminated_runAll rectifierChanges strayChanges 1 hmarked
  refine ⟨hmarked, hlive, by decide, ?_⟩
  obtain ⟨front, input, v, back, hafter, hback, -⟩ :=
    huses.1 ⟨⟨0, 0⟩, ⟨1, 0⟩, by decide, rfl⟩
  exact ⟨front, input, v, back, hafter, hback⟩

/-- An eliminated node is listed as a reader of a value again. -/
theorem exists_use_of_eliminated :
    ¬ ∀ (before after : List (Change Unit)) (n : Nat),
      ((runAll before Graph.empty).markEliminated n).1 = true →
        ∀ v, ∀ u ∈ (runAll after ((runAll before Graph.empty).markEliminated n).2).uses v,
          u.node ≠ n := by
  intro hall
  exact hall rectifierChanges strayChanges 1 (by decide) ⟨0, 0⟩ ⟨1, 0⟩ (by decide) rfl

end Change

end Dataflow
