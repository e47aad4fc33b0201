import Dataflow.Graph.Prune
import Dataflow.Proofs.Build
import Dataflow.Proofs.Graph.Listing

/-!
# Taking nodes out of a graph

A replacement takes some nodes out of a graph: it adds new nodes that do not read them, lets the
readers of their values read new values instead, and marks them.  What still dangles afterwards are
the values that nothing has been put in the place of.

## Main definitions

* `Graph.Without` : a graph with some nodes marked.
* `Graph.Rerouted` : a graph on the way of such a replacement.

## Main statements

* `Graph.Without.live?`, `Graph.Without.reads` : what is left without these nodes.
* `Graph.WellKept.isUnusedNode_iff` : the nodes that nothing reads.
* `Graph.Rerouted.grows`, `Graph.Rerouted.redirect` : the steps on this way.
* `Graph.Rerouted.noDangling_iff` : when the last graph has no dangling references.
-/

namespace Dataflow

namespace Graph

variable {β : Type} {g h k : Graph β} {D ids more : List Nat} {moved : List Value} {u : Use}
  {v w : Value} {id a b : Nat}

/-! ### Values after a change -/

theorem hasValue_iff_of_live? {n : Node β} (hn : g.live? v.node = some n) :
    g.hasValue v = true ↔ v.index < n.outputs.length := by
  simp [hasValue_iff, hn]

theorem hasValue_redirect (hi : g.IndexesLive) (v w x : Value) :
    (g.redirect v w).2.hasValue x = g.hasValue x := by
  rw [Bool.eq_iff_iff, hasValue_iff, hasValue_iff, live?_redirect hi]
  cases hn : g.live? x.node with
  | none => simp
  | some n => by_cases hx : x.node = w.node <;> simp [hx, Node.mapInputs]

theorem hasValue_markEliminated (g : Graph β) (id : Nat) (v : Value) :
    (g.markEliminated id).2.hasValue v = true ↔ v.node ≠ id ∧ g.hasValue v = true := by
  rw [hasValue_iff, hasValue_iff, live?_markEliminated]
  by_cases hv : v.node = id <;> simp [hv]

/-! ### Removing a list of nodes -/

/-- The graph `h` is the graph `g` with some nodes marked. -/
structure Without (g : Graph β) (ids : List Nat) (h : Graph β) : Prop where
  slot? : ∀ id, h.slot? id =
    (g.slot? id).map fun s => if id ∈ ids then { s with eliminated := true } else s
  length_slots : h.slots.length = g.slots.length
  order : h.order = g.order
  outputs : h.outputs = g.outputs

namespace Without

theorem refl (g : Graph β) : g.Without [] g :=
  ⟨fun id => by simp, rfl, rfl, rfl⟩

theorem trans (hgh : g.Without ids h) (hhk : h.Without more k) : g.Without (ids ++ more) k where
  slot? id := by
    rw [hhk.slot?, hgh.slot?, Option.map_map]
    refine Option.map_congr fun s _ => ?_
    by_cases hi : id ∈ ids <;> by_cases hm : id ∈ more <;> simp [hi, hm]
  length_slots := hhk.length_slots.trans hgh.length_slots
  order := hhk.order.trans hgh.order
  outputs := hhk.outputs.trans hgh.outputs

theorem of_markEliminated (g : Graph β) (id : Nat) : g.Without [id] (g.markEliminated id).2 where
  slot? i := by
    rw [slot?_markEliminated]
    by_cases hi : i = id <;> simp [hi]
  length_slots := length_slots_markEliminated g id
  order := order_markEliminated g id
  outputs := outputs_markEliminated g id

theorem of_eliminateAll (ids : List Nat) (g : Graph β) : g.Without ids (eliminateAll ids g).2 := by
  induction ids generalizing g with
  | nil => exact .refl g
  | cons id ids ih => exact (of_markEliminated g id).trans (ih _)

theorem live? (hw : g.Without ids h) (id : Nat) :
    h.live? id = if id ∈ ids then none else g.live? id := by
  rw [live?_eq_bind, live?_eq_bind, hw.slot?]
  split
  · cases g.slot? id <;> simp
  · simp

/-- What is live has been live, and is not removed. -/
theorem isSome_live?_iff (hw : g.Without ids h) :
    (h.live? id).isSome = true ↔ id ∉ ids ∧ (g.live? id).isSome = true := by
  rw [hw.live?]
  by_cases hid : id ∈ ids <;> simp [hid]

theorem live?_eq_some (hw : g.Without ids h) {n : Node β} :
    h.live? id = some n ↔ id ∉ ids ∧ g.live? id = some n := by
  rw [hw.live?]
  by_cases hid : id ∈ ids <;> simp [hid]

theorem reads (hw : g.Without ids h) : h.Reads u v ↔ u.node ∉ ids ∧ g.Reads u v := by
  unfold Reads
  rw [hw.live?]
  by_cases hu : u.node ∈ ids <;> simp [hu]

theorem feeds (hw : g.Without ids h) : h.Feeds a b ↔ b ∉ ids ∧ g.Feeds a b := by
  constructor
  · rintro ⟨u, v, hu, rfl, rfl⟩
    exact ⟨(hw.reads.1 hu).1, (hw.reads.1 hu).2.feeds⟩
  · rintro ⟨hb, u, v, hu, rfl, rfl⟩
    exact (hw.reads.2 ⟨hb, hu⟩).feeds

theorem hasValue (hw : g.Without ids h) :
    h.hasValue v = true ↔ v.node ∉ ids ∧ g.hasValue v = true := by
  rw [hasValue_iff, hasValue_iff, hw.live?]
  by_cases hv : v.node ∈ ids <;> simp [hv]

theorem acyclic (hw : g.Without ids h) (ha : g.Acyclic) : h.Acyclic :=
  ha.mono fun _ _ hab => (hw.feeds.1 hab).2

end Without

theorem WellKept.eliminateAll (hk : g.WellKept) (ids : List Nat) :
    (eliminateAll ids g).2.WellKept := by
  induction ids generalizing g with
  | nil => exact hk
  | cons id ids ih => exact ih (hk.markEliminated id)

theorem Listed.eliminateAll (hl : g.Listed) (ids : List Nat) :
    (Graph.eliminateAll ids g).2.Listed := by
  induction ids generalizing g with
  | nil => exact hl
  | cons id ids ih => exact ih (hl.markEliminated id)

theorem outputs_eliminateAll (g : Graph β) (ids : List Nat) :
    (eliminateAll ids g).2.outputs = g.outputs :=
  (Without.of_eliminateAll ids g).outputs

theorem reads_eliminateAll (g : Graph β) (ids : List Nat) :
    (eliminateAll ids g).2.Reads u v ↔ u.node ∉ ids ∧ g.Reads u v :=
  (Without.of_eliminateAll ids g).reads

theorem hasValue_eliminateAll (g : Graph β) (ids : List Nat) :
    (eliminateAll ids g).2.hasValue v = true ↔ v.node ∉ ids ∧ g.hasValue v = true :=
  (Without.of_eliminateAll ids g).hasValue

/-! ### Unused nodes -/

/-- Nothing reads the values of a node without listed uses. -/
theorem Listed.not_reads_of_isUnusedNode (hl : g.Listed) (hunused : g.isUnusedNode id = true)
    (hv : g.hasValue v = true) (hid : v.node = id) : v ∉ g.outputs ∧ ∀ u, ¬ g.Reads u v := by
  obtain ⟨n, hn, hlt⟩ := hasValue_iff.1 hv
  obtain rfl := hid
  simp only [isUnusedNode, node?_of_live? hn, List.all_eq_true, Node.values, List.mem_map,
    List.mem_range, Node.output, hl.numbered.live hn] at hunused
  exact hl.not_reads_of_isUnused (hunused v ⟨v.index, hlt, rfl⟩)

/-- A live node is unused when nothing reads any of its values. -/
theorem WellKept.isUnusedNode_iff (hk : g.WellKept) {n : Node β} (hn : g.live? id = some n) :
    g.isUnusedNode id = true ↔
      ∀ v, g.hasValue v = true → v.node = id → v ∉ g.outputs ∧ ∀ u, ¬ g.Reads u v := by
  refine ⟨fun hunused v => hk.listed.not_reads_of_isUnusedNode hunused, fun hfree => ?_⟩
  have hstored := node?_of_live? hn
  simp only [isUnusedNode, hstored, List.all_eq_true, Node.values, List.mem_map, List.mem_range,
    Node.output, hk.numbered id n hstored]
  rintro _ ⟨i, hi, rfl⟩
  exact hk.indexed.isUnused_iff.2 (hfree ⟨id, i⟩ (hasValue_iff.2 ⟨n, hn, hi⟩) rfl)

theorem Listed.eliminateIfUnused (hl : g.Listed) (id : Nat) :
    (g.eliminateIfUnused id).2.Listed := by
  unfold Graph.eliminateIfUnused
  split
  · exact hl.markEliminated id
  · exact hl

theorem outputs_eliminateIfUnused (g : Graph β) (id : Nat) :
    (g.eliminateIfUnused id).2.outputs = g.outputs := by
  unfold Graph.eliminateIfUnused
  split
  · exact outputs_markEliminated g id
  · rfl

/-- Eliminating a node that nothing reads leaves no reference dangling that did not dangle. -/
theorem NoDangling.eliminateIfUnused (hd : g.NoDangling) (hk : g.Listed) (id : Nat) :
    (g.eliminateIfUnused id).2.NoDangling := by
  unfold Graph.eliminateIfUnused
  split
  · next hunused =>
    -- A value that is read is no value of the node, because that has no readers.
    have hfree : ∀ v, g.hasValue v = true → v.node = id → v ∉ g.outputs ∧ ∀ u, ¬ g.Reads u v :=
      fun v => hk.not_reads_of_isUnusedNode hunused
    constructor
    · intro u v hu
      obtain ⟨-, hu⟩ := (reads_markEliminated g id).1 hu
      have hv := hd.reads hu
      exact (hasValue_markEliminated g id v).2 ⟨fun hid => (hfree v hv hid).2 u hu, hv⟩
    · intro v hv
      rw [outputs_markEliminated] at hv
      have hval := hd.outputs v hv
      exact (hasValue_markEliminated g id v).2 ⟨fun hid => (hfree v hval hid).1 hv, hval⟩
  · exact hd

theorem NoDangling.eliminateUnusedConstants (hd : g.NoDangling) (hk : g.Listed)
    (values : List Value) : (eliminateUnusedConstants values g).2.NoDangling := by
  induction values generalizing g with
  | nil => exact hd
  | cons v rest ih =>
    simp only [Graph.eliminateUnusedConstants]
    split
    · exact ih (hd.eliminateIfUnused hk v.node) (hk.eliminateIfUnused v.node)
    · exact ih hd hk

/-- Eliminating unused constants among the producers of some values changes no output, adds no
value, and leaves the reads of all other nodes. -/
theorem eliminateUnusedConstants_spec (g : Graph β) (values : List Value) :
    (eliminateUnusedConstants values g).2.outputs = g.outputs ∧
      (∀ v, (eliminateUnusedConstants values g).2.hasValue v = true → g.hasValue v = true) ∧
        ∀ u v, g.Reads u v → u.node ∉ values.map Value.node →
          (eliminateUnusedConstants values g).2.Reads u v := by
  induction values generalizing g with
  | nil => exact ⟨rfl, fun v hv => hv, fun u v hu _ => hu⟩
  | cons x rest ih =>
    have hrest := ih g
    have hmark := ih (g.markEliminated x.node).2
    rw [outputs_markEliminated] at hmark
    simp only [eliminateUnusedConstants, eliminateIfUnused, List.map_cons, List.mem_cons, not_or]
    split
    · split
      · refine ⟨hmark.1, fun v hv => ?_, fun u v hu hne => ?_⟩
        · exact ((hasValue_markEliminated g x.node v).1 (hmark.2.1 v hv)).2
        · exact hmark.2.2 u v ((reads_markEliminated g x.node).2 ⟨hne.1, hu⟩) hne.2
      · exact ⟨hrest.1, hrest.2.1, fun u v hu hne => hrest.2.2 u v hu hne.2⟩
    · exact ⟨hrest.1, hrest.2.1, fun u v hu hne => hrest.2.2 u v hu hne.2⟩

/-! ### Graphs on the way -/

/-- The graph `h` is `g` with further nodes that do not read the nodes `D`, in which everything that
read one of the values `moved` of these nodes reads something new. -/
structure Rerouted (g : Graph β) (D : List Nat) (moved : List Value) (h : Graph β) : Prop where
  listed : h.Listed
  noDangling : h.NoDangling
  length_le : g.slots.length ≤ h.slots.length
  live : ∀ ⦃id⦄, id < g.slots.length → (h.live? id).isSome = (g.live? id).isSome
  reads : ∀ ⦃u v⦄, v.node ∈ D → (h.Reads u v ↔ g.Reads u v ∧ v ∉ moved)
  outputs : ∀ ⦃v⦄, v.node ∈ D → (v ∈ h.outputs ↔ v ∈ g.outputs ∧ v ∉ moved)
  old : ∀ ⦃u v⦄, u.node < g.slots.length → v.node < g.slots.length → h.Reads u v → g.Reads u v

theorem Rerouted.refl (hk : g.Listed) (hd : g.NoDangling) : Rerouted g D [] g where
  listed := hk
  noDangling := hd
  length_le := Nat.le_refl _
  live _ _ := rfl
  reads := by simp
  outputs := by simp
  old _ _ _ _ hu := hu

theorem Rerouted.push (hr : Rerouted g D moved h) {spec : NodeSpec β}
    (hv : ∀ v ∈ spec.inputs, h.hasValue v = true ∧ v.node ∉ D) :
    Rerouted g D moved (h.push spec) where
  listed := hr.listed.push spec
  noDangling := by
    refine ⟨fun u v hu => ?_, fun v hv => hasValue_push spec (hr.noDangling.outputs v hv)⟩
    obtain hu | ⟨-, hu⟩ := (reads_push h spec).1 hu
    · exact hasValue_push spec (hr.noDangling.reads hu)
    · exact hasValue_push spec (hv v (List.mem_of_getElem? hu)).1
  length_le := by
    rw [length_slots_push]
    exact Nat.le_succ_of_le hr.length_le
  live := by
    intro id hid
    rw [live?_push, if_neg (Nat.ne_of_lt (Nat.lt_of_lt_of_le hid hr.length_le)), hr.live hid]
  reads := by
    intro u v hvD
    rw [reads_push, ← hr.reads hvD]
    refine or_iff_left fun hu => ?_
    exact (hv v (List.mem_of_getElem? hu.2)).2 hvD
  outputs := hr.outputs
  old := by
    intro u v hu hvlt hread
    obtain hread | ⟨hid, -⟩ := (reads_push h spec).1 hread
    · exact hr.old hu hvlt hread
    · exact absurd (hid ▸ hu) (Nat.not_lt.2 hr.length_le)

theorem Rerouted.grows (hr : Rerouted g D moved h) {h' : Graph β}
    (hg : h.Grows (·.node ∉ D) h') : Rerouted g D moved h' := by
  induction hg with
  | refl => exact hr
  | push spec _ hv ih => exact ih.push hv

theorem Reads.lt_length (hu : g.Reads u v) : u.node < g.slots.length := by
  obtain ⟨n, hn, -⟩ := hu
  exact lt_length_of_live? hn

theorem Reads.mem_inputs (hu : g.Reads u v) :
    v ∈ ((g.node? u.node).map Node.inputs).getD [] := by
  obtain ⟨n, hn, hv⟩ := hu
  rw [node?_of_live? hn]
  exact List.mem_of_getElem? hv

/-- Everything that read a value of one of the nodes reads a new value instead. -/
theorem Rerouted.redirect (hr : Rerouted g D moved h) (hD : ∀ id ∈ D, id < g.slots.length)
    (hw : h.hasValue w = true) (hnew : g.slots.length ≤ w.node) :
    Rerouted g D (v :: moved) (h.redirect v w).2 where
  listed := hr.listed.redirect v w
  noDangling := by
    constructor
    · intro u x hu
      rw [hasValue_redirect hr.listed.live]
      rw [reads_redirect hr.listed.live] at hu
      split at hu
      · exact hr.noDangling.reads hu
      · obtain ⟨y, hy, rfl⟩ := hu
        by_cases hyv : y = v
        · rw [hyv, Value.subst, if_pos rfl]
          exact hw
        · rw [Value.subst_of_ne w hyv]
          exact hr.noDangling.reads hy
    · intro x hx
      rw [hasValue_redirect hr.listed.live]
      rw [outputs_redirect] at hx
      obtain ⟨y, hy, rfl⟩ := List.mem_map.1 hx
      by_cases hyv : y = v
      · rw [hyv, Value.subst, if_pos rfl]
        exact hw
      · rw [Value.subst_of_ne w hyv]
        exact hr.noDangling.outputs y hy
  length_le := by
    rw [length_slots_redirect]
    exact hr.length_le
  live := by
    intro id hid
    rw [live?_redirect hr.listed.live, Option.isSome_map, hr.live hid]
  reads := by
    intro u x hx
    have hxw : x ≠ w := by
      rintro rfl
      exact absurd (hD _ hx) (Nat.not_lt.2 hnew)
    rw [reads_redirect hr.listed.live, List.mem_cons, not_or]
    split
    · next huw =>
      -- A new node reads none of the nodes.
      have hnone : ¬ g.Reads u x := fun hu => absurd (hu.lt_length) (huw ▸ Nat.not_lt.2 hnew)
      simp [hr.reads hx, hnone]
    · simp only [Value.subst_eq_iff_of_ne hxw]
      constructor
      · rintro ⟨y, hy, rfl, hyv⟩
        exact ⟨((hr.reads hx).1 hy).1, hyv, ((hr.reads hx).1 hy).2⟩
      · rintro ⟨hread, hxv, hxm⟩
        exact ⟨x, (hr.reads hx).2 ⟨hread, hxm⟩, rfl, hxv⟩
  outputs := by
    intro x hx
    have hxw : x ≠ w := by
      rintro rfl
      exact absurd (hD _ hx) (Nat.not_lt.2 hnew)
    rw [outputs_redirect, List.mem_map, List.mem_cons, not_or]
    simp only [Value.subst_eq_iff_of_ne hxw]
    constructor
    · rintro ⟨y, hy, rfl, hyv⟩
      exact ⟨((hr.outputs hx).1 hy).1, hyv, ((hr.outputs hx).1 hy).2⟩
    · rintro ⟨hout, hxv, hxm⟩
      exact ⟨x, (hr.outputs hx).2 ⟨hout, hxm⟩, rfl, hxv⟩
  old := by
    intro u x hu hx hread
    have hxw : x ≠ w := by
      rintro rfl
      exact absurd hx (Nat.not_lt.2 hnew)
    rw [reads_redirect hr.listed.live] at hread
    split at hread
    · exact hr.old hu hx hread
    · obtain ⟨y, hy, hyx⟩ := hread
      obtain ⟨rfl, -⟩ := (Value.subst_eq_iff_of_ne hxw).1 hyx
      exact hr.old hu hx hy

/-- The node keeps its number of inputs, and reads values in the later graph. -/
theorem Rerouted.feeds_of_mem (hr : Rerouted g D moved h) {n : Node β} (hn : g.live? id = some n) :
    ∀ x ∈ ((h.node? id).map Node.inputs).getD [], h.Feeds x.node id := by
  intro x hx
  obtain ⟨m, hm⟩ := Option.isSome_iff_exists.1
    ((hr.live (lt_length_of_live? hn)).trans (by rw [hn]; rfl))
  rw [node?_of_live? hm] at hx
  exact .of_mem hm hx

/-- A node that reads another one is not read by it, in the later graph either. -/
theorem Rerouted.notMem_of_reads (hr : Rerouted g D moved h) (ha : g.Acyclic)
    (hid : id < g.slots.length) {values : List Value} (hvalues : ∀ x ∈ values, h.Feeds x.node id)
    (hv : v.node = id) (hread : g.Reads u v) : u.node ∉ values.map Value.node := by
  intro hmem
  obtain ⟨x, hx, hxu⟩ := List.mem_map.1 hmem
  obtain ⟨y, z, hyz, hy, hz⟩ := hvalues x hx
  have hback := hr.old (hy ▸ hid) (hz ▸ hxu ▸ hread.lt_length) hyz
  exact ha.not_feeds_two (hv ▸ hread.feeds) (hxu ▸ hz ▸ hy ▸ hback.feeds)

/-- A value without readers needs nothing in its place. -/
theorem Rerouted.unused (hr : Rerouted g D moved h)
    (hunused : h.isUnused v = true) : Rerouted g D (v :: moved) h := by
  obtain ⟨hout, hreads⟩ := hr.listed.not_reads_of_isUnused hunused
  refine { hr with reads := fun u x hx => ?_, outputs := fun x hx => ?_ }
  · rw [hr.reads hx, List.mem_cons, not_or]
    refine and_congr_right fun hread => ⟨fun hxm => ⟨?_, hxm⟩, And.right⟩
    rintro rfl
    exact hreads u ((hr.reads hx).2 ⟨hread, hxm⟩)
  · rw [hr.outputs hx, List.mem_cons, not_or]
    refine and_congr_right fun hin => ⟨fun hxm => ⟨?_, hxm⟩, And.right⟩
    rintro rfl
    exact hout ((hr.outputs hx).2 ⟨hin, hxm⟩)

/-- **What dangles after a replacement.**  When the nodes have been marked, and the constants among
the producers of some values that nothing reads any more, no reference dangles exactly when all
values of the nodes for which nothing was put in place had no readers but the nodes themselves.
None of those readers may be such a constant. -/
theorem Rerouted.noDangling_iff (hr : Rerouted g D moved h) {values : List Value}
    (hvalues : ∀ u v, v.node ∈ D → v ∉ moved → u.node ∉ D → g.Reads u v →
      u.node ∉ values.map Value.node) :
    (eliminateUnusedConstants values (eliminateAll D h).2).2.NoDangling ↔
      ∀ v, v.node ∈ D → v ∉ moved → v ∉ g.outputs ∧ ∀ u, g.Reads u v → u.node ∈ D := by
  obtain ⟨houts, hvals, hreads⟩ := eliminateUnusedConstants_spec (eliminateAll D h).2 values
  have hgone : ∀ v, v.node ∈ D →
      (eliminateUnusedConstants values (eliminateAll D h).2).2.hasValue v ≠ true :=
    fun v hv hval => ((hasValue_eliminateAll h D).1 (hvals v hval)).1 hv
  constructor
  · intro hd v hv hm
    constructor
    · intro hout
      refine hgone v hv (hd.outputs v ?_)
      rw [houts, outputs_eliminateAll]
      exact (hr.outputs hv).2 ⟨hout, hm⟩
    · intro u hu
      by_contra huD
      refine hgone v hv (hd.reads (hreads u v ?_ (hvalues u v hv hm huD hu)))
      exact (reads_eliminateAll h D).2 ⟨huD, (hr.reads hv).2 ⟨hu, hm⟩⟩
  · intro hfree
    refine NoDangling.eliminateUnusedConstants ?_ (hr.listed.eliminateAll D) values
    constructor
    · intro u v hu
      obtain ⟨huD, hu⟩ := (reads_eliminateAll h D).1 hu
      refine (hasValue_eliminateAll h D).2 ⟨fun hv => ?_, hr.noDangling.reads hu⟩
      obtain ⟨hu, hm⟩ := (hr.reads hv).1 hu
      exact huD ((hfree v hv hm).2 u hu)
    · intro v hv
      rw [outputs_eliminateAll] at hv
      refine (hasValue_eliminateAll h D).2 ⟨fun hvD => ?_, hr.noDangling.outputs v hv⟩
      obtain ⟨hout, hm⟩ := (hr.outputs hvD).1 hv
      exact (hfree v hvD hm).1 hout

end Graph

end Dataflow
