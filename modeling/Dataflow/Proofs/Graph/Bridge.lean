import Dataflow.Proofs.Graph.Cycles
import Dataflow.Proofs.Graph.MovedUses
import Dataflow.Proofs.Graph.Rerouting

/-!
# Bridging a node

A node is bridged when the readers of its first value read one of its inputs instead, and the node
is eliminated.  In a graph without cycles neither the node nor the producer of that input is among
these readers, so all of them come to read the input, and no cycle is closed.  The other values of
the node get nothing in their place, and a reader of one of them is left dangling.

## Main definitions

* `Graph.bridged` : the graph with a node bridged to a value.
* `Graph.Bridging` : what bridging a node makes of a graph.

## Main statements

* `Graph.reads_bridged`, `Graph.slot?_bridged` : the reads and the slots afterwards.
* `Graph.noDangling_bridged_iff` : when no reference dangles afterwards.
* `Graph.bridging_bridge` : the account of a bridged node.
* `Graph.exists_dangling_after_bridge` : a node with two values, one of which is left dangling.
-/

namespace Dataflow

namespace Graph

variable {β : Type} {g h : Graph β} {id input : Nat} {source : Value} {n : Node β} {u : Use}
  {v : Value}

/-! ### The node and its source -/

/-- The graph in which the readers of the node's first value read `source`, and the node is
marked. -/
def bridged (g : Graph β) (id : Nat) (source : Value) : Graph β :=
  ((g.redirect ⟨id, 0⟩ source).2.markEliminated id).2

theorem bridge_eq (hn : g.live? id = some n) (hin : n.inputs[input]? = some source) :
    g.bridge id input = some ((g.redirect ⟨id, 0⟩ source).1, g.bridged id source) := by
  simp [bridge, bridged, hn, hin]

/-- Without cycles a node does not read its own value, and what it reads does not read it. -/
theorem Acyclic.ne_of_reads (ha : g.Acyclic) (hfeeds : g.Feeds source.node id)
    (hu : g.Reads u v) (hv : v.node = id) : u.node ≠ id ∧ u.node ≠ source.node := by
  have hid : g.Feeds id u.node := hv ▸ hu.feeds
  refine ⟨fun hself => ha.not_feeds_self (hself ▸ hid), fun hsource => ?_⟩
  exact ha.not_feeds_two (hsource ▸ hid) hfeeds

/-! ### The graph afterwards -/

/-- Every node but the bridged one reads the source where it read the first value of the node. -/
theorem reads_bridged (hi : g.Indexed) (ha : g.Acyclic) (hfeeds : g.Feeds source.node id) :
    (g.bridged id source).Reads u v ↔
      u.node ≠ id ∧ ∃ x, g.Reads u x ∧ Value.subst ⟨id, 0⟩ source x = v := by
  rw [bridged, reads_markEliminated, reads_redirect hi.live]
  refine and_congr_right fun _ => ?_
  split
  · next hsource =>
    have hfixed : ∀ x, g.Reads u x → Value.subst ⟨id, 0⟩ source x = x := fun x hx =>
      Value.subst_of_ne source fun hxv => (ha.ne_of_reads hfeeds hx (hxv ▸ rfl)).2 hsource
    constructor
    · exact fun hv => ⟨v, hv, hfixed v hv⟩
    · rintro ⟨x, hx, rfl⟩
      rwa [hfixed x hx]
  · rfl

/-- The bridged node is marked and keeps its record, as do the nodes that were marked before. -/
theorem slot?_bridged (hi : g.Indexed) (ha : g.Acyclic) (hfeeds : g.Feeds source.node id)
    (k : Nat) :
    (g.bridged id source).slot? k = (g.slot? k).map fun s =>
      if k = id then { s with eliminated := true }
      else if s.eliminated = true then s
      else { s with node := s.node.mapInputs (Value.subst ⟨id, 0⟩ source) } := by
  have hne : id ≠ source.node := fun hid => ha.not_feeds_self (hid ▸ hfeeds)
  rw [bridged, slot?_markEliminated, slot?_redirect hi]
  cases hs : g.slot? k with
  | none => simp
  | some s =>
    by_cases he : s.eliminated = true
    · by_cases hid : k = id <;> simp [he, hid]
    · -- Neither the node itself nor the producer of the source has an input to change.
      have hfixed : k = id ∨ k = source.node →
          s.node.mapInputs (Value.subst ⟨id, 0⟩ source) = s.node := by
        intro hk
        refine Node.mapInputs_eq_self fun x hx => Value.subst_of_ne source ?_
        rintro rfl
        obtain ⟨u, hu, rfl⟩ := reads_of_mem (live?_of_slot? hs (by simpa using he)) hx
        obtain ⟨hnode, hsource⟩ := ha.ne_of_reads hfeeds hu rfl
        exact hk.elim hnode hsource
      by_cases hid : k = id
      · simp [he, hid, hne, hfixed (.inl hid)]
      · by_cases hk : k = source.node
        · simp only [if_neg hid, Option.map_some]
          rw [if_pos (Or.inr hk), if_neg he, hfixed (.inr hk)]
        · simp [he, hid, hk]

theorem outputs_bridged (g : Graph β) (id : Nat) (source : Value) :
    (g.bridged id source).outputs = g.outputs.map (Value.subst ⟨id, 0⟩ source) := by
  rw [bridged, outputs_markEliminated, outputs_redirect]

theorem hasValue_bridged (hi : g.Indexed) :
    (g.bridged id source).hasValue v = true ↔
      v.node ≠ id ∧ g.hasValue v = true := by
  rw [bridged, hasValue_markEliminated, hasValue_redirect hi.live]

/-- No cycle is closed: a reader of the node does not lead to what the node reads. -/
theorem Acyclic.bridged (ha : g.Acyclic) (hi : g.Indexed) (hfeeds : g.Feeds source.node id) :
    (g.bridged id source).Acyclic := by
  refine Acyclic.markEliminated ((acyclic_redirect_iff hi ha _ _).2 fun u hu _ hchain => ?_) id
  exact ha id (.tail' (.head hu.feeds hchain) hfeeds)

/-- No reference dangles afterwards exactly when nothing reads the other values of the node. -/
theorem noDangling_bridged_iff (hi : g.Indexed) (ha : g.Acyclic) (hd : g.NoDangling)
    (hfeeds : g.Feeds source.node id) (hsource : g.hasValue source = true) :
    (g.bridged id source).NoDangling ↔
      ∀ i, 0 < i → g.hasValue ⟨id, i⟩ = true → g.isUnused ⟨id, i⟩ = true := by
  have hne : source.node ≠ id := fun hid => ha.not_feeds_self (hid ▸ hfeeds)
  constructor
  · intro hafter i hpos _
    have hsubst : Value.subst ⟨id, 0⟩ source ⟨id, i⟩ = ⟨id, i⟩ :=
      Value.subst_of_ne source fun hi0 => (Nat.ne_of_gt hpos) (Value.mk.inj hi0).2
    refine hi.isUnused_iff.2 ⟨fun hout => ?_, fun u hu => ?_⟩
    · refine ((hasValue_bridged hi).1 (hafter.outputs ⟨id, i⟩ ?_)).1 rfl
      rw [outputs_bridged]
      exact List.mem_map.2 ⟨_, hout, hsubst⟩
    · have hread := (reads_bridged hi ha hfeeds).2
        ⟨(ha.ne_of_reads hfeeds hu rfl).1, _, hu, hsubst⟩
      exact ((hasValue_bridged hi).1 (hafter.reads hread)).1 rfl
  · intro hunused
    -- A value that is read has a live value in its place, for it is no other value of the node.
    have hplace : ∀ v, g.hasValue v = true → g.isUnused v ≠ true →
        (g.bridged id source).hasValue (Value.subst ⟨id, 0⟩ source v) = true := by
      rintro ⟨k, i⟩ hv hused
      rw [hasValue_bridged hi]
      by_cases hki : (⟨k, i⟩ : Value) = ⟨id, 0⟩
      · rw [hki, Value.subst, if_pos rfl]
        exact ⟨hne, hsource⟩
      · rw [Value.subst_of_ne source hki]
        refine ⟨fun hid => ?_, hv⟩
        obtain rfl : k = id := hid
        exact hused (hunused i (Nat.pos_of_ne_zero fun hi0 => hki (hi0 ▸ rfl)) hv)
    constructor
    · intro u v hu
      obtain ⟨-, x, hx, rfl⟩ := (reads_bridged hi ha hfeeds).1 hu
      exact hplace x (hd.reads hx) fun hx0 => (hi.isUnused_iff.1 hx0).2 u hx
    · intro v hv
      rw [outputs_bridged] at hv
      obtain ⟨x, hx, rfl⟩ := List.mem_map.1 hv
      exact hplace x (hd.outputs x hx) fun hx0 => (hi.isUnused_iff.1 hx0).1 hx

/-- All uses of the node's first value are moved. -/
theorem movedUses_bridge (hi : g.Indexed) (ha : g.Acyclic) (hfeeds : g.Feeds source.node id) :
    g.movedUses ⟨id, 0⟩ source = g.uses ⟨id, 0⟩ := by
  refine List.filter_eq_self.2 fun u hu => decide_eq_true ⟨?_, ?_⟩
  · rintro rfl
    exact ha.not_feeds_self hfeeds
  · exact (ha.ne_of_reads hfeeds ((hi.mem_uses _ u).1 hu) rfl).2

/-! ### The account of a bridged node -/

/-- The graph `h` is the graph `g` with the node `id` bridged to `source`, and `count` readers have
been moved. -/
structure Bridging (g : Graph β) (id : Nat) (source : Value) (count : Nat) (h : Graph β) :
    Prop where
  wellKept : g.WellKept → h.WellKept
  /-- The node is marked; every other live node holds `source` where it held the node's first value;
  no slot changes in any other way. -/
  slot? : ∀ k, h.slot? k = (g.slot? k).map fun s =>
    if k = id then { s with eliminated := true }
    else if s.eliminated = true then s
    else { s with node := s.node.mapInputs (Value.subst ⟨id, 0⟩ source) }
  length_slots : h.slots.length = g.slots.length
  order : h.order = g.order
  outputs : h.outputs = g.outputs.map (Value.subst ⟨id, 0⟩ source)
  /-- Whatever read the node's first value reads `source`. -/
  reads : ∀ u, g.Reads u ⟨id, 0⟩ → h.Reads u source
  /-- The readers of the node's first value are counted. -/
  count_eq : count = (g.uses ⟨id, 0⟩).length + g.outputs.count ⟨id, 0⟩
  acyclic : h.Acyclic
  noDangling_iff : h.NoDangling ↔
    ∀ i, 0 < i → g.hasValue ⟨id, i⟩ = true → g.isUnused ⟨id, i⟩ = true

/-- **Bridging a node.**  In a graph without cycles and dangling references, any live node can be
bridged to any of its inputs.  All readers of its first value read that input afterwards, nothing
else changes, and there is still no cycle.  No reference dangles exactly when nothing reads the
other values of the node. -/
theorem bridging_bridge (hi : g.Indexed) (ha : g.Acyclic) (hd : g.NoDangling)
    (hn : g.live? id = some n) (hin : n.inputs[input]? = some source) :
    ∃ count h, g.bridge id input = some (count, h) ∧ g.Bridging id source count h := by
  have hread : g.Reads ⟨id, input⟩ source := ⟨n, hn, hin⟩
  have hfeeds : g.Feeds source.node id := hread.feeds
  refine ⟨_, _, bridge_eq hn hin, ?_⟩
  constructor
  case wellKept => exact fun hk => (hk.redirect _ _).markEliminated id
  case slot? => exact slot?_bridged hi ha hfeeds
  case length_slots => rw [bridged, length_slots_markEliminated, length_slots_redirect]
  case order => rw [bridged, order_markEliminated, order_redirect]
  case outputs => exact outputs_bridged g id source
  case reads =>
    intro u hu
    exact (reads_bridged hi ha hfeeds).2
      ⟨(ha.ne_of_reads hfeeds hu rfl).1, _, hu, if_pos rfl⟩
  case count_eq =>
    have hne : (⟨id, 0⟩ : Value) ≠ source := by
      rintro rfl
      exact ha.not_feeds_self hfeeds
    rw [redirect_fst hi, movedUses_bridge hi ha hfeeds, List.count]
    refine congrArg _ (List.countP_congr fun o _ => ?_)
    simp [Value.subst_ne_self_iff, hne]
  case acyclic => exact ha.bridged hi hfeeds
  case noDangling_iff => exact noDangling_bridged_iff hi ha hd hfeeds (hd.reads hread)

/-- The first value of node 1 is read twice by a sum and is an output; a rectifier reads `last`. -/
def splitGraph (last : Value) : Graph Unit :=
  ofSpecs [{ op := .parameter, outputs := [.planar (.ofLengths [2]) .f32] },
    { op := .split, inputs := [⟨0, 0⟩],
      outputs := [.planar (.ofLengths [2]) .f32, .planar (.ofLengths [2]) .f32] },
    { op := .add, inputs := [⟨1, 0⟩, ⟨1, 0⟩], outputs := [.planar (.ofLengths [2]) .f32] },
    { op := .relu, inputs := [last], outputs := [.planar (.ofLengths [2]) .f32] }] [⟨3, 0⟩, ⟨1, 0⟩]

/-- When nothing reads the second value, all three readers of the first one are moved, and no
reference dangles. -/
theorem bridging_split :
    ∃ n, (splitGraph ⟨2, 0⟩).live? 1 = some n ∧ n.inputs[0]? = some ⟨0, 0⟩ ∧
      ∃ count h, (splitGraph ⟨2, 0⟩).bridge 1 0 = some (count, h) ∧ count = 3 ∧
        h.outputs = [⟨3, 0⟩, ⟨0, 0⟩] ∧ h.Reads ⟨2, 1⟩ ⟨0, 0⟩ ∧ h.Acyclic ∧ h.NoDangling := by
  obtain ⟨hk, ha, hd⟩ : (splitGraph ⟨2, 0⟩).WellKept ∧ (splitGraph ⟨2, 0⟩).Acyclic ∧
      (splitGraph ⟨2, 0⟩).NoDangling := ofSpecs_sound _ _ (by decide +kernel) (by decide +kernel)
  obtain ⟨n, hn, hin⟩ : ∃ n, (splitGraph ⟨2, 0⟩).live? 1 = some n ∧
      n.inputs[0]? = some ⟨0, 0⟩ := ⟨_, rfl, rfl⟩
  have hread : (splitGraph ⟨2, 0⟩).Reads ⟨2, 1⟩ ⟨1, 0⟩ := ⟨_, rfl, rfl⟩
  obtain ⟨count, h, hbridge, hb⟩ := bridging_bridge hk.indexed ha hd hn hin
  refine ⟨n, hn, hin, count, h, hbridge, hb.count_eq.trans (by decide +kernel),
    hb.outputs.trans (by decide +kernel), hb.reads _ hread, hb.acyclic, ?_⟩
  refine hb.noDangling_iff.2 fun i hpos hvalue => ?_
  obtain ⟨m, hm, hlt⟩ := hasValue_iff.1 hvalue
  cases hm
  obtain rfl : i = 1 := by
    simp only [List.length_cons, List.length_nil, NodeSpec.build] at hlt
    omega
  decide +kernel

/-- When the second value is read, it is left dangling. -/
theorem exists_dangling_after_bridge :
    ¬ ∀ (g h : Graph Unit) (id input count : Nat), g.WellKept → g.Acyclic → g.NoDangling →
      (g.live? id).isSome = true → g.bridge id input = some (count, h) → h.NoDangling := by
  intro hall
  obtain ⟨hk, ha, hd⟩ : (splitGraph ⟨1, 1⟩).WellKept ∧ (splitGraph ⟨1, 1⟩).Acyclic ∧
      (splitGraph ⟨1, 1⟩).NoDangling := ofSpecs_sound _ _ (by decide +kernel) (by decide +kernel)
  have hafter := hall _ _ 1 0 _ hk ha hd (by decide +kernel) (bridge_eq rfl rfl)
  have hread : ((splitGraph ⟨1, 1⟩).bridged 1 ⟨0, 0⟩).Reads ⟨3, 0⟩ ⟨1, 1⟩ := ⟨_, rfl, rfl⟩
  exact absurd (hafter.reads hread) (by decide +kernel)

end Graph

end Dataflow
