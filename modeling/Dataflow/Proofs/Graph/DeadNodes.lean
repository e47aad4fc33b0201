import Dataflow.Proofs.Graph.Census
import Dataflow.Proofs.Graph.Rerouting
import Dataflow.Proofs.Graph.Specs

/-!
# Dead nodes

A node is needed when a chain of references leads from it to a parameter or to a node with an
output of the graph; the chain may be empty.  Every round of removal takes out nodes that nothing
reads, none of which is needed, and leaves the chains of all other nodes alone.  When a round finds
nothing, every live node is needed: a node that is not has a reader that is not either, and in a
graph without cycles one cannot go on from reader to reader for ever.

## Main definitions

* `Graph.Needed` : the nodes that are to stay.
* `Graph.Cleared` : what is true of a graph after some rounds.
* `Graph.DeadRounds` : rounds of removal without a bound on their number.
* `Graph.DeadRemoval` : what the removal of dead nodes makes of a graph.

## Main statements

* `Graph.mem_deadNodes` : what a round finds.
* `Graph.Without.needed_iff` : what is needed when nodes that are not have been removed.
* `Graph.Cleared.round`, `Graph.Cleared.trans` : one round, and rounds after one another.
* `Graph.deadRounds_eliminateRounds` : there is an end after as many rounds as there are live nodes.
* `Graph.deadRemoval_eliminateDead` : the account of the removal.
-/

namespace Dataflow

namespace Graph

open Relation

variable {β : Type} {g h k : Graph β} {id a b : Nat} {n : Node β} {ids removed more : List Nat}
  {u : Use} {v : Value}

/-! ### Removing a list of nodes -/

/-- Without a node that was live there are fewer live nodes. -/
theorem Without.liveCount_lt (hw : g.Without ids h) (hid : id ∈ ids)
    (hlive : (g.live? id).isSome = true) : h.liveCount < g.liveCount := by
  rw [liveCount_eq_card, liveCount_eq_card, hw.length_slots]
  refine Finset.card_lt_card ((Finset.ssubset_iff_of_subset fun i hi => ?_).2 ⟨id, ?_, ?_⟩)
  · obtain ⟨hlt, hi⟩ := Finset.mem_filter.1 hi
    exact Finset.mem_filter.2 ⟨hlt, (hw.isSome_live?_iff.1 hi).2⟩
  · obtain ⟨n, hn⟩ := Option.isSome_iff_exists.1 hlive
    exact Finset.mem_filter.2 ⟨Finset.mem_range.2 (lt_length_of_live? hn), hlive⟩
  · exact fun hi => (hw.isSome_live?_iff.1 (Finset.mem_filter.1 hi).2).1 hid

/-- Different live nodes are all found and removed. -/
theorem eliminateAll_fst (hnodup : ids.Nodup) (hlive : ∀ id ∈ ids, (g.live? id).isSome = true) :
    (eliminateAll ids g).1 = ids := by
  induction ids generalizing g with
  | nil => rfl
  | cons id ids ih =>
    obtain ⟨hid, hnodup⟩ := List.nodup_cons.1 hnodup
    obtain ⟨hfound, hlive⟩ := List.forall_mem_cons.1 hlive
    have hrest : ∀ i ∈ ids, ((g.markEliminated id).2.live? i).isSome = true := fun i hi => by
      rw [live?_markEliminated, if_neg fun (hii : i = id) => hid (hii ▸ hi)]
      exact hlive i hi
    simp only [eliminateAll, markEliminated_fst, hfound, ↓reduceIte, ih hnodup hrest]

/-! ### Needed nodes -/

/-- A live node that stays on its own account: a parameter, or one with an output of the graph. -/
def Anchored (g : Graph β) (id : Nat) : Prop :=
  ∃ n, g.live? id = some n ∧ (n.op = .parameter ∨ ∃ v ∈ g.outputs, v.node = id)

/-- A chain of references, which may be empty, leads from the node to one that stays on its own
account. -/
def Needed (g : Graph β) (id : Nat) : Prop :=
  ∃ root, ReflTransGen g.Feeds id root ∧ g.Anchored root

theorem Anchored.needed (hid : g.Anchored id) : g.Needed id :=
  ⟨id, .refl, hid⟩

theorem Needed.of_feeds (hb : g.Needed b) (hab : g.Feeds a b) : g.Needed a := by
  obtain ⟨root, hchain, hroot⟩ := hb
  exact ⟨root, .head hab hchain, hroot⟩

/-- Needed nodes are live. -/
theorem Needed.isSome_live? (hid : g.Needed id) (hd : g.NoDangling) :
    (g.live? id).isSome = true := by
  obtain ⟨root, hchain, n, hn, -⟩ := hid
  obtain rfl | ⟨b, ⟨u, v, hu, -, rfl⟩, -⟩ := ReflTransGen.cases_head hchain
  · rw [hn, Option.isSome_some]
  · obtain ⟨m, hm, -⟩ := hasValue_iff.1 (hd.reads hu)
    rw [hm, Option.isSome_some]

/-- A live node is unused when it has no output of the graph and no reader. -/
theorem isUnusedNode_iff_not_feeds (hk : g.WellKept) (hd : g.NoDangling)
    (hn : g.live? id = some n) :
    g.isUnusedNode id = true ↔ (∀ v ∈ g.outputs, v.node ≠ id) ∧ ∀ b, ¬ g.Feeds id b := by
  rw [hk.isUnusedNode_iff hn]
  constructor
  · refine fun hfree => ⟨fun v hv hid => (hfree v (hd.outputs v hv) hid).1 hv, ?_⟩
    rintro _ ⟨u, v, hu, -, hid⟩
    exact (hfree v (hd.reads hu) hid).2 u hu
  · rintro ⟨hout, hfeeds⟩ v - rfl
    exact ⟨fun hv => hout v hv rfl, fun u hu => hfeeds _ hu.feeds⟩

/-- A round finds the live nodes that stay neither on their own account nor because of a reader. -/
theorem mem_deadNodes (hk : g.WellKept) (hd : g.NoDangling) :
    id ∈ g.deadNodes ↔
      (g.live? id).isSome = true ∧ ¬ g.Anchored id ∧ ∀ b, ¬ g.Feeds id b := by
  simp only [deadNodes, List.mem_map, List.mem_filter, liveNodes, List.mem_filterMap,
    Bool.and_eq_true, bne_iff_ne]
  constructor
  · rintro ⟨n, ⟨⟨i, -, hn⟩, hop, hunused⟩, rfl⟩
    obtain rfl : n.id = i := hk.numbered.live hn
    obtain ⟨hout, hfeeds⟩ := (isUnusedNode_iff_not_feeds hk hd hn).1 hunused
    refine ⟨by rw [hn, Option.isSome_some], ?_, hfeeds⟩
    rintro ⟨m, hm, hanchor⟩
    obtain rfl : n = m := Option.some.inj (hn.symm.trans hm)
    obtain hparameter | ⟨v, hv, hid⟩ := hanchor
    · exact hop hparameter
    · exact hout v hv hid
  · rintro ⟨hlive, hanchor, hfeeds⟩
    obtain ⟨n, hn⟩ := Option.isSome_iff_exists.1 hlive
    obtain rfl : n.id = id := hk.numbered.live hn
    have hstored : n.id ∈ g.order := (hk.ordered.mem_iff _).2 (hasNode_of_node? (node?_of_live? hn))
    have hout : ∀ v ∈ g.outputs, v.node ≠ n.id := fun v hv hid =>
      hanchor ⟨n, hn, .inr ⟨v, hv, hid⟩⟩
    refine ⟨n, ⟨⟨n.id, hstored, hn⟩, fun hop => hanchor ⟨n, hn, .inl hop⟩, ?_⟩, rfl⟩
    exact (isUnusedNode_iff_not_feeds hk hd hn).2 ⟨hout, hfeeds⟩

/-- A round finds no node twice. -/
theorem WellKept.nodup_deadNodes (hk : g.WellKept) : g.deadNodes.Nodup := by
  have hnodup : (g.liveNodes.map Node.id).Nodup :=
    hk.numbered.map_id_liveNodes ▸ hk.ordered.nodup.filter _
  exact hnodup.sublist (List.filter_sublist.map _)

theorem not_needed_of_mem_deadNodes (hk : g.WellKept) (hd : g.NoDangling)
    (hid : id ∈ g.deadNodes) : ¬ g.Needed id := by
  obtain ⟨-, hanchor, hfeeds⟩ := (mem_deadNodes hk hd).1 hid
  rintro ⟨root, hchain, hroot⟩
  obtain rfl | ⟨b, hb, -⟩ := ReflTransGen.cases_head hchain
  · exact hanchor hroot
  · exact hfeeds b hb

/-- When there is nothing left for a round to find, every live node is needed. -/
theorem needed_of_deadNodes_eq_nil (hk : g.WellKept) (ha : g.Acyclic) (hd : g.NoDangling)
    (hdead : g.deadNodes = []) (hid : (g.live? id).isSome = true) : g.Needed id := by
  induction id using ha.wellFounded_flip.induction with
  | _ id ih =>
    by_contra hneeded
    have hmem : id ∈ g.deadNodes := by
      refine (mem_deadNodes hk hd).2 ⟨hid, fun hanchor => hneeded hanchor.needed, fun b hb => ?_⟩
      have hlive : (g.live? b).isSome = true := Option.isSome_iff_exists.2 hb.exists_live?
      exact hneeded ((ih b hb hlive).of_feeds hb)
    rw [hdead] at hmem
    exact List.not_mem_nil hmem

/-- Nodes on no chain to a node that stays may go: the chains of the others are left alone. -/
theorem Without.needed_iff (hw : g.Without ids h) (hids : ∀ id ∈ ids, ¬ g.Needed id) :
    h.Needed id ↔ g.Needed id := by
  constructor
  · rintro ⟨root, hchain, n, hn, hanchor⟩
    have hstays : root ∉ ids := (hw.isSome_live?_iff.1 (by rw [hn, Option.isSome_some])).1
    rw [hw.live?, if_neg hstays] at hn
    rw [hw.outputs] at hanchor
    exact ⟨root, ReflTransGen.mono (fun _ _ hab => (hw.feeds.1 hab).2) id root hchain, n, hn,
      hanchor⟩
  · rintro ⟨root, hchain, hroot⟩
    refine ⟨root, ?_, ?_⟩
    · induction hchain using ReflTransGen.head_induction_on with
      | refl => exact .refl
      | head hab hchain ih =>
        exact .head (hw.feeds.2 ⟨fun hb => hids _ hb ⟨root, hchain, hroot⟩, hab⟩) ih
    · have hstays : root ∉ ids := fun hmem => hids root hmem hroot.needed
      obtain ⟨n, hn, hanchor⟩ := hroot
      refine ⟨n, ?_, ?_⟩
      · rw [hw.live?, if_neg hstays, hn]
      · rwa [hw.outputs]

/-- Nodes that nothing reads may go: no reference to them is left dangling. -/
theorem Without.noDangling (hw : g.Without ids h) (hd : g.NoDangling)
    (hids : ∀ id ∈ ids, ¬ g.Anchored id ∧ ∀ b, ¬ g.Feeds id b) : h.NoDangling := by
  constructor
  · intro u v hu
    have hu := (hw.reads.1 hu).2
    exact hw.hasValue.2 ⟨fun hid => (hids _ hid).2 _ hu.feeds, hd.reads hu⟩
  · intro v hv
    rw [hw.outputs] at hv
    obtain ⟨n, hn, -⟩ := hasValue_iff.1 (hd.outputs v hv)
    exact hw.hasValue.2 ⟨fun hid => (hids _ hid).1 ⟨n, hn, .inr ⟨v, hv, rfl⟩⟩, hd.outputs v hv⟩

/-! ### What rounds of removal keep -/

/-- The graph `h` is the graph `g` without the nodes `removed`, none of which is needed, and which
have been removed after their readers. -/
structure Cleared (g : Graph β) (removed : List Nat) (h : Graph β) : Prop
    extends g.Without removed h where
  wellKept : h.WellKept
  noDangling : h.NoDangling
  nodup : removed.Nodup
  live : ∀ id ∈ removed, (g.live? id).isSome = true
  readers_first : ∀ ⦃front id rest⦄, removed = front ++ id :: rest → ∀ b, g.Feeds id b → b ∈ front
  needed : ∀ id, h.Needed id ↔ g.Needed id

namespace Cleared

theorem refl (hk : g.WellKept) (hd : g.NoDangling) : g.Cleared [] g where
  toWithout := .refl g
  wellKept := hk
  noDangling := hd
  nodup := .nil
  live := by simp
  readers_first := by simp
  needed _ := .rfl

/-- The nodes of later rounds are not those of earlier rounds, among which all their other readers
are. -/
theorem trans (hgh : g.Cleared removed h) (hhk : h.Cleared more k) :
    g.Cleared (removed ++ more) k where
  toWithout := hgh.toWithout.trans hhk.toWithout
  wellKept := hhk.wellKept
  noDangling := hhk.noDangling
  nodup := by
    refine List.nodup_append.2 ⟨hgh.nodup, hhk.nodup, ?_⟩
    rintro id hid _ hmore rfl
    exact (hgh.isSome_live?_iff.1 (hhk.live id hmore)).1 hid
  live := by
    intro id hid
    obtain hid | hid := List.mem_append.1 hid
    · exact hgh.live id hid
    · exact (hgh.isSome_live?_iff.1 (hhk.live id hid)).2
  readers_first := by
    intro front id rest heq b hb
    have hlater : ∀ mid, more = mid ++ id :: rest → b ∈ removed ++ mid := by
      intro mid hmore
      by_cases hbr : b ∈ removed
      · exact List.mem_append_left _ hbr
      · exact List.mem_append_right _ (hhk.readers_first hmore b (hgh.feeds.2 ⟨hbr, hb⟩))
    -- The node is one of the later rounds, the first of them, or one of the earlier rounds.
    obtain ⟨mid, rfl, hmore⟩ | ⟨mid, hremoved, hrest⟩ := List.append_eq_append_iff.1 heq
    · exact hlater mid hmore
    · cases mid with
      | nil => simpa [hremoved] using hlater [] hrest.symm
      | cons i mid =>
        obtain ⟨rfl, -⟩ := List.cons.inj hrest
        exact hgh.readers_first hremoved b hb
  needed id := (hhk.needed id).trans (hgh.needed id)

/-- One round removes nodes without readers. -/
theorem round (hk : g.WellKept) (hd : g.NoDangling) :
    g.Cleared (eliminateAll g.deadNodes g).1 (eliminateAll g.deadNodes g).2 := by
  have hdead : ∀ id ∈ g.deadNodes, (g.live? id).isSome = true ∧ ¬ g.Anchored id ∧
      ∀ b, ¬ g.Feeds id b := fun id hid => (mem_deadNodes hk hd).1 hid
  have hw : g.Without g.deadNodes (eliminateAll g.deadNodes g).2 := .of_eliminateAll _ g
  rw [eliminateAll_fst hk.nodup_deadNodes fun id hid => (hdead id hid).1]
  constructor
  case toWithout => exact hw
  case wellKept => exact hk.eliminateAll _
  case noDangling => exact hw.noDangling hd fun id hid => (hdead id hid).2
  case nodup => exact hk.nodup_deadNodes
  case live => exact fun id hid => (hdead id hid).1
  case readers_first =>
    intro front id rest heq b hb
    have hid : id ∈ g.deadNodes := heq ▸ List.mem_append_right _ List.mem_cons_self
    exact absurd hb ((hdead id hid).2.2 b)
  case needed => exact fun id => hw.needed_iff fun i hi => not_needed_of_mem_deadNodes hk hd hi

end Cleared

/-! ### Rounds to the end -/

/-- Rounds that remove dead nodes until one of them finds none, without a bound on their number. -/
inductive DeadRounds : Graph β → List Nat → Graph β → Prop
  | done {g : Graph β} : g.deadNodes = [] → DeadRounds g [] g
  | round {g h : Graph β} {removed : List Nat} : g.deadNodes ≠ [] →
      DeadRounds (eliminateAll g.deadNodes g).2 removed h →
      DeadRounds g ((eliminateAll g.deadNodes g).1 ++ removed) h

theorem DeadRounds.deadNodes_eq_nil (hr : DeadRounds g removed h) : h.deadNodes = [] := by
  induction hr with
  | done hdead => exact hdead
  | round _ _ ih => exact ih

theorem DeadRounds.cleared (hr : DeadRounds g removed h) (hk : g.WellKept) (hd : g.NoDangling) :
    g.Cleared removed h := by
  induction hr with
  | done => exact .refl hk hd
  | round _ _ ih =>
    have hround := Cleared.round hk hd
    exact hround.trans (ih hround.wellKept hround.noDangling)

/-- As many rounds as there are live nodes, and one that finds nothing, reach the end. -/
theorem deadRounds_eliminateRounds (hk : g.WellKept) (hd : g.NoDangling) {rounds : Nat}
    (hrounds : g.liveCount < rounds) :
    DeadRounds g (eliminateRounds rounds g).1 (eliminateRounds rounds g).2 := by
  induction rounds generalizing g with
  | zero => exact absurd hrounds (Nat.not_lt_zero _)
  | succ rounds ih =>
    cases hdead : g.deadNodes with
    | nil =>
      simp only [eliminateRounds, hdead]
      exact .done hdead
    | cons id dead =>
      have hmem : id ∈ g.deadNodes := hdead ▸ List.mem_cons_self
      have hlt := (Without.of_eliminateAll g.deadNodes g).liveCount_lt hmem
        ((mem_deadNodes hk hd).1 hmem).1
      have hround := Cleared.round hk hd
      have hrest := ih hround.wellKept hround.noDangling (by omega)
      have hne : g.deadNodes ≠ [] := hdead ▸ List.cons_ne_nil id dead
      have hall := DeadRounds.round hne hrest
      simp only [eliminateRounds, hdead] at hall ⊢
      exact hall

theorem eliminateDead_of_deadNodes_eq_nil (hdead : g.deadNodes = []) :
    g.eliminateDead = ([], g) := by
  simp only [eliminateDead, eliminateRounds, hdead]

/-! ### The account of the removal -/

/-- The graph `h` is the graph `g` without its dead nodes `removed`.  Of all slots, only those of
these nodes change, and they are marked; order and outputs stay. -/
structure DeadRemoval (g : Graph β) (removed : List Nat) (h : Graph β) : Prop
    extends g.Without removed h where
  /-- The rounds come to an end. -/
  rounds : DeadRounds g removed h
  /-- The nodes that stay are those that are needed. -/
  survives : ∀ id, (h.live? id).isSome = true ↔ g.Needed id
  /-- The list names the nodes that are gone, each of them once. -/
  mem_removed : ∀ id, id ∈ removed ↔ (g.live? id).isSome = true ∧ h.live? id = none
  nodup : removed.Nodup
  /-- The readers of a node that is gone are gone, and come before it. -/
  readers_first : ∀ ⦃front id rest⦄, removed = front ++ id :: rest → ∀ b, g.Feeds id b → b ∈ front
  /-- Parameters stay as they are. -/
  parameters : ∀ id n, g.live? id = some n → n.op = .parameter → h.live? id = some n
  noDangling : h.NoDangling
  /-- A second removal finds nothing. -/
  again : h.eliminateDead = ([], h)

/-- **The removal of dead nodes.**  In a graph without cycles and dangling references, it comes to
an end with exactly the needed nodes. -/
theorem deadRemoval_eliminateDead (hk : g.WellKept) (ha : g.Acyclic) (hd : g.NoDangling) :
    g.DeadRemoval g.eliminateDead.1 g.eliminateDead.2 := by
  have hrounds : DeadRounds g g.eliminateDead.1 g.eliminateDead.2 :=
    deadRounds_eliminateRounds hk hd (Nat.lt_succ_of_le List.countP_le_length)
  have hc := hrounds.cleared hk hd
  have hsurvives : ∀ id, (g.eliminateDead.2.live? id).isSome = true ↔ g.Needed id := by
    intro id
    rw [← hc.needed id]
    exact ⟨needed_of_deadNodes_eq_nil hc.wellKept (hc.acyclic ha) hc.noDangling
      hrounds.deadNodes_eq_nil, fun hid => hid.isSome_live? hc.noDangling⟩
  constructor
  case toWithout => exact hc.toWithout
  case rounds => exact hrounds
  case survives => exact hsurvives
  case mem_removed =>
    intro id
    rw [← Option.not_isSome_iff_eq_none, hc.isSome_live?_iff]
    constructor
    · exact fun hid => ⟨hc.live id hid, fun hstays => hstays.1 hid⟩
    · rintro ⟨hlive, hgone⟩
      exact not_not.1 fun hid => hgone ⟨hid, hlive⟩
  case nodup => exact hc.nodup
  case readers_first => exact hc.readers_first
  case parameters =>
    intro id n hn hop
    have hid : g.Needed id := Anchored.needed ⟨n, hn, .inl hop⟩
    rw [hc.live?, if_neg (hc.isSome_live?_iff.1 ((hsurvives id).2 hid)).1, hn]
  case noDangling => exact hc.noDangling
  case again => exact eliminateDead_of_deadNodes_eq_nil hrounds.deadNodes_eq_nil

/-- The sum of the two values of node 3 is not read.  Node 2 also leads to the output, node 6 to a
parameter that has an input, and nothing reads the parameter 1. -/
def unreadSumSpecs : List (NodeSpec Unit) :=
  [{ op := .parameter, outputs := [.planar (.ofLengths [2]) .f32] },
    { op := .parameter, outputs := [.planar (.ofLengths [2]) .f32] },
    { op := .relu, inputs := [⟨0, 0⟩], outputs := [.planar (.ofLengths [2]) .f32] },
    { op := .split, inputs := [⟨2, 0⟩],
      outputs := [.planar (.ofLengths [2]) .f32, .planar (.ofLengths [2]) .f32] },
    { op := .add, inputs := [⟨3, 0⟩, ⟨3, 1⟩], outputs := [.planar (.ofLengths [2]) .f32] },
    { op := .relu, inputs := [⟨2, 0⟩], outputs := [.planar (.ofLengths [2]) .f32] },
    { op := .relu, inputs := [⟨0, 0⟩], outputs := [.planar (.ofLengths [2]) .f32] },
    { op := .parameter, inputs := [⟨6, 0⟩], outputs := [.planar (.ofLengths [2]) .f32] }]

/-- The sum goes in the first round, and the node that it reads in the second one. -/
theorem deadRemoval_unreadSum :
    let g := ofSpecs unreadSumSpecs [⟨5, 0⟩]
    g.WellKept ∧ g.Acyclic ∧ g.NoDangling ∧ g.eliminateDead.1 = [4, 3] ∧
      g.DeadRemoval [4, 3] g.eliminateDead.2 := by
  obtain ⟨hk, ha, hd⟩ := ofSpecs_sound unreadSumSpecs [⟨5, 0⟩] (by decide +kernel)
    (by decide +kernel)
  have hremoved : (ofSpecs unreadSumSpecs [⟨5, 0⟩]).eliminateDead.1 = [4, 3] := by decide +kernel
  exact ⟨hk, ha, hd, hremoved, hremoved ▸ deadRemoval_eliminateDead hk ha hd⟩

end Graph

end Dataflow
