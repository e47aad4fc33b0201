import Dataflow.Proofs.Graph.Elimination
import Dataflow.Proofs.Graph.Specs
import Dataflow.Proofs.Graph.Walk

/-!
# What a backward walk reaches

A backward walk goes from a live node to the producers of its inputs, and from these to the producers
of theirs.  It leaves out the producers that are marked as eliminated.  But a producer whose slot has
been emptied carries no mark: the walk puts its number into the queue, and ends when it gets there,
with other producers still behind it.

Forward and backward walks see different things.  A forward walk goes by the index of uses and the
outputs of a node, a backward walk by the inputs of live nodes.  Whatever steps lead to a graph, the
index lists every input of a live node, so that the two walks can disagree in three cases only: a
producer is missing, an output that is read does not exist, or a use of an eliminated node is listed.

## Main definitions

* `Graph.LiveFeeds` : one reference between live nodes.
* `Graph.ReadsListed` : the index of uses lists everything that live nodes read.
* `Graph.Backtracks` : what is to be said about a backward walk.

## Main statements

* `Graph.backtracks` : the account of the backward walk from a live node.
* `Change.readsListed_runAll` : every step keeps all reads listed.
* `Change.predecessors_runAll` : predecessors and successors in every graph that steps lead to.
-/

namespace Dataflow

open Relation

variable {β : Type}

namespace Graph

variable {g : Graph β} {a b c : Nat} {u : Use} {v : Value} {n : Node β}

/-! ### References between live nodes -/

/-- The live node `a` produces a value that the live node `b` reads. -/
def LiveFeeds (g : Graph β) (a b : Nat) : Prop :=
  (∃ n, g.live? a = some n) ∧ g.Feeds a b

theorem isEliminated_of_live? (hn : g.live? a = some n) : g.isEliminated a = false := by
  obtain ⟨s, hs, he, -⟩ := live?_eq_some.1 hn
  simp [isEliminated, hs, he]

theorem mem_nearby_backward (hn : g.live? b = some n) :
    a ∈ g.nearby .backward b ↔ g.Feeds a b ∧ g.isEliminated a = false := by
  simp only [mem_nearby, node?_of_live? hn, Option.some.injEq, exists_eq_left', neighbours,
    List.mem_filter, List.mem_map, Bool.not_eq_true']
  refine and_congr_left fun _ => ⟨?_, ?_⟩
  · rintro ⟨v, hv, rfl⟩
    exact .of_mem hn hv
  · rintro ⟨u, v, ⟨m, hm, hv⟩, rfl, rfl⟩
    obtain rfl : m = n := Option.some.inj (hm.symm.trans hn)
    exact ⟨v, List.mem_of_getElem? hv, rfl⟩

/-- Going back from a live node one meets no marked node, and chains of references only. -/
theorem liveFeeds_of_nearby (hb : ∃ n, g.live? b = some n)
    (h : ReflTransGen (fun x y => y ∈ g.nearby .backward x) b a) :
    g.isEliminated a = false ∧ ((∃ n, g.live? a = some n) → ReflTransGen g.LiveFeeds a b) := by
  induction h with
  | refl =>
    obtain ⟨n, hn⟩ := hb
    exact ⟨isEliminated_of_live? hn, fun _ => .refl⟩
  | @tail x y _ hxy ih =>
    obtain ⟨hunmarked, hchain⟩ := ih
    -- A number with neighbours names a stored node, and an unmarked one is live.
    obtain ⟨m, hm, -⟩ := mem_nearby.1 hxy
    have hx := live?_of_node? hm hunmarked
    obtain ⟨hfeeds, hy⟩ := (mem_nearby_backward hx).1 hxy
    exact ⟨hy, fun hlive => .head ⟨hlive, hfeeds⟩ (hchain ⟨m, hx⟩)⟩

theorem nearby_of_liveFeeds (h : ReflTransGen g.LiveFeeds a b) :
    ReflTransGen (fun x y => y ∈ g.nearby .backward x) b a := by
  induction h using ReflTransGen.head_induction_on with
  | refl => exact .refl
  | head hab _ ih =>
    obtain ⟨⟨m, hm⟩, hfeeds⟩ := hab
    obtain ⟨n, hn⟩ := hfeeds.exists_live?
    exact ih.tail ((mem_nearby_backward hn).2 ⟨hfeeds, isEliminated_of_live? hm⟩)

/-- A search backward from a live node finds the live nodes that lead to it, among numbers of slots
that are empty. -/
theorem mem_searches_backward (hb : ∃ n, g.live? b = some n) {order : List Nat}
    (h : Searches (g.nearby .backward) [b] [b] order) :
    a ∈ order ∧ g.hasNode a = true ↔ ReflTransGen g.LiveFeeds a b ∧ ∃ n, g.live? a = some n := by
  rw [h.mem_iff (r := fun x y => y ∈ g.nearby .backward x) fun _ _ => Iff.rfl]
  constructor
  · rintro ⟨hreach, hstored⟩
    obtain ⟨hunmarked, hchain⟩ := liveFeeds_of_nearby hb hreach
    obtain ⟨n, hn⟩ := exists_node?_of_hasNode hstored
    have hlive := live?_of_node? hn hunmarked
    exact ⟨hchain ⟨n, hlive⟩, n, hlive⟩
  · rintro ⟨hchain, n, hn⟩
    exact ⟨nearby_of_liveFeeds hchain, hasNode_of_node? (node?_of_live? hn)⟩

/-! ### Predecessors -/

/-- The entries up to the first one that fails the test are those with none that fails before. -/
private theorem mem_takeWhile_iff {p : Nat → Bool} {l : List Nat} :
    a ∈ l.takeWhile p ↔
      p a = true ∧ ∃ before after, l = before ++ a :: after ∧ ∀ m ∈ before, p m = true := by
  constructor
  · intro ha
    obtain ⟨before, after, hsplit⟩ := List.append_of_mem ha
    refine ⟨List.mem_takeWhile_imp ha, before, after ++ l.dropWhile p, ?_, fun m hm => ?_⟩
    · rw [← List.cons_append, ← List.append_assoc, ← hsplit, List.takeWhile_append_dropWhile]
    · exact List.mem_takeWhile_imp (hsplit ▸ List.mem_append_left _ hm)
  · rintro ⟨ha, before, after, rfl, hbefore⟩
    rw [List.takeWhile_append_of_pos hbefore, List.takeWhile_cons_of_pos ha]
    exact List.mem_append_right _ List.mem_cons_self

/-- The predecessors of a live node are live and do not repeat.  They are the other nodes that lead to
it through live nodes, those excepted which come after an empty slot in the breadth-first order. -/
structure Backtracks (g : Graph β) (b : Nat) : Prop where
  live : ∀ n ∈ g.predecessors b, g.live? n.id = some n
  nodup : ((g.predecessors b).map Node.id).Nodup
  mem_iff : ∃ order, Searches (g.nearby .backward) [b] [b] order ∧
    ∀ a, a ∈ (g.predecessors b).map Node.id ↔ a ≠ b ∧ TransGen g.LiveFeeds a b ∧
      ∃ before after, order = before ++ a :: after ∧ ∀ m ∈ before, g.hasNode m = true
  /-- No node is missed if no node that leads there reads from an empty slot. -/
  complete : (∀ u v, g.Reads u v → ReflTransGen g.LiveFeeds u.node b → g.hasNode v.node = true) →
    ∀ a, a ∈ (g.predecessors b).map Node.id ↔ a ≠ b ∧ TransGen g.LiveFeeds a b

/-- The other nodes that lead to a live node are what a search backward finds in filled slots. -/
theorem mem_searches_iff_transGen (hb : ∃ n, g.live? b = some n) {order : List Nat}
    (h : Searches (g.nearby .backward) [b] [b] order) (hne : a ≠ b) :
    a ∈ order ∧ g.hasNode a = true ↔ TransGen g.LiveFeeds a b := by
  rw [mem_searches_backward hb h, reflTransGen_iff_eq_or_transGen]
  constructor
  · exact fun hchain => hchain.1.resolve_left (Ne.symm hne)
  · intro hchain
    obtain ⟨-, ⟨hlive, -⟩, -⟩ := TransGen.head'_iff.1 hchain
    exact ⟨.inr hchain, hlive⟩

/-- The predecessors of a stored node are the others that a search finds before an empty slot. -/
theorem mem_predecessors (hnum : g.Numbered) (hb : g.hasNode b = true) {order : List Nat}
    (h : Searches (g.nearby .backward) [b] [b] order) :
    ((g.predecessors b).map Node.id).Nodup ∧
      ∀ a, a ∈ (g.predecessors b).map Node.id ↔ a ≠ b ∧ a ∈ order.takeWhile g.hasNode := by
  obtain ⟨rest, hrest⟩ := h.exists_cons
  have hwalk := hnum.map_id_walk h
  have hnodup : (order.takeWhile g.hasNode).Nodup := h.nodup.sublist (List.takeWhile_sublist _)
  rw [hrest, List.takeWhile_cons_of_pos hb] at hwalk hnodup ⊢
  obtain ⟨hnot, hnodup⟩ := List.nodup_cons.1 hnodup
  rw [predecessors, List.map_drop, hwalk, List.drop_one, List.tail_cons]
  refine ⟨hnodup, fun a => ⟨fun ha => ⟨fun heq => hnot (heq ▸ ha), List.mem_cons_of_mem b ha⟩, ?_⟩⟩
  exact fun ⟨hne, ha⟩ => (List.mem_cons.1 ha).resolve_left hne

/-- If no node that leads to a live node reads from an empty slot, a search backward from there takes
numbers of stored nodes only. -/
theorem hasNode_of_mem_searches (hb : ∃ n, g.live? b = some n) {order : List Nat}
    (h : Searches (g.nearby .backward) [b] [b] order)
    (hreads : ∀ u v, g.Reads u v → ReflTransGen g.LiveFeeds u.node b → g.hasNode v.node = true) :
    ∀ id ∈ order, g.hasNode id = true := by
  have hlive : ∀ id ∈ order, (∃ n, g.live? id = some n) ∧ ReflTransGen g.LiveFeeds id b := by
    refine h.induction (fun id ⟨⟨n, hn⟩, hchain⟩ k hk => ?_) (by simpa using ⟨hb, .refl⟩)
    obtain ⟨⟨u, v, hu, rfl, rfl⟩, hunmarked⟩ := (mem_nearby_backward hn).1 hk
    obtain ⟨m, hm⟩ := exists_node?_of_hasNode (hreads u v hu hchain)
    have hlive := live?_of_node? hm hunmarked
    exact ⟨⟨m, hlive⟩, .head ⟨⟨m, hlive⟩, hu.feeds⟩ hchain⟩
  intro id hid
  obtain ⟨⟨n, hn⟩, -⟩ := hlive id hid
  exact hasNode_of_node? (node?_of_live? hn)

theorem backtracks (hnum : g.Numbered) (hb : ∃ n, g.live? b = some n) : g.Backtracks b := by
  obtain ⟨order, horder⟩ := g.exists_searches_nearby .backward b
  have hstored : g.hasNode b = true := by
    obtain ⟨n, hn⟩ := hb
    exact hasNode_of_node? (node?_of_live? hn)
  obtain ⟨hnodup, hmem⟩ := mem_predecessors hnum hstored horder
  refine ⟨fun n hn => ?_, hnodup, ⟨order, horder, fun a => ?_⟩, fun hreads a => ?_⟩
  · have hnode := hnum.node?_of_mem_walk (List.mem_of_mem_drop hn)
    obtain ⟨-, ha⟩ := (hmem n.id).1 (List.mem_map_of_mem hn)
    have hin := (List.takeWhile_sublist _).subset ha
    obtain ⟨-, m, hm⟩ := (mem_searches_backward hb horder).1 ⟨hin, hasNode_of_node? hnode⟩
    obtain rfl : m = n := Option.some.inj ((node?_of_live? hm).symm.trans hnode)
    exact hm
  · rw [hmem, mem_takeWhile_iff]
    refine and_congr_right fun hne => ?_
    rw [← mem_searches_iff_transGen hb horder hne]
    constructor
    · rintro ⟨ha, before, after, hsplit, hbefore⟩
      have hin : a ∈ order := hsplit ▸ List.mem_append_right _ List.mem_cons_self
      exact ⟨⟨hin, ha⟩, before, after, hsplit, hbefore⟩
    · exact fun ⟨⟨_, ha⟩, hsplit⟩ => ⟨ha, hsplit⟩
  · have hall := hasNode_of_mem_searches hb horder hreads
    rw [hmem, List.takeWhile_eq_self_iff.2 hall]
    refine and_congr_right fun hne => ?_
    rw [← mem_searches_iff_transGen hb horder hne]
    exact ⟨fun ha => ⟨ha, hall a ha⟩, And.left⟩

/-! ### What the index lists -/

/-- The index of uses lists everything that live nodes read. -/
def ReadsListed (g : Graph β) : Prop :=
  ∀ u v, g.Reads u v → u ∈ g.uses v

theorem readsListed_empty : (empty : Graph β).ReadsListed := fun _ _ hu =>
  absurd hu not_reads_empty

theorem ReadsListed.push (h : g.ReadsListed) (spec : NodeSpec β) : (g.push spec).ReadsListed := by
  intro u v hu
  rw [uses_push, List.mem_append]
  refine ((reads_push g spec).1 hu).imp (h u v) fun hnew => ?_
  exact List.mem_map.2 ⟨(v, u), List.mem_filter.2 ⟨mem_reads_iff.2 hnew, by simp⟩, rfl⟩

/-- Rewiring a use changes nothing for the other ones, whether or not its node is live. -/
theorem reads_rewire_of_ne (g : Graph β) {u' : Use} (hne : u' ≠ u) (v w x : Value) :
    (g.rewire u v w).Reads u' x ↔ g.Reads u' x := by
  obtain ⟨node, input⟩ := u
  obtain ⟨node', input'⟩ := u'
  simp only [Reads, live?_rewire]
  by_cases hnode : node' = node
  · subst hnode
    have hinput : input ≠ input' := fun heq => hne (heq ▸ rfl)
    simp [hinput]
  · simp [hnode]

theorem ReadsListed.rewire (h : g.ReadsListed) (hu : g.input? u = some v) (w : Value) :
    (g.rewire u v w).ReadsListed := by
  intro u' x hx
  rw [uses_rewire, List.mem_append]
  by_cases huu : u' = u
  · subst huu
    have hin := input?_rewire hu w u'
    rw [if_pos rfl] at hin
    obtain ⟨n, hn, hv⟩ := hx
    simp only [input?, node?_of_live? hn, Option.bind_some, hv, Option.some.injEq] at hin
    exact .inr (by simp [hin])
  · have hmem : u' ∈ g.uses x := h u' x ((reads_rewire_of_ne g huu v w x).1 hx)
    left
    split
    · exact List.mem_filter.2 ⟨hmem, by simpa using huu⟩
    · exact hmem

theorem ReadsListed.markEliminated (hnum : g.Numbered) (h : g.ReadsListed) (i : Nat) :
    (g.markEliminated i).2.ReadsListed := by
  cases hi : g.live? i with
  | none => rwa [markEliminated_of_not_live hi]
  | some n =>
    intro u v hu
    obtain ⟨hne, hu⟩ := (reads_markEliminated g i).1 hu
    rw [uses_markEliminated hi, List.mem_filter, Bool.not_eq_true', ← Bool.not_eq_true,
      List.contains_iff_mem, mem_reads_iff]
    exact ⟨h u v hu, fun hread => hne (hread.1.trans (hnum.live hi))⟩

/-! ### Predecessors and successors -/

/-- No use is listed of a node that is not live. -/
def UsersLive (g : Graph β) : Prop :=
  ∀ v, ∀ u ∈ g.uses v, ∃ n, g.live? u.node = some n

theorem Traceable.usersStored (h : g.Traceable) : g.UsersStored := by
  intro v u hu
  obtain ⟨s, hs, -⟩ := input?_eq_some.1 (h.input? v u hu)
  exact hasNode_of_node? (node?_eq_some.2 ⟨s, hs, rfl⟩)

/-- A node that a live node supplies with a value is live and reads it, if no use is listed of other
nodes. -/
theorem Traceable.liveFeeds_of_supplies (h : g.Traceable) (husers : g.UsersLive)
    (ha : ∃ n, g.live? a = some n) (hab : g.Supplies a b) :
    g.LiveFeeds a b ∧ ∃ n, g.live? b = some n := by
  obtain ⟨-, -, v, rfl, -, u, hu, rfl⟩ := hab
  obtain ⟨n, hn⟩ := husers v u hu
  have hin := h.input? v u hu
  rw [Graph.input?, node?_of_live? hn, Option.bind_some] at hin
  exact ⟨⟨ha, Reads.feeds ⟨n, hn, hin⟩⟩, n, hn⟩

theorem Traceable.transGen_liveFeeds (h : g.Traceable) (husers : g.UsersLive)
    (ha : ∃ n, g.live? a = some n) (hab : TransGen g.Supplies a b) : TransGen g.LiveFeeds a b := by
  have hlive : TransGen g.LiveFeeds a b ∧ ∃ n, g.live? b = some n := by
    induction hab with
    | single hab => exact (h.liveFeeds_of_supplies husers ha hab).imp_left .single
    | tail _ hbc ih =>
      obtain ⟨hchain, hb⟩ := ih
      exact (h.liveFeeds_of_supplies husers hb hbc).imp_left hchain.tail
  exact hlive.1

/-- References between live nodes are listed as uses of existing outputs, if the nodes that lead to
`b` read existing outputs only. -/
theorem ReadsListed.transGen_supplies (h : g.ReadsListed)
    (hreads : ∀ u v, g.Reads u v → ReflTransGen g.LiveFeeds u.node b → (g.layout? v).isSome)
    (hab : TransGen g.LiveFeeds a b) : TransGen g.Supplies a b := by
  have hstep : ∀ {c d}, g.LiveFeeds c d → ReflTransGen g.LiveFeeds d b → g.Supplies c d := by
    rintro c d ⟨⟨n, hn⟩, u, v, hu, rfl, rfl⟩ hdb
    have hlayout := hreads u v hu hdb
    rw [layout?, producer?, node?_of_live? hn, Option.bind_some, isSome_getElem?] at hlayout
    exact ⟨n, node?_of_live? hn, v, rfl, hlayout, u, h u v hu, rfl⟩
  induction hab using TransGen.head_induction_on with
  | single hab => exact .single (hstep hab .refl)
  | head hac hcb ih => exact .head (hstep hac hcb.to_reflTransGen) ih

end Graph

namespace Change

variable {g : Graph β}

/-- After every step everything that live nodes read is listed. -/
theorem readsListed_run (c : Change β) (h : g.Traceable) (hg : g.ReadsListed) :
    (c.run g).ReadsListed := by
  by_cases hset : ∃ id input v, c = setInput id input v
  · obtain ⟨id, input, v, rfl⟩ := hset
    rw [run]
    obtain ⟨e, hr⟩ | ⟨w, hw, hr⟩ := apply_setInput g id input v <;> rw [hr]
    · exact hg
    · exact hg.rewire hw v
  by_cases hcompact : c = compact
  · subst hcompact
    exact fun u v hu => (h.numbered.wellKept_compact.indexed.mem_uses v u).2 hu
  exact (run_induction (P := Graph.ReadsListed) (fun _ spec _ hg => hg.push spec)
    (fun _ _ hg => hg) (fun _ u v w h hu hg => hg.rewire (h.input? v u hu) w)
    (fun _ id h hg => hg.markEliminated h.numbered id) hset hcompact h hg).2

theorem readsListed_runAll (cs : List (Change β)) (h : g.Traceable) (hg : g.ReadsListed) :
    (runAll cs g).ReadsListed := by
  induction cs generalizing g with
  | nil => exact hg
  | cons c cs ih => exact ih (c.traceable_run h) (c.readsListed_run h hg)

/-- **Predecessors and successors.**  Let any steps lead from the empty graph to one in which `a` and
`b` are different live nodes.  The predecessors of `b` are live nodes that lead to `b` through live
nodes, each once, and all of these that come before every empty slot in the breadth-first order.  The
successors of `a` are what the listed uses lead to.  So `b` is a successor of `a` exactly if `a` is a
predecessor of `b`, unless a node that leads to `b` reads what is no output of a stored node, or a use
of a node is listed that is not live. -/
theorem predecessors_runAll (cs : List (Change β)) {a b : Nat} (hab : a ≠ b)
    (ha : ∃ n, (runAll cs Graph.empty).live? a = some n)
    (hb : ∃ n, (runAll cs Graph.empty).live? b = some n) :
    let g := runAll cs Graph.empty
    g.Backtracks b ∧
      (b ∈ (g.successors a).map Node.id ↔ TransGen g.Supplies a b) ∧
        ((∀ u v, g.Reads u v → ReflTransGen g.LiveFeeds u.node b → (g.layout? v).isSome = true) →
          g.UsersLive →
            (b ∈ (g.successors a).map Node.id ↔ a ∈ (g.predecessors b).map Node.id)) := by
  intro g
  have htraceable : g.Traceable := traceable_runAll cs Graph.WellKept.empty.traceable
  have hlisted : g.ReadsListed :=
    readsListed_runAll cs Graph.WellKept.empty.traceable Graph.readsListed_empty
  have hback : g.Backtracks b := Graph.backtracks htraceable.numbered hb
  have hsuccessors : b ∈ (g.successors a).map Node.id ↔ TransGen g.Supplies a b := by
    obtain ⟨n, hn⟩ := ha
    have hsearch := htraceable.usersStored.searches_walk htraceable.numbered
      (Graph.hasNode_of_node? (Graph.node?_of_live? hn))
    rw [Graph.successors, List.map_drop,
      hsearch.mem_drop_iff (r := g.Supplies) fun _ _ => htraceable.numbered.supplies_iff]
    exact and_iff_right (Ne.symm hab)
  refine ⟨hback, hsuccessors, fun hreads husers => ?_⟩
  have hstored : ∀ u v, g.Reads u v → ReflTransGen g.LiveFeeds u.node b →
      g.hasNode v.node = true := by
    intro u v hu hchain
    obtain ⟨layout, hlayout⟩ := Option.isSome_iff_exists.1 (hreads u v hu hchain)
    obtain ⟨n, hn, -⟩ := Option.bind_eq_some_iff.1 hlayout
    exact Graph.hasNode_of_node? hn
  rw [hsuccessors, hback.complete hstored, and_iff_right hab]
  exact ⟨htraceable.transGen_liveFeeds husers ha, hlisted.transGen_supplies hreads⟩

/-- The sum of two parameters, the first of which is then marked as eliminated. -/
def removalChanges : List (Change Unit) :=
  [.addParameter "x" (.planar (.ofLengths [2]) .f32),
    .addParameter "y" (.planar (.ofLengths [2]) .f32),
    .addNode { op := .add, inputs := [⟨0, 0⟩, ⟨1, 0⟩], outputs := [.planar (.ofLengths [2]) .f32] },
    .markEliminated 0]

/-- As long as the marked parameter is stored, walks from the sum and to the sum agree. -/
theorem predecessors_removalChanges :
    let g := runAll removalChanges Graph.empty
    (1 ≠ 2 ∧ (∃ n, g.live? 1 = some n) ∧ ∃ n, g.live? 2 = some n) ∧
      g.Backtracks 2 ∧ (g.predecessors 2).map Node.id = [1] ∧
        (2 ∈ (g.successors 1).map Node.id ↔ 1 ∈ (g.predecessors 2).map Node.id) := by
  intro g
  have hk : g.WellKept := wellKept_runAll .empty ⟨trivial, trivial, trivial, trivial, trivial⟩
  have hreads : ∀ u v, g.Reads u v → (g.layout? v).isSome = true := by
    rintro u v ⟨n, hn, hv⟩
    have hall := Graph.forall_live_of_all (p := fun n => n.inputs.all fun v => (g.layout? v).isSome)
      (by decide) hn
    exact List.all_eq_true.1 hall v (List.mem_of_getElem? hv)
  obtain ⟨hback, -, hagree⟩ :=
    predecessors_runAll removalChanges (a := 1) (b := 2) (by decide) ⟨_, rfl⟩ ⟨_, rfl⟩
  refine ⟨⟨by decide, ⟨_, rfl⟩, _, rfl⟩, hback, by decide, hagree (fun u v hu _ => hreads u v hu) ?_⟩
  intro v u hu
  obtain ⟨n, hn, -⟩ := (hk.indexed.mem_uses v u).1 hu
  exact ⟨n, hn⟩

/-- After compaction the sum is a successor of the second parameter, and has no predecessors. -/
theorem exists_missed_predecessor :
    ¬ ∀ (cs : List (Change Unit)) (a b : Nat), a ≠ b →
      (∃ n, (runAll cs Graph.empty).live? a = some n) →
        (∃ n, (runAll cs Graph.empty).live? b = some n) →
          (b ∈ ((runAll cs Graph.empty).successors a).map Node.id ↔
            a ∈ ((runAll cs Graph.empty).predecessors b).map Node.id) := by
  intro hall
  have hagree := hall (removalChanges ++ [.compact]) 1 2 (by decide) ⟨_, rfl⟩ ⟨_, rfl⟩
  exact absurd (hagree.1 (by decide)) (by decide)

end Change

end Dataflow
