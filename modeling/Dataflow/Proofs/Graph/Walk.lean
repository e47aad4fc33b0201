import Dataflow.Proofs.Graph.BreadthFirst
import Dataflow.Proofs.Graph.References
import Mathlib.Data.List.TakeWhile

/-!
# Breadth-first walks

A walk is a breadth-first search that ends early: it stops at the first number that names no stored
node.  It has enough steps, because it takes every number once and only stored nodes before its end.
Forward walks meet stored nodes only, so they are whole searches, and paths are chains of references.

## Main definitions

* `Graph.nearby` : the numbers one step away.
* `Graph.Walks` : the nodes that a walk without a bound on its steps meets before it ends.
* `Graph.Supplies`, `Graph.Serves` : one step of a forward walk, by the index of uses and by the
  inputs of the nodes.

## Main statements

* `Graph.walk_eq` : a walk is a search up to the first number without a node.
* `Graph.walks_walk` : the bound on the steps of a walk is never met.
* `Graph.UsersStored.searches_walk` : forward walks are searches.
* `Graph.UsersStored.hasPath_iff`, `Graph.hasPath_iff` : paths are chains of listed uses, and of
  references.
-/

namespace Dataflow

namespace Graph

open Relation

variable {β : Type} {g : Graph β} {d : Direction} {queue seen order : List Nat} {met : List (Node β)}
  {start a b : Nat} {u : Use} {v : Value} {n : Node β}

/-! ### Walks without a bound -/

/-- The numbers one step away from a number, none if it names no stored node. -/
def nearby (g : Graph β) (d : Direction) (id : Nat) : List Nat :=
  ((g.node? id).map (g.neighbours d)).getD []

theorem mem_nearby : b ∈ g.nearby d a ↔ ∃ n, g.node? a = some n ∧ b ∈ g.neighbours d n := by
  unfold nearby
  cases g.node? a <;> simp

/-- A walk with the given queue meets the listed nodes and ends: its queue is empty, or a number
without a node is next. -/
inductive Walks (g : Graph β) (d : Direction) : (queue seen : List Nat) → List (Node β) → Prop
  | done {seen : List Nat} : Walks g d [] seen []
  | lost {id : Nat} {queue seen : List Nat} : g.node? id = none → Walks g d (id :: queue) seen []
  | meet {id : Nat} {queue seen : List Nat} {n : Node β} {met : List (Node β)} : g.node? id = some n →
      Walks g d (queue ++ unseen seen (g.neighbours d n)) (seen ++ unseen seen (g.neighbours d n)) met →
        Walks g d (id :: queue) seen (n :: met)

/-- A walk without a bound is met by every bound that leaves it enough steps. -/
theorem Walks.walkFrom_eq (h : g.Walks d queue seen met) {steps : Nat} (hsteps : met.length ≤ steps) :
    g.walkFrom d steps queue seen = met := by
  induction h generalizing steps with
  | done => cases steps <;> rfl
  | lost hnone =>
    cases steps with
    | zero => rfl
    | succ steps => simp only [walkFrom, hnone]
  | meet hn _ ih =>
    cases steps with
    | zero => simp at hsteps
    | succ steps =>
      simp only [walkFrom, hn]
      rw [ih (Nat.le_of_succ_le_succ hsteps)]

/-- A search meets the nodes of the numbers that it takes, until there is no node. -/
theorem Walks.of_searches (h : Searches (g.nearby d) queue seen order) :
    g.Walks d queue seen ((order.takeWhile g.hasNode).filterMap g.node?) := by
  induction h with
  | done => exact .done
  | @take id queue seen order _ ih =>
    cases hn : g.node? id with
    | none =>
      have hnot : g.hasNode id = false := by simpa [node?, hasNode] using hn
      rw [List.takeWhile_cons, hnot]
      exact .lost hn
    | some n =>
      have hnear : g.nearby d id = g.neighbours d n := by rw [nearby, hn]; rfl
      rw [hnear] at ih
      rw [List.takeWhile_cons, if_pos (hasNode_of_node? hn), List.filterMap_cons_some hn]
      exact .meet hn ih

/-- There is room for all numbers of stored nodes in the slots. -/
theorem length_le_of_stored {l : List Nat} (hl : l.Nodup) (hstored : ∀ id ∈ l, g.hasNode id = true) :
    l.length ≤ g.slots.length := by
  have hsub : l ⊆ List.range g.slots.length := by
    intro id hid
    obtain ⟨s, hs⟩ := Option.isSome_iff_exists.1 (hstored id hid)
    exact List.mem_range.2 (lt_length_of_slot? hs)
  simpa using (List.subperm_of_subset hl hsub).length_le

/-- A walk is a search up to the first number without a node. -/
theorem walk_eq (h : Searches (g.nearby d) [start] [start] order) :
    g.walk d start = (order.takeWhile g.hasNode).filterMap g.node? := by
  have hbound : (order.takeWhile g.hasNode).length ≤ g.slots.length :=
    length_le_of_stored (h.nodup.sublist (List.takeWhile_sublist _)) fun _ hid =>
      List.mem_takeWhile_imp hid
  have hmet := List.length_filterMap_le g.node? (order.takeWhile g.hasNode)
  exact (Walks.of_searches h).walkFrom_eq (by omega)

/-- A graph names only so many numbers, so that every search in it comes to an end. -/
theorem exists_searches_nearby (g : Graph β) (d : Direction) (start : Nat) :
    ∃ order, Searches (g.nearby d) [start] [start] order := by
  have hnext : ∀ id, g.nearby d id ⊆ start :: (List.range g.slots.length).flatMap (g.nearby d) := by
    intro id k hk
    obtain ⟨n, hn, -⟩ := mem_nearby.1 hk
    obtain ⟨s, hs, -⟩ := node?_eq_some.1 hn
    exact List.mem_cons_of_mem _
      (List.mem_flatMap.2 ⟨id, List.mem_range.2 (lt_length_of_slot? hs), hk⟩)
  exact exists_searches hnext (List.nodup_singleton start) (by simp) [start]

/-- The bound on the steps of a walk is never met. -/
theorem walks_walk (g : Graph β) (d : Direction) (start : Nat) :
    g.Walks d [start] [start] (g.walk d start) := by
  obtain ⟨order, horder⟩ := g.exists_searches_nearby d start
  rw [walk_eq horder]
  exact .of_searches horder

/-- The nodes of stored numbers have these numbers. -/
theorem Numbered.map_id_filterMap (hnum : g.Numbered) {l : List Nat}
    (hstored : ∀ id ∈ l, g.hasNode id = true) : (l.filterMap g.node?).map Node.id = l := by
  rw [List.map_filterMap]
  refine (List.filterMap_congr fun id hid => ?_).trans List.filterMap_some
  obtain ⟨n, hn⟩ := exists_node?_of_hasNode (hstored id hid)
  rw [hn, Option.map_some, hnum id n hn]

/-- The numbers that a walk meets. -/
theorem Numbered.map_id_walk (hnum : g.Numbered) (h : Searches (g.nearby d) [start] [start] order) :
    (g.walk d start).map Node.id = order.takeWhile g.hasNode := by
  rw [walk_eq h]
  exact hnum.map_id_filterMap fun _ hid => List.mem_takeWhile_imp hid

/-- A walk meets stored nodes. -/
theorem Numbered.node?_of_mem_walk (hnum : g.Numbered) (hn : n ∈ g.walk d start) :
    g.node? n.id = some n := by
  obtain ⟨order, horder⟩ := g.exists_searches_nearby d start
  rw [walk_eq horder] at hn
  obtain ⟨id, -, hid⟩ := List.mem_filterMap.1 hn
  rw [hnum id n hid]
  exact hid

/-! ### Forward walks -/

/-- Node `b` is listed as a user of an output of the stored node `a`. -/
def Supplies (g : Graph β) (a b : Nat) : Prop :=
  ∃ n, g.node? a = some n ∧ ∃ v, v.node = a ∧ v.index < n.outputs.length ∧ ∃ u ∈ g.uses v, u.node = b

/-- The live node `b` reads an output of the stored node `a`. -/
def Serves (g : Graph β) (a b : Nat) : Prop :=
  ∃ n, g.node? a = some n ∧ ∃ u v, g.Reads u v ∧ u.node = b ∧ v.node = a ∧ v.index < n.outputs.length

/-- Every listed use is of a stored node. -/
def UsersStored (g : Graph β) : Prop :=
  ∀ v, ∀ u ∈ g.uses v, g.hasNode u.node = true

theorem Numbered.supplies_iff (hnum : g.Numbered) :
    g.Supplies a b ↔ b ∈ g.nearby .forward a := by
  simp only [Supplies, mem_nearby, neighbours, Node.values, List.mem_flatMap, List.mem_map,
    List.mem_range]
  refine exists_congr fun n => and_congr_right fun hn => ?_
  have hid : n.id = a := hnum a n hn
  constructor
  · rintro ⟨⟨_, i⟩, rfl, hi, u, hu, rfl⟩
    exact ⟨_, ⟨i, hi, rfl⟩, u, by rwa [Node.output, hid], rfl⟩
  · rintro ⟨_, ⟨i, hi, rfl⟩, u, hu, rfl⟩
    exact ⟨n.output i, hid, hi, u, hu, rfl⟩

theorem Indexed.supplies_eq (hi : g.Indexed) : g.Supplies = g.Serves := by
  funext a b
  simp only [Supplies, Serves, hi.mem_uses]
  refine propext (exists_congr fun n => and_congr_right fun _ => ⟨?_, ?_⟩)
  · rintro ⟨v, ha, hlt, u, hu, hb⟩
    exact ⟨u, v, hu, hb, ha, hlt⟩
  · rintro ⟨u, v, hu, hb, ha, hlt⟩
    exact ⟨v, ha, hlt, u, hu, hb⟩

theorem Indexed.serves_iff (hi : g.Indexed) (hnum : g.Numbered) :
    g.Serves a b ↔ b ∈ g.nearby .forward a := by
  rw [← hi.supplies_eq]
  exact hnum.supplies_iff

theorem Indexed.usersStored (hi : g.Indexed) : g.UsersStored := by
  intro v u hu
  obtain ⟨n, hn, -⟩ := (hi.mem_uses v u).1 hu
  exact hasNode_of_node? (node?_of_live? hn)

/-- A forward walk from a stored node is a whole search. -/
theorem UsersStored.searches_walk (hstored : g.UsersStored) (hnum : g.Numbered)
    (hstart : g.hasNode start = true) :
    Searches (g.nearby .forward) [start] [start] ((g.walk .forward start).map Node.id) := by
  obtain ⟨order, horder⟩ := g.exists_searches_nearby .forward start
  have hall : ∀ id ∈ order, g.hasNode id = true := by
    refine horder.induction (fun id _ k hk => ?_) (by simpa using hstart)
    obtain ⟨-, -, v, -, -, u, hu, rfl⟩ := hnum.supplies_iff.2 hk
    exact hstored v u hu
  rwa [hnum.map_id_walk horder, List.takeWhile_eq_self_iff.2 hall]

/-- Paths are the chains of listed uses. -/
theorem UsersStored.hasPath_iff (hstored : g.UsersStored) (hnum : g.Numbered) :
    g.hasPath a b = true ↔ ReflTransGen g.Supplies a b := by
  rw [hasPath, Bool.or_eq_true, beq_iff_eq]
  cases ha : g.hasNode a with
  | true =>
    have hsearch := hstored.searches_walk hnum ha
    rw [← hsearch.mem_iff (r := g.Supplies) fun _ _ => hnum.supplies_iff]
    simp only [List.any_eq_true, beq_iff_eq, List.mem_map]
    refine or_iff_right_of_imp ?_
    rintro rfl
    simpa using hsearch.queue_subset List.mem_cons_self
  | false =>
    have hnone : g.node? a = none := by simpa [node?, hasNode] using ha
    have hwalk : g.walk .forward a = [] := (Walks.lost hnone).walkFrom_eq (Nat.zero_le _)
    rw [hwalk, List.any_nil]
    constructor
    · rintro (rfl | hfalse)
      · exact .refl
      · exact absurd hfalse Bool.false_ne_true
    · intro hreach
      obtain rfl | ⟨c, ⟨n, hn, -⟩, -⟩ := hreach.cases_head
      · exact .inl rfl
      · simp [hnone] at hn

/-- Without dangling references, a live node reads only outputs that there are. -/
theorem NoDangling.feeds_iff_serves (hd : g.NoDangling) : g.Feeds a b ↔ g.Serves a b := by
  constructor
  · rintro ⟨u, v, hu, rfl, rfl⟩
    obtain ⟨n, hn, hlt⟩ := hasValue_iff.1 (hd.reads hu)
    exact ⟨n, node?_of_live? hn, u, v, hu, rfl, rfl, hlt⟩
  · rintro ⟨-, -, u, v, hu, hb, ha, -⟩
    exact ⟨u, v, hu, hb, ha⟩

/-- Paths are the chains of references. -/
theorem hasPath_iff (hnum : g.Numbered) (hi : g.Indexed) (hd : g.NoDangling) :
    g.hasPath a b = true ↔ ReflTransGen g.Feeds a b := by
  have heq : g.Feeds = g.Supplies := by
    rw [hi.supplies_eq]
    funext a b
    exact propext hd.feeds_iff_serves
  rw [heq]
  exact hi.usersStored.hasPath_iff hnum

end Graph

end Dataflow
