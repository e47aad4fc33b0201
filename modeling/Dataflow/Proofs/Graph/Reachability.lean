import Dataflow.Proofs.Graph.Changes
import Dataflow.Proofs.Graph.Walk

/-!
# What a forward walk reaches

In a graph whose index of uses is exact, a forward walk from a stored node ends, with or without
cycles in the graph.  It meets the nodes that can be reached along readers of existing outputs, each
of them once, in order of their distances.  The searches that are made with walks say no more and no
less than that.

## Main definitions

* `Graph.BreadthFirst` : what is to be said about a forward walk.

## Main statements

* `Graph.breadthFirst_walk` : walks, paths and successors in a graph with an exact index.
-/

namespace Dataflow

namespace Graph

open Relation

variable {β : Type} {g : Graph β} {start : Nat} {met : List (Node β)}

/-- The nodes are those which can be reached from the stored node `start`, breadth first. -/
structure BreadthFirst (g : Graph β) (start : Nat) (met : List (Node β)) : Prop where
  /-- The walk ends by itself after these nodes. -/
  ends : g.Walks .forward [start] [start] met
  stored : ∀ n ∈ met, g.node? n.id = some n
  nodup : (met.map Node.id).Nodup
  head? : (met.map Node.id).head? = some start
  mem_iff : ∀ b, b ∈ met.map Node.id ↔ ReflTransGen g.Serves start b
  pairwise : (met.map Node.id).Pairwise fun a b => distance g.Serves start a ≤ distance g.Serves start b

/-- **Forward walks.**  Let the index of uses list exactly what the live nodes read.  Then the walk
from a stored node ends, and it meets the nodes that can be reached from there through readers of
existing outputs, each once, the start first and no node before a nearer one.  So there is a path from
one node to another exactly if they are the same or the second one can be reached, and the successors
of a node are the other nodes that can be reached. -/
theorem breadthFirst_walk (hnum : g.Numbered) (hi : g.Indexed) (hstart : g.hasNode start = true) :
    g.BreadthFirst start (g.walk .forward start) ∧
      (∀ b, g.hasPath start b = true ↔ start = b ∨ TransGen g.Serves start b) ∧
        ((g.successors start).map Node.id).Nodup ∧
          ∀ b, b ∈ (g.successors start).map Node.id ↔ b ≠ start ∧ TransGen g.Serves start b := by
  have hsearch := hi.usersStored.searches_walk hnum hstart
  have hserves (a b : Nat) : g.Serves a b ↔ b ∈ g.nearby .forward a := hi.serves_iff hnum
  have hsuccessors : (g.successors start).map Node.id =
      ((g.walk .forward start).map Node.id).drop 1 := List.map_drop
  have hhead : ((g.walk .forward start).map Node.id).head? = some start := by
    obtain ⟨rest, hrest⟩ := hsearch.exists_cons
    rw [hrest, List.head?_cons]
  refine ⟨⟨g.walks_walk .forward start, fun n hn => hnum.node?_of_mem_walk hn, hsearch.nodup, hhead,
    fun b => hsearch.mem_iff hserves, hsearch.pairwise hserves⟩, fun b => ?_, ?_, fun b => ?_⟩
  · rw [hi.usersStored.hasPath_iff hnum, hi.supplies_eq, reflTransGen_iff_eq_or_transGen, eq_comm]
  · rw [hsuccessors]
    exact hsearch.nodup.sublist (List.drop_sublist 1 _)
  · rw [hsuccessors]
    exact hsearch.mem_drop_iff hserves

/-- Both halves of a split value are added, and the rectified sum is fed back into the split.  The
parameter is read no more. -/
def feedbackChanges : List (Change Unit) :=
  [.addParameter "x" (.planar (.ofLengths [2]) .f32),
    .addNode { op := .split, inputs := [⟨0, 0⟩]
               outputs := [.planar (.ofLengths [1]) .f32, .planar (.ofLengths [1]) .f32] },
    .addNode { op := .add, inputs := [⟨1, 0⟩, ⟨1, 1⟩], outputs := [.planar (.ofLengths [1]) .f32] },
    .addNode { op := .relu, inputs := [⟨2, 0⟩], outputs := [.planar (.ofLengths [1]) .f32] },
    .setInput 1 0 ⟨3, 0⟩]

/-- The walk around the cycle meets each of its three nodes once. -/
theorem breadthFirst_feedback :
    let g := Change.runAll feedbackChanges empty
    g.Numbered ∧ g.Indexed ∧ g.hasNode 2 = true ∧ (g.walk .forward 2).map Node.id = [2, 3, 1] ∧
      (∀ b, b ∈ [2, 3, 1] ↔ ReflTransGen g.Serves 2 b) ∧ TransGen g.Serves 2 1 ∧
        ¬ TransGen g.Serves 2 0 := by
  intro g
  have hk : g.WellKept :=
    Change.wellKept_runAll .empty ⟨trivial, trivial, trivial, trivial, rfl, trivial⟩
  have hstored : g.hasNode 2 = true := by decide
  have hids : (g.walk .forward 2).map Node.id = [2, 3, 1] := by decide
  obtain ⟨hwalk, hpath, -, hsuccessors⟩ := breadthFirst_walk hk.numbered hk.indexed hstored
  refine ⟨hk.numbered, hk.indexed, hstored, hids, hids ▸ hwalk.mem_iff, ?_, fun hreach => ?_⟩
  · exact ((hsuccessors 1).1 (by decide)).2
  · exact absurd ((hpath 0).2 (.inr hreach)) (by decide)

end Graph

end Dataflow
