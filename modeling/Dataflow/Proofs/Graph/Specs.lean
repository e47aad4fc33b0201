import Dataflow.Proofs.Build

/-!
# Graphs given by a list of nodes

A graph whose nodes are pushed one after the other, each of them reading only values that exist by
then, is well kept, acyclic and without dangling references.

## Main definitions

* `Graph.ofSpecs` : the graph of a list of descriptions, with its outputs.
* `Graph.specsFit` : whether every node reads only values of nodes before it.

## Main statements

* `Graph.ofSpecs_sound` : what such a graph satisfies.
* `Graph.noDangling_of_all` : how to find out whether any reference dangles.
-/

namespace Dataflow

namespace Graph

variable {β : Type} {g : Graph β}

/-- The graph with the described nodes pushed one after the other. -/
def pushAll (specs : List (NodeSpec β)) (g : Graph β) : Graph β :=
  specs.foldl push g

/-- The graph of the described nodes, with the given outputs. -/
def ofSpecs (specs : List (NodeSpec β)) (outputs : List Value) : Graph β :=
  (pushAll specs empty).setOutputs outputs

/-- Whether every described node reads only values that exist before it is pushed. -/
def specsFit : List (NodeSpec β) → Graph β → Bool
  | [], _ => true
  | spec :: rest, g => spec.inputs.all g.hasValue && specsFit rest (g.push spec)

/-- Every node reads only nodes with smaller numbers. -/
def Ascending (g : Graph β) : Prop :=
  ∀ ⦃u v⦄, g.Reads u v → v.node < u.node

theorem Ascending.acyclic (h : g.Ascending) : g.Acyclic :=
  .of_rank id fun _ _ ⟨_, _, hu, hb, ha⟩ => ha ▸ hb ▸ h hu

theorem grows_pushAll {specs : List (NodeSpec β)} (h : specsFit specs g = true) :
    g.Grows (fun _ => True) (pushAll specs g) := by
  induction specs generalizing g with
  | nil => exact .refl
  | cons spec rest ih =>
    rw [specsFit, Bool.and_eq_true, List.all_eq_true] at h
    exact (Grows.push spec .refl fun v hv => ⟨h.1 v hv, trivial⟩).trans (ih h.2)

theorem Grows.ascending {S : Value → Prop} {g' : Graph β} (h : g.Grows S g') (ha : g.Ascending) :
    g'.Ascending := by
  induction h with
  | refl => exact ha
  | push spec _ hv ih =>
    intro u v hu
    obtain hu | ⟨hid, hu⟩ := (reads_push _ spec).1 hu
    · exact ih hu
    · rw [hid]
      exact lt_length_of_hasValue (hv v (List.mem_of_getElem? hu)).1

theorem Grows.reads_hasValue {S : Value → Prop} {g' : Graph β} (h : g.Grows S g')
    (hd : ∀ u v, g.Reads u v → g.hasValue v = true) :
    ∀ u v, g'.Reads u v → g'.hasValue v = true := by
  induction h with
  | refl => exact hd
  | push spec _ hv ih =>
    intro u v hu
    obtain hu | ⟨-, hu⟩ := (reads_push _ spec).1 hu
    · exact hasValue_push spec (ih u v hu)
    · exact hasValue_push spec (hv v (List.mem_of_getElem? hu)).1

/-- A graph given by nodes that read only what is there before them. -/
theorem ofSpecs_sound (specs : List (NodeSpec β)) (outputs : List Value)
    (h : specsFit specs empty = true)
    (hout : outputs.all (ofSpecs specs outputs).hasValue = true) :
    (ofSpecs specs outputs).WellKept ∧ (ofSpecs specs outputs).Acyclic ∧
      (ofSpecs specs outputs).NoDangling := by
  have hgrows := grows_pushAll h
  have hascending : (pushAll specs empty).Ascending :=
    hgrows.ascending fun u v hu => absurd hu not_reads_empty
  refine ⟨(hgrows.wellKept .empty).setOutputs outputs, hascending.acyclic, fun u v hu => ?_,
    List.all_eq_true.1 hout⟩
  exact hgrows.reads_hasValue (fun u v hu => absurd hu not_reads_empty) u v hu

/-- What is to be said about all live nodes is found out slot by slot. -/
theorem forall_live_of_all {p : Node β → Bool}
    (h : ∀ id < g.slots.length, (g.live? id).all p = true) {id : Nat} {n : Node β}
    (hn : g.live? id = some n) : p n = true := by
  have hall := h id (lt_length_of_live? hn)
  rwa [hn, Option.all_some] at hall

/-- That nodes read only nodes with smaller numbers is found out slot by slot. -/
theorem ascending_of_all
    (h : ∀ id < g.slots.length, (g.live? id).all (·.inputs.all (·.node < id)) = true) :
    g.Ascending := by
  rintro u v ⟨n, hn, hv⟩
  have hall := h u.node (lt_length_of_live? hn)
  rw [hn, Option.all_some, List.all_eq_true] at hall
  exact of_decide_eq_true (hall v (List.mem_of_getElem? hv))

theorem noDangling_of_all
    (hreads : ∀ id < g.slots.length, (g.live? id).all (·.inputs.all g.hasValue) = true)
    (hout : g.outputs.all g.hasValue = true) : g.NoDangling := by
  refine ⟨fun u v hu => ?_, List.all_eq_true.1 hout⟩
  obtain ⟨n, hn, hv⟩ := hu
  exact List.all_eq_true.1 (forall_live_of_all hreads hn) v (List.mem_of_getElem? hv)

end Graph

end Dataflow
