import Dataflow.Proofs.Build
import Dataflow.Proofs.Graph.Elimination
import Dataflow.Proofs.Graph.MovedUses

/-!
# An index that lists every read

The index of uses is exact until an input of an eliminated node is set: that use is listed again.  A
replacement can do with less than an exact index.  As long as every read is listed, and every listed
use can be traced, redirecting a value substitutes another one for it in the inputs of every live
node, and a value without listed uses is not read.

## Main definitions

* `Graph.Listed` : every read is listed, and every listed use is an input of a stored node.

## Main statements

* `Graph.Traceable.mem_uses_redirect` : where a use is listed after a redirection.
* `Graph.Listed.live` : the index is right about live nodes.
* `Graph.Listed.push`, `Graph.Listed.redirect`, `Graph.Listed.markEliminated` : every read stays
  listed.
* `Graph.Listed.not_reads_of_isUnused` : a value without listed uses.
-/

namespace Dataflow

namespace Graph

variable {β : Type} {g h : Graph β} {v w : Value} {u : Use} {id : Nat}

/-! ### Listed uses -/

namespace Traceable

theorem isSome_input? (ht : g.Traceable) (hu : u ∈ g.uses v) : (g.input? u).isSome = true := by
  rw [ht.input? v u hu, Option.isSome_some]

theorem lt_length (ht : g.Traceable) (hu : u ∈ g.uses v) : u.node < g.slots.length := by
  obtain ⟨s, hs, -⟩ := input?_eq_some.1 (ht.input? v u hu)
  exact lt_length_of_slot? hs

theorem redirect (ht : g.Traceable) (v w : Value) : (g.redirect v w).2.Traceable :=
  (ht.redirect_induction (P := fun _ => True) (fun _ _ _ _ _ _ _ => trivial)
    (fun _ _ _ => trivial) v w trivial).1

/-- A listed use is listed for the value in the place of the old one afterwards, unless it is a use
that the new value's node makes of the old value, which stays where it is. -/
theorem mem_uses_redirect (ht : g.Traceable) {x : Value} (hu : u ∈ g.uses x) :
    u ∈ (g.redirect v w).2.uses (if u.node = w.node then x else Value.subst v w x) := by
  rw [uses_redirect fun u hu => ht.isSome_input? (List.mem_filter.1 hu).1, List.mem_append]
  by_cases hmoved : x = v ∧ v ≠ w ∧ u.node ≠ w.node
  · obtain ⟨rfl, hvw, hnode⟩ := hmoved
    refine .inr ?_
    rw [if_neg hnode, Value.subst, if_pos rfl, if_pos rfl, movedUses, List.mem_filter]
    exact ⟨hu, decide_eq_true ⟨hvw, hnode⟩⟩
  · have hfix : (if u.node = w.node then x else Value.subst v w x) = x := by
      split
      · rfl
      · next hnode =>
        by_contra hne
        obtain ⟨hx, hvw⟩ := Value.subst_ne_self_iff.1 hne
        exact hmoved ⟨hx, hvw, hnode⟩
    refine .inl ?_
    rw [hfix]
    split
    · next hvx =>
      refine List.mem_filter.2 ⟨hu, decide_eq_true fun hmem => ?_⟩
      exact hmoved ⟨hvx.symm, of_decide_eq_true (List.mem_filter.1 hmem).2⟩
    · exact hu

/-- Marking a node takes no use by another node out of the index. -/
theorem mem_uses_markEliminated (ht : g.Traceable) (hu : u ∈ g.uses v) (hne : u.node ≠ id) :
    u ∈ (g.markEliminated id).2.uses v := by
  cases hlive : g.live? id with
  | none => rwa [markEliminated_of_not_live hlive]
  | some n =>
    rw [uses_markEliminated hlive, List.mem_filter, Bool.not_eq_true', ← Bool.not_eq_true,
      List.contains_iff_mem, mem_reads_iff, ht.numbered.live hlive]
    exact ⟨hu, fun hread => hne hread.1⟩

end Traceable

/-! ### Every read is listed -/

/-- Every read is listed, and every listed use is, once, an input of a stored node that holds the
value.  The node may be marked as eliminated. -/
structure Listed (g : Graph β) : Prop extends g.Traceable where
  mem_uses : ∀ v u, g.Reads u v → u ∈ g.uses v

theorem WellKept.listed (h : g.WellKept) : g.Listed :=
  ⟨h.traceable, fun v u => (h.indexed.mem_uses v u).2⟩

namespace Listed

variable (hl : g.Listed)
include hl

/-- A listed use of a live node is a read. -/
theorem live : g.IndexesLive := by
  intro u v n hn
  refine ⟨fun hu => ⟨n, hn, ?_⟩, hl.mem_uses v u⟩
  have hin := hl.input? v u hu
  rwa [Graph.input?, node?_of_live? hn] at hin

theorem push (spec : NodeSpec β) : (g.push spec).Listed where
  toTraceable := hl.toTraceable.push spec
  mem_uses v u hread := by
    rw [uses_push, List.mem_append]
    obtain hread | ⟨hid, hin⟩ := (reads_push g spec).1 hread
    · exact .inl (hl.mem_uses v u hread)
    · refine .inr (List.mem_map.2 ⟨(v, u), List.mem_filter.2 ⟨?_, decide_eq_true rfl⟩, rfl⟩)
      exact mem_reads_iff.2 ⟨hid, hin⟩

theorem redirect (v w : Value) : (g.redirect v w).2.Listed where
  toTraceable := hl.toTraceable.redirect v w
  mem_uses x u hread := by
    rw [reads_redirect hl.live] at hread
    split at hread
    · next hnode =>
      have huse := hl.mem_uses_redirect (v := v) (w := w) (hl.mem_uses x u hread)
      rwa [if_pos hnode] at huse
    · next hnode =>
      obtain ⟨y, hy, rfl⟩ := hread
      have huse := hl.mem_uses_redirect (v := v) (w := w) (hl.mem_uses y u hy)
      rwa [if_neg hnode] at huse

theorem markEliminated (id : Nat) : (g.markEliminated id).2.Listed where
  toTraceable := hl.toTraceable.markEliminated id
  mem_uses v u hread := by
    obtain ⟨hne, hread⟩ := (reads_markEliminated g id).1 hread
    exact hl.mem_uses_markEliminated (hl.mem_uses v u hread) hne

/-- Nothing reads a value without listed uses. -/
theorem not_reads_of_isUnused (hv : g.isUnused v = true) : v ∉ g.outputs ∧ ∀ u, ¬ g.Reads u v := by
  obtain ⟨hout, huses⟩ : v ∉ g.outputs ∧ g.uses v = [] := by
    simpa [isUnused, isOutputValue] using hv
  exact ⟨hout, fun u hread => List.not_mem_nil (huses ▸ hl.mem_uses v u hread)⟩

end Listed

theorem Grows.listed {S : Value → Prop} (hg : g.Grows S h) (hl : g.Listed) : h.Listed := by
  induction hg with
  | refl => exact hl
  | push spec _ _ ih => exact ih.push spec

end Graph

end Dataflow
