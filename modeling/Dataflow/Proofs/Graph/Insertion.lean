import Dataflow.Proofs.Graph.Redirect
import Dataflow.Proofs.Invariant

/-!
# New nodes between old ones

A replacement puts new nodes between the nodes of a graph: they read values of some nodes, the *lower*
ones, and the readers of values of other nodes come to read values of new nodes.  As long as nothing
that a lower node is computed from is among the readers, references lead from the lower nodes through
the new ones to the upper ones, and never back.  So no cycle comes about.

## Main definitions

* `Graph.Inserted` : a graph with new nodes between the lower and the upper nodes of another one.

## Main statements

* `Graph.Inserted.push`, `Graph.Inserted.redirect`, `Graph.Inserted.markEliminated` : the steps that
  lead to such a graph.
* `Graph.Inserted.acyclic` : it has no cycles.
* `Graph.replaceable_inserted` : the steps of a replacement lead from one such graph to the next.
-/

namespace Dataflow

namespace Graph

variable {β : Type} {g h : Graph β} {P : Nat → Prop} {v w : Value} {a b : Nat}

/-- The graph `h` has the references of `g` between old nodes, or fewer.  New nodes read what is
before them, and of the old nodes only the lower ones, which satisfy `P`.  Lower nodes do not read new
ones. -/
structure Inserted (g : Graph β) (P : Nat → Prop) (h : Graph β) : Prop where
  wellKept : h.WellKept
  length_le : g.slots.length ≤ h.slots.length
  old : ∀ ⦃u v⦄, h.Reads u v → u.node < g.slots.length → v.node < g.slots.length →
    g.Feeds v.node u.node
  new : ∀ ⦃u v⦄, h.Reads u v → g.slots.length ≤ u.node →
    v.node < u.node ∧ (v.node < g.slots.length → P v.node)
  upper : ∀ ⦃u v⦄, h.Reads u v → u.node < g.slots.length → g.slots.length ≤ v.node → ¬ P u.node

namespace Inserted

theorem refl (hk : g.WellKept) (hd : g.NoDangling) (P : Nat → Prop) : g.Inserted P g where
  wellKept := hk
  length_le := Nat.le_refl _
  old _ _ hu _ _ := hu.feeds
  new _ _ hu hle := by
    obtain ⟨n, hn, -⟩ := hu
    exact absurd (lt_length_of_live? hn) (Nat.not_lt.2 hle)
  upper _ _ hu _ hle := absurd (lt_length_of_hasValue (hd.reads hu)) (Nat.not_lt.2 hle)

variable (hi : g.Inserted P h)
include hi

theorem push {spec : NodeSpec β}
    (hv : ∀ v ∈ spec.inputs, h.hasValue v = true ∧ (v.node < g.slots.length → P v.node)) :
    g.Inserted P (h.push spec) where
  wellKept := hi.wellKept.push spec
  length_le := by
    rw [length_slots_push]
    exact Nat.le_succ_of_le hi.length_le
  old := by
    intro u v hu hlt hlt'
    obtain hu | ⟨hnode, -⟩ := (reads_push h spec).1 hu
    · exact hi.old hu hlt hlt'
    · exact absurd (hnode ▸ hlt) (Nat.not_lt.2 hi.length_le)
  new := by
    intro u v hu hle
    obtain hu | ⟨hnode, hin⟩ := (reads_push h spec).1 hu
    · exact hi.new hu hle
    · obtain ⟨hval, hP⟩ := hv v (List.mem_of_getElem? hin)
      exact ⟨hnode ▸ lt_length_of_hasValue hval, hP⟩
  upper := by
    intro u v hu hlt hle
    obtain hu | ⟨hnode, -⟩ := (reads_push h spec).1 hu
    · exact hi.upper hu hlt hle
    · exact absurd (hnode ▸ hlt) (Nat.not_lt.2 hi.length_le)

/-- The readers of a value of an upper node may read a value of a new node instead. -/
theorem redirect (hclosed : ∀ ⦃a b⦄, g.Feeds a b → P b → P a) (hv : v.node < g.slots.length)
    (hP : ¬ P v.node) (hw : g.slots.length ≤ w.node) : g.Inserted P (h.redirect v w).2 := by
  -- What is read after the change was read before, unless it is the new value.
  have hreads : ∀ {u x}, (h.redirect v w).2.Reads u x → h.Reads u x ∨ (x = w ∧ h.Reads u v) := by
    intro u x hu
    rw [reads_redirect hi.wellKept.indexed.live] at hu
    split at hu
    · exact .inl hu
    · obtain ⟨y, hy, rfl⟩ := hu
      by_cases hyv : y = v
      · subst hyv
        exact .inr ⟨if_pos rfl, hy⟩
      · exact .inl (by rwa [Value.subst_of_ne w hyv])
  constructor
  case wellKept => exact hi.wellKept.redirect v w
  case length_le => exact hi.length_le.trans_eq (length_slots_redirect h v w).symm
  case old =>
    intro u x hu hlt hlt'
    obtain hu | ⟨rfl, -⟩ := hreads hu
    · exact hi.old hu hlt hlt'
    · exact absurd hlt' (Nat.not_lt.2 hw)
  case new =>
    intro u x hu hle
    obtain hu | ⟨-, hu⟩ := hreads hu
    · exact hi.new hu hle
    · exact absurd ((hi.new hu hle).2 hv) hP
  case upper =>
    intro u x hu hlt hle
    obtain hu | ⟨-, hu⟩ := hreads hu
    · exact hi.upper hu hlt hle
    · exact fun hPu => hP (hclosed (hi.old hu hlt hv) hPu)

theorem markEliminated (id : Nat) : g.Inserted P (h.markEliminated id).2 where
  wellKept := hi.wellKept.markEliminated id
  length_le := hi.length_le.trans_eq (length_slots_markEliminated h id).symm
  old _ _ hu := hi.old ((reads_markEliminated h id).1 hu).2
  new _ _ hu := hi.new ((reads_markEliminated h id).1 hu).2
  upper _ _ hu := hi.upper ((reads_markEliminated h id).1 hu).2

/-- Lower nodes are computed from lower ones alone, as before. -/
theorem of_transGen_lower (hclosed : ∀ ⦃a b⦄, g.Feeds a b → P b → P a)
    (hab : Relation.TransGen h.Feeds a b) (hb : b < g.slots.length) (hP : P b) :
    a < g.slots.length ∧ P a ∧ Relation.TransGen g.Feeds a b := by
  have hstep : ∀ {a b}, h.Feeds a b → b < g.slots.length → P b →
      a < g.slots.length ∧ P a ∧ g.Feeds a b := by
    rintro a b ⟨u, v, hu, rfl, rfl⟩ hb hP
    have hlt : v.node < g.slots.length := Nat.lt_of_not_le fun hle => hi.upper hu hb hle hP
    exact ⟨hlt, hclosed (hi.old hu hb hlt) hP, hi.old hu hb hlt⟩
  induction hab with
  | single hab => exact (hstep hab hb hP).imp_right fun h => h.imp_right .single
  | tail _ hbc ih =>
    obtain ⟨hlt, hP', hfeeds⟩ := hstep hbc hb hP
    exact (ih hlt hP').imp_right fun h => h.imp_right (.tail · hfeeds)

/-- Upper nodes go into upper ones alone, as before. -/
theorem of_transGen_upper (hclosed : ∀ ⦃a b⦄, g.Feeds a b → P b → P a)
    (hab : Relation.TransGen h.Feeds a b) (ha : a < g.slots.length) (hP : ¬ P a) :
    b < g.slots.length ∧ ¬ P b ∧ Relation.TransGen g.Feeds a b := by
  have hstep : ∀ {a b}, h.Feeds a b → a < g.slots.length → ¬ P a →
      b < g.slots.length ∧ ¬ P b ∧ g.Feeds a b := by
    rintro a b ⟨u, v, hu, rfl, rfl⟩ ha hP
    have hlt : u.node < g.slots.length := Nat.lt_of_not_le fun hle => hP ((hi.new hu hle).2 ha)
    exact ⟨hlt, fun hPb => hP (hclosed (hi.old hu hlt ha) hPb), hi.old hu hlt ha⟩
  induction hab with
  | single hab => exact (hstep hab ha hP).imp_right fun h => h.imp_right .single
  | tail _ hbc ih =>
    obtain ⟨hlt, hP', hfeeds⟩ := ih
    exact (hstep hbc hlt hP').imp_right fun h => h.imp_right hfeeds.tail

/-- What a new node is computed from has a smaller number. -/
theorem lt_of_transGen_new (hclosed : ∀ ⦃a b⦄, g.Feeds a b → P b → P a)
    (hab : Relation.TransGen h.Feeds a b) (hb : g.slots.length ≤ b) : a < b := by
  have hstep : ∀ {a b}, h.Feeds a b → g.slots.length ≤ b →
      a < b ∧ (a < g.slots.length → P a) := by
    rintro a b ⟨u, v, hu, rfl, rfl⟩ hb
    exact hi.new hu hb
  induction hab with
  | single hab => exact (hstep hab hb).1
  | @tail b c hab' hbc ih =>
    obtain ⟨hlt, hP⟩ := hstep hbc hb
    by_cases hnew : g.slots.length ≤ b
    · exact (ih hnew).trans hlt
    · have hold := Nat.lt_of_not_le hnew
      exact (hi.of_transGen_lower hclosed hab' hold (hP hold)).1.trans_le hb

/-- **New nodes make no cycle.** -/
theorem acyclic (ha : g.Acyclic) (hclosed : ∀ ⦃a b⦄, g.Feeds a b → P b → P a) : h.Acyclic := by
  intro id hid
  by_cases hnew : g.slots.length ≤ id
  · exact Nat.lt_irrefl _ (hi.lt_of_transGen_new hclosed hid hnew)
  · have hold := Nat.lt_of_not_le hnew
    by_cases hP : P id
    · exact ha id (hi.of_transGen_lower hclosed hid hold hP).2.2
    · exact ha id (hi.of_transGen_upper hclosed hid hold hP).2.2

end Inserted

/-- The steps of a replacement leave the new nodes between the lower and the upper ones, as long as
the readers of no lower node come to read new values. -/
theorem replaceable_inserted (hclosed : ∀ ⦃a b⦄, g.Feeds a b → P b → P a) :
    Edit.Replaceable (g.Inserted P) (fun v => g.slots.length ≤ v.node)
      (fun v => v.node < g.slots.length → P v.node) (fun id => id < g.slots.length ∧ ¬ P id) where
  push hi _ hv := hi.push hv
  new hi hle := hi.length_le.trans hle
  weaken hle hlt := absurd hlt (Nat.not_lt.2 hle)
  redirected hi hv hw := hi.redirect hclosed hv.1 hv.2 hw
  eliminated _ id hi := hi.markEliminated id

end Graph

end Dataflow
