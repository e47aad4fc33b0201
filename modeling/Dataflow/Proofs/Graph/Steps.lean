import Dataflow.Proofs.Graph.Changes
import Dataflow.Proofs.Graph.Compaction
import Dataflow.Proofs.Invariant
import Mathlib.Logic.Relation

/-!
# Graphs reached by the steps of an action

An action may change a graph in any way that the steps allow, as often as it likes, and then fail.
Two things are true whatever it does.  A slot is filled when it is added and never again, and a mark
is never taken back: so a number that is not in use, or that names a node on its way out, will not
name a live node later.  And an action that does not compact the graph empties no slot at all.

## Main definitions

* `Step` : a change, or new fields for a stored node.
* `Graph.LeadsTo` : one graph comes from another by steps with a property.
* `Graph.Durable` : a property of graphs that survives every step but a compaction.
* `Graph.Outlives`, `Graph.Accrues` : what a graph has in common with one that it comes from, with
  and without compactions.

## Main statements

* `Graph.Durable.step` : a step comes down to elementary changes.
* `Graph.LeadsTo.outlives`, `Graph.LeadsTo.accrues` : what any number of steps do to the slots.
* `Graph.replaceable_leadsTo` : a replacement is made of steps.
* `Graph.hasNode_of_mem_order` : the processing order of a graph that was built by steps.
-/

namespace Dataflow

variable {β : Type}

/-- One step of an action: a change of the graph, or new fields for a stored node.  The latter does
not touch the index of uses, even if the inputs of the node are among the fields. -/
inductive Step (β : Type)
  | change (c : Change β)
  | assign (id : Nat) (f : Node β → Node β)

namespace Step

/-- The graph after the step, whether or not it fails. -/
def run : Step β → Graph β → Graph β
  | change c, g => c.run g
  | assign id f, g => g.modifyNode id f

/-- The step is a compaction. -/
def Compacts (s : Step β) : Prop :=
  s = .change .compact

end Step

namespace Graph

/-- The second graph comes from the first one by steps with the property `P`. -/
def LeadsTo (P : Step β → Prop) : Graph β → Graph β → Prop :=
  Relation.ReflTransGen fun g h => ∃ s, P s ∧ s.run g = h

namespace LeadsTo

variable {P : Step β → Prop} {g h k : Graph β}

theorem refl : g.LeadsTo P g :=
  Relation.ReflTransGen.refl

theorem step (hgh : g.LeadsTo P h) {s : Step β} (hs : P s) : g.LeadsTo P (s.run h) :=
  Relation.ReflTransGen.tail hgh ⟨s, hs, rfl⟩

theorem trans (hgh : g.LeadsTo P h) (hhk : h.LeadsTo P k) : g.LeadsTo P k :=
  Relation.ReflTransGen.trans hgh hhk

/-- What each of the steps keeps is kept. -/
theorem induction {Q : Graph β → Prop} (hgh : g.LeadsTo P h) (hg : Q g)
    (hstep : ∀ (g : Graph β) s, P s → Q g → Q (s.run g)) : Q h := by
  induction hgh with
  | refl => exact hg
  | tail _ hlast ih =>
    obtain ⟨s, hs, rfl⟩ := hlast
    exact hstep _ s hs ih

end LeadsTo

/-! ### Elementary changes -/

/-- A property of graphs that survives every elementary change: new nodes, new fields and marks, and
other uses and outputs. -/
structure Durable (P : Graph β → Prop) : Prop where
  push : ∀ {g} spec, P g → P (g.push spec)
  assign : ∀ {g} id f, P g → P (g.modifyNode id f)
  relist : ∀ {g} index outputs, P g → P { g with index, outputs }
  mark : ∀ g id, P g → P (g.markEliminated id).2

namespace Durable

variable {P : Graph β → Prop} (hP : Durable P) {g : Graph β}
include hP

theorem rewire (u : Use) (v w : Value) (hg : P g) : P (g.rewire u v w) :=
  hP.relist _ g.outputs (hP.assign u.node (fun n => { n with inputs := n.inputs.set u.input w }) hg)

theorem setOutputs (outputs : List Value) (hg : P g) : P (g.setOutputs outputs) :=
  hP.relist g.index outputs hg

theorem redirectUses (v w : Value) (us : List Use) (hg : P g) :
    P (Graph.redirectUses v w us g).2 := by
  induction us generalizing g with
  | nil => exact hg
  | cons u rest ih =>
    rw [Graph.redirectUses]
    split
    · exact ih hg
    · exact ih (hP.rewire u v w hg)

theorem redirect (v w : Value) (hg : P g) : P (g.redirect v w).2 := by
  rw [Graph.redirect]
  split
  · exact hg
  · exact hP.setOutputs _ (hP.redirectUses v w _ hg)

/-- A step that is not a compaction comes down to elementary changes. -/
theorem step {s : Step β} (hs : ¬ s.Compacts) (hg : P g) : P (s.run g) := by
  rcases s with c | ⟨id, f⟩
  case assign => exact hP.assign id f hg
  cases c with
  | addNode spec =>
    change P ((Change.addNode spec).run g)
    obtain hrun | hrun := Change.run_addNode g spec
    · rwa [hrun]
    · rw [hrun]
      exact hP.push spec hg
  | addParameter name layout => exact hP.push _ hg
  | addConstant name data => exact hP.push _ hg
  | setOutputs outputs => exact hP.setOutputs outputs hg
  | addOutput v => exact hP.setOutputs _ hg
  | setInput id input v =>
    change P ((Edit.attempt fun g => (g.setInput id input v).map ((), ·)).apply g).2
    rw [Edit.apply_attempt]
    cases hset : g.setInput id input v with
    | error e => exact hg
    | ok g' =>
      simp only [Graph.setInput] at hset
      split at hset
      · split at hset
        · simp at hset
        · split at hset
          · simp at hset
          · exact Except.ok.inj hset ▸ hP.rewire _ _ _ hg
      · simp at hset
  | redirect v w => exact hP.redirect v w hg
  | markEliminated id => exact hP.mark g id hg
  | compact => exact absurd rfl hs
  | bridge id input =>
    change P (((g.bridge id input).map (·.2)).getD g)
    cases hb : g.bridge id input with
    | none => exact hg
    | some p => exact bridge_induction hP.mark (fun _ v w => hP.redirect v w) hg hb
  | eliminateIfUnused id => exact eliminateIfUnused_induction hP.mark id hg
  | eliminateUnusedConstants values => exact eliminateUnusedConstants_induction hP.mark values hg
  | eliminateDead => exact eliminateDead_induction hP.mark hg

end Durable

/-! ### Stored and marked nodes -/

section Slots

variable (g : Graph β) (spec : NodeSpec β) (f : Node β → Node β) (i id : Nat)

theorem hasNode_push : (g.push spec).hasNode id = (decide (id = g.slots.length) || g.hasNode id) := by
  rw [hasNode, slot?_push]
  split <;> simp_all [hasNode]

theorem isEliminated_push : (g.push spec).isEliminated id = g.isEliminated id := by
  rw [isEliminated, isEliminated, slot?_push]
  split
  · next h => simp [h, slot?_length]
  · rfl

@[simp] theorem hasNode_modifyNode : (g.modifyNode i f).hasNode id = g.hasNode id := by
  rw [hasNode, slot?_modifyNode]
  split <;> simp [hasNode]

@[simp] theorem isEliminated_modifyNode :
    (g.modifyNode i f).isEliminated id = g.isEliminated id := by
  rw [isEliminated, slot?_modifyNode]
  split
  · cases hs : g.slot? id <;> simp [isEliminated, hs]
  · rfl

@[simp] theorem length_slots_modifyNode : (g.modifyNode i f).slots.length = g.slots.length := by
  simp [modifyNode]

theorem isEliminated_markEliminated :
    (g.markEliminated i).2.isEliminated id = (g.isEliminated id || decide (id = i) && g.hasNode id) := by
  rw [isEliminated, slot?_markEliminated]
  split
  · next h =>
    subst h
    cases hs : g.slot? id <;> simp [isEliminated, hasNode, hs]
  · next h => simp [isEliminated, h]

theorem isSome_live? : (g.live? id).isSome = (g.hasNode id && !g.isEliminated id) := by
  rw [live?_eq_bind, hasNode, isEliminated]
  cases hs : g.slot? id with
  | none => rfl
  | some s => cases he : s.eliminated <;> simp [he]

end Slots

variable {g h k : Graph β} {id : Nat}

theorem lt_length_of_hasNode (h : g.hasNode id = true) : id < g.slots.length := by
  obtain ⟨s, hs⟩ := Option.isSome_iff_exists.1 h
  exact lt_length_of_slot? hs

/-! ### Slots without compactions -/

/-- From `g` to `h` slots were filled at the end and nodes were marked, and apart from that all slots
are filled, and all nodes marked, that were so before. -/
structure Accrues (g h : Graph β) : Prop where
  length_le : g.slots.length ≤ h.slots.length
  stored : ∀ id, h.hasNode id = true ↔ g.hasNode id = true ∨ g.slots.length ≤ id ∧ id < h.slots.length
  marked : ∀ id, g.isEliminated id = true → h.isEliminated id = true

theorem Accrues.refl (g : Graph β) : g.Accrues g where
  length_le := Nat.le_refl _
  stored id := by
    have : ¬ (g.slots.length ≤ id ∧ id < g.slots.length) := by omega
    simp [this]
  marked _ h := h

theorem durable_accrues (g : Graph β) : Durable g.Accrues where
  push {h} spec hgh := by
    refine ⟨?_, fun id => ?_, fun id hid => ?_⟩
    · rw [length_slots_push]
      exact Nat.le_succ_of_le hgh.length_le
    · have hlength := hgh.length_le
      simp only [hasNode_push, Bool.or_eq_true, decide_eq_true_eq, hgh.stored, length_slots_push]
      rw [or_left_comm]
      exact or_congr_right (by omega)
    · rw [isEliminated_push]
      exact hgh.marked id hid
  assign id f hgh :=
    ⟨by simpa using hgh.length_le, by simpa using hgh.stored, by simpa using hgh.marked⟩
  relist _ _ hgh := ⟨hgh.length_le, hgh.stored, hgh.marked⟩
  mark h id hgh :=
    { length_le := by simpa using hgh.length_le
      stored := by simpa [hasNode_markEliminated] using hgh.stored
      marked := fun id hid => by simp [isEliminated_markEliminated, hgh.marked id hid] }

/-- Steps without a compaction fill slots at the end and mark nodes. -/
theorem LeadsTo.accrues {P : Step β → Prop} (hP : ∀ s, P s → ¬ s.Compacts) (h : g.LeadsTo P k) :
    g.Accrues k :=
  h.induction (.refl g) fun _ s hs => (durable_accrues g).step (hP s hs)

/-! ### Slots with compactions -/

/-- A slot of `g` that is filled in `h` was filled in `g`, and the node in it, if it is live in `h`,
was live in `g`. -/
structure Outlives (g h : Graph β) : Prop where
  length_le : g.slots.length ≤ h.slots.length
  stored : ∀ id < g.slots.length, h.hasNode id = true → g.hasNode id = true
  live : ∀ id < g.slots.length, (h.live? id).isSome = true → (g.live? id).isSome = true

namespace Outlives

theorem refl (g : Graph β) : g.Outlives g :=
  ⟨Nat.le_refl _, fun _ _ h => h, fun _ _ h => h⟩

theorem trans (hgh : g.Outlives h) (hhk : h.Outlives k) : g.Outlives k where
  length_le := Nat.le_trans hgh.length_le hhk.length_le
  stored id hid hk := hgh.stored id hid (hhk.stored id (Nat.lt_of_lt_of_le hid hgh.length_le) hk)
  live id hid hk := hgh.live id hid (hhk.live id (Nat.lt_of_lt_of_le hid hgh.length_le) hk)

/-- A node that is new in `h` has a number that no slot of `g` has. -/
theorem length_le_of_new (hgh : g.Outlives h) (hg : g.hasNode id = false)
    (hh : h.hasNode id = true) : g.slots.length ≤ id := by
  by_contra hlt
  rw [hgh.stored id (Nat.lt_of_not_le hlt) hh] at hg
  simp at hg

end Outlives

theorem Accrues.outlives (hgh : g.Accrues h) : g.Outlives h where
  length_le := hgh.length_le
  stored id hid hh := ((hgh.stored id).1 hh).resolve_right fun hnew => absurd hid (Nat.not_lt.2 hnew.1)
  live id hid hh := by
    rw [isSome_live?, Bool.and_eq_true] at hh ⊢
    refine ⟨((hgh.stored id).1 hh.1).resolve_right fun hnew => absurd hid (Nat.not_lt.2 hnew.1), ?_⟩
    by_contra hmarked
    simp [hgh.marked id (by simpa using hmarked)] at hh

theorem outlives_compact (g : Graph β) : g.Outlives g.compact.2 where
  length_le := Nat.le_of_eq (List.length_map _).symm
  stored id _ hc := by
    rw [hasNode_compact, isSome_live?, Bool.and_eq_true] at hc
    exact hc.1
  live id _ hc := by rwa [live?_compact] at hc

/-- No step fills a slot again or brings a node back to life. -/
theorem LeadsTo.outlives {P : Step β → Prop} (h : g.LeadsTo P k) : g.Outlives k := by
  refine h.induction (.refl g) fun k s _ hgk => hgk.trans ?_
  by_cases hs : s.Compacts
  · exact hs.symm ▸ outlives_compact k
  · exact ((durable_accrues k).step hs (.refl k)).outlives

/-- Whatever a replacement does to a graph, it does by steps without a compaction. -/
theorem replaceable_leadsTo {P : Step β → Prop} (hP : ∀ s : Step β, ¬ s.Compacts → P s)
    (g : Graph β) : Edit.Replaceable (g.LeadsTo P) (fun _ => True) (fun _ => True) fun _ => True where
  push {h spec} hgh _ hspec := by
    have hrun : (Change.addNode spec).run h = h.push spec := by
      simp only [Change.run, Change.edit, Edit.apply_discard,
        Edit.apply_addNode_ok_iff.2 ⟨fun v hv => (hspec v hv).1, rfl, rfl⟩]
    exact hrun ▸ hgh.step (s := .change (.addNode spec)) (hP _ (by simp [Step.Compacts]))
  new _ _ := trivial
  weaken _ := trivial
  redirected {h v w} hgh _ _ :=
    hgh.step (s := .change (.redirect v w)) (hP _ (by simp [Step.Compacts]))
  eliminated h id hgh :=
    hgh.step (s := .change (.markEliminated id)) (hP _ (by simp [Step.Compacts]))

/-- The processing order of a graph that was built by steps lists stored nodes only. -/
theorem hasNode_of_mem_order {P : Step β → Prop} (h : (empty : Graph β).LeadsTo P g)
    (hid : id ∈ g.order) : g.hasNode id = true := by
  have hdurable : Durable fun g : Graph β => ∀ id ∈ g.order, g.hasNode id = true :=
    { push := fun spec hg id hid => by
        rw [hasNode_push, Bool.or_eq_true, decide_eq_true_eq]
        exact (List.mem_append.1 hid).elim (fun hid => .inr (hg id hid))
          fun hid => .inl (List.mem_singleton.1 hid)
      assign := fun i f hg id hid => by
        rw [hasNode_modifyNode]
        exact hg id hid
      relist := fun _ _ hg => hg
      mark := fun g i hg id hid => by
        rw [hasNode_markEliminated]
        exact hg id (by rwa [order_markEliminated] at hid) }
  refine h.induction (Q := fun g => ∀ id ∈ g.order, g.hasNode id = true) (by simp [empty])
    (fun g s _ hg => ?_) id hid
  by_cases hs : s.Compacts
  · subst hs
    have hsorted (id : Nat) : id ∈ g.compact.2.order ↔ g.compact.2.hasNode id = true :=
      mem_sortedOrder
    exact fun id => (hsorted id).1
  · exact hdurable.step hs hg

end Graph

end Dataflow
