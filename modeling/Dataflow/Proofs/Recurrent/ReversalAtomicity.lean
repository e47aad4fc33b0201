import Dataflow.Proofs.Graph.Specs
import Dataflow.Proofs.Invariant
import Dataflow.Proofs.Recurrent.Directions
import Dataflow.Proofs.Recurrent.ReversalFusion
import Dataflow.Proofs.Success

/-!
# Reversals taken into a sequence node, or nothing

The replacement first adds the backward sequence node, and then drops the axis for the directions
from its result, as the node between the old sequence node and the second reversal has done.  The
search for a plan looks at the operands of that node but not at the layout that the sequence node
declares.  So the axis may turn out to be one that cannot be dropped when the new node is there
already.

## Main definitions

* `ReversalPlan.IsFoundAt` : the plan that the rule finds at a node.
* `ReversalPlan.Ready` : what the first step of the replacement needs.
* `ReversalPlan.Squeezable` : what the second one needs.

## Main statements

* `ReversalPlan.Ready.apply_fuse` : only the second step can fail.
* `ReversalPlan.atomic_reversal_iff` : when the rule applies or leaves the graph as it is.
-/

namespace Dataflow

namespace ReversalPlan

section Replacement

variable {β : Type} {g : Graph β} {plan plan' : ReversalPlan} {first lstm : Node β} {data : Value}
  {id : Nat}

/-- The rule finds the plan with a match at some output of the node. -/
def IsFoundAt (plan : ReversalPlan) (g : Graph β) (id : Nat) : Prop :=
  ∃ m, reversalRule.MatchesAt g id m ∧ find? g ⟨2, 1, 9, 10⟩ m = .ok (some plan)

/-- The nodes of the plan are there, and the backward node has its operands. -/
structure Ready (g : Graph β) (plan : ReversalPlan) (first lstm : Node β) (data : Value) : Prop where
  first_node : g.node? plan.first = some first
  first_input : first.inputs[0]? = some data
  lstm_node : g.node? plan.lstm = some lstm
  length_inputs : lstm.inputs.length = 7
  operands : ∀ v ∈ (plan.spec lstm data).inputs, g.hasValue v = true
  output : 0 < lstm.outputs.length

/-- If an axis has to be dropped from the result of the sequence node, its declared length is one or
unknown. -/
def Squeezable (g : Graph β) (plan : ReversalPlan) : Prop :=
  plan.squeeze.isSome → ∃ l, g.layout? ⟨plan.lstm, 0⟩ = some l ∧
    (l.shape.dim? 1 = some (.known 1) ∨ l.shape.dim? 1 = some .unknown)

/-! ### The plan of a match -/

/-- A plan that is found can be begun with: all its values have been matched. -/
theorem exists_ready_of_find? {p : Pattern β} (hp : IsReversal p) (hg : g.Numbered) {v : Value}
    {m : Match} (hm : p.matchValue g v = some m) (h : find? g ⟨2, 1, 9, 10⟩ m = .ok (some plan)) :
    ∃ first lstm data, Ready g plan first lstm data := by
  obtain ⟨-, hagrees⟩ := Pattern.agrees_of_matchValue hp.wellFormed hm
  have hR := Pattern.isEmbedding_of_matchValue hp.wellFormed hm
  have hstep := Pattern.stepsClosed_reaches p g p.root v
  have hget := hagrees.get?
  obtain ⟨second, f, first, y, lstm, lengths, a, squeeze, -, hf, hfirst, hy, hlstm, hlengths, -,
    hindex, -, -, -, hcomplete⟩ := find?_eq_ok h
  rw [hget] at hf hy hlengths
  obtain ⟨hL, -⟩ := hR.isOperation hstep hg hp.lstm rfl hy hlstm
  obtain ⟨hF, -⟩ := hR.isOperation hstep hg hp.first rfl hf hfirst
  obtain ⟨-, -, -, rfl⟩ := complete?_eq_some hcomplete
  have hvalue : ∀ ⦃i w⦄, p.Reaches g p.root v i w → g.hasValue w = true := by
    intro i w hw
    obtain ⟨_, -, n, hn, -⟩ := hR.fits hw
    exact Graph.hasValue_iff.2 ⟨n, Graph.source?_eq_some.1 hn⟩
  obtain ⟨data, l, hFin⟩ := List.length_eq_two.1 (hF.length (List.cons_ne_nil _ _))
  refine ⟨first, lstm, data, ?_⟩
  constructor
  case first_node => exact hF.id ▸ Graph.node?_of_live? hF.live
  case first_input => rw [hFin]; rfl
  case lstm_node => exact hL.id ▸ Graph.node?_of_live? hL.live
  case length_inputs => exact hL.length (List.cons_ne_nil _ _)
  case output => exact Nat.zero_lt_of_lt hL.lt
  case operands =>
    intro w hw
    obtain hw | rfl := List.mem_or_eq_of_mem_set hw
    · obtain hw | rfl := List.mem_or_eq_of_mem_set hw
      · obtain ⟨k, hk⟩ := List.mem_iff_getElem?.1 hw
        have hlt : k < [2, 3, 4, 5, 6, 7, 8].length := by
          rw [← hL.length (List.cons_ne_nil _ _)]
          exact (List.getElem?_eq_some_iff.1 hk).1
        exact hvalue (hL.input (List.getElem?_eq_getElem hlt) hk)
      · exact hvalue (hF.input (k := 0) rfl (by rw [hFin]; rfl))
    · exact hvalue hlengths

/-- All matches at a node lead to the same plan, or to none. -/
theorem find?_eq_of_matchesAt {m m' : Match} (hm : reversalRule.MatchesAt g id m)
    (hm' : reversalRule.MatchesAt g id m') :
    find? g ⟨2, 1, 9, 10⟩ m = find? g ⟨2, 1, 9, 10⟩ m' := by
  obtain ⟨n, i, -, -, hm⟩ := hm
  obtain ⟨n', i', -, -, hm'⟩ := hm'
  have hp : IsReversal (reversalRule (β := β)).pattern := isReversal_reversalPattern
  have hget : ∀ k < 11, m.get? k = m'.get? k := fun k hk =>
    Pattern.get?_eq_of_matchValue hp.wellFormed (hp.root ▸ hp.second) rfl hm hm'
      (hp.root ▸ Nat.ne_of_lt hk)
  have hroot : m.root.node = m'.root.node := by
    rw [(Pattern.agrees_of_matchValue hp.wellFormed hm).1,
      (Pattern.agrees_of_matchValue hp.wellFormed hm').1]
  simp only [find?, hroot, hget 1 (by decide), hget 2 (by decide), hget 9 (by decide),
    hget 10 (by decide)]

theorem IsFoundAt.unique (h : IsFoundAt plan g id) (h' : IsFoundAt plan' g id) : plan' = plan := by
  obtain ⟨m, hm, hfind⟩ := h
  obtain ⟨m', hm', hfind'⟩ := h'
  rw [find?_eq_of_matchesAt hm' hm, hfind] at hfind'
  exact (Option.some.inj (Except.ok.inj hfind')).symm

theorem apply_action_of_find? {m : Match} (h : find? g ⟨2, 1, 9, 10⟩ m = .ok (some plan)) :
    (reversalRule.action m : Edit β Bool).apply g = plan.fuse.apply g := by
  rw [apply_reversalAction, h]

/-! ### The steps that can fail -/

/-- After the result of the new node has got its axes, nothing can fail. -/
theorem Ready.apply_fuse (hr : Ready g plan first lstm data) :
    plan.fuse.apply g =
      match (plan.result lstm g.slots.length).apply (g.push (plan.spec lstm data)) with
      | (.ok y, k) => (.ok true, ((Graph.eliminateAll plan.replaced (Graph.redirectAll
          (plan.pairs lstm g.slots.length y) k)).2.eliminateIfUnused plan.first).2)
      | (.error e, k) => (.error e, k) := by
  have hnew : (Edit.addNode (plan.spec lstm data)).apply g =
      (.ok g.slots.length, g.push (plan.spec lstm data)) :=
    Edit.apply_addNode_ok_iff.2 ⟨hr.operands, rfl, rfl⟩
  have hdata : (g.node? plan.first).bind (·.inputs[0]?) = some data := by
    rw [hr.first_node, Option.bind_some, hr.first_input]
  unfold fuse
  rw [Edit.apply_bind, Edit.apply_get]
  simp only [hr.lstm_node, hdata]
  refine (Edit.apply_bind_of_ok hnew).trans ?_
  rw [Edit.ite_bind, ← result, Edit.apply_bind]
  rcases (plan.result lstm g.slots.length).apply (g.push (plan.spec lstm data)) with ⟨e | y, k⟩
  · rfl
  · simp only [Edit.apply_bind, Edit.apply_redirect, apply_redirectFrom, Edit.apply_markEliminated]
    unfold replaced
    cases plan.squeeze <;> rfl

theorem Ready.result_ok_iff (hr : Ready g plan first lstm data) :
    (∃ y k, (plan.result lstm g.slots.length).apply (g.push (plan.spec lstm data)) = (.ok y, k)) ↔
      Squeezable g plan := by
  obtain ⟨l, hl⟩ : ∃ l, lstm.outputs[0]? = some l := ⟨_, List.getElem?_eq_getElem hr.output⟩
  have hnew : (g.push (plan.spec lstm data)).Declares ⟨g.slots.length, 0⟩ l :=
    Graph.declares_push_new hl
  have hold : g.layout? ⟨plan.lstm, 0⟩ = some l := Option.bind_eq_some_iff.2 ⟨lstm, hr.lstm_node, hl⟩
  unfold result Squeezable
  by_cases hs : plan.squeeze.isSome = true
  · simp only [hs, if_true, Edit.apply_squeeze_ok_iff, hold, Option.some.injEq, exists_eq_left',
      forall_const, ← Layout.exists_squeeze_iff]
    constructor
    · rintro ⟨y, k, l₀, l', hl₀, hl', -⟩
      obtain rfl := Option.some.inj (hnew.layout?.symm.trans hl₀)
      exact ⟨l', hl'⟩
    · rintro ⟨l', hl'⟩
      exact ⟨_, _, l, l', hnew.layout?, hl', hnew.hasValue, rfl, rfl⟩
  · simp [hs]

theorem length_lt_result (g : Graph β) (plan : ReversalPlan) (lstm : Node β) (data : Value) :
    g.slots.length < ((plan.result lstm g.slots.length).apply
      (g.push (plan.spec lstm data))).2.slots.length := by
  have hkeeps : Edit.Keeps (fun k : Graph β => g.slots.length < k.slots.length) (fun _ => True)
      (plan.result lstm g.slots.length) := by
    refine .ite (fun _ => ?_) fun _ => .pure trivial
    exact (Edit.replaceable_longer _).toExtensible.squeeze trivial
  refine (hkeeps _ ?_).1
  dsimp only
  rw [Graph.length_slots_push]
  exact Nat.lt_succ_self _

/-- **When a replacement succeeds**, and that it is not undone when it fails. -/
theorem Ready.fuse_iff (hr : Ready g plan first lstm data) :
    (plan.fuse.apply g).1 ≠ .ok false ∧
      ((plan.fuse.apply g).1 = .ok true ∨ (plan.fuse.apply g).2 = g ↔ Squeezable g plan) := by
  have hlonger := length_lt_result g plan lstm data
  rw [hr.apply_fuse, ← hr.result_ok_iff]
  rcases hresult : (plan.result lstm g.slots.length).apply (g.push (plan.spec lstm data)) with
    ⟨e | y, k⟩
  · rw [hresult] at hlonger
    have hne : k ≠ g := fun h => absurd hlonger (by rw [h]; exact Nat.lt_irrefl _)
    simp [hne]
  · simp

/-- **The rule either applies or leaves the graph as it is** exactly if the sequence node of the plan
that it has found, if it has found one, declares an axis that can be dropped where one has to be. -/
theorem atomic_reversal_iff (hg : g.Numbered) (id : Nat) :
    reversalRule.AtomicAt g id ↔ ∀ plan, IsFoundAt plan g id → Squeezable g plan := by
  have hready : ∀ {plan}, IsFoundAt plan g id → ∃ first lstm data, Ready g plan first lstm data := by
    rintro plan ⟨m, ⟨_, _, -, -, hm⟩, hfind⟩
    exact exists_ready_of_find? isReversal_reversalPattern hg hm hfind
  by_cases hfound : ∃ plan : ReversalPlan, plan.IsFoundAt g id
  · obtain ⟨plan, hplan⟩ := hfound
    obtain ⟨_, _, _, hr⟩ := hready hplan
    have ⟨m, hm, hfind⟩ := hplan
    rw [Rule.atomicAt_iff declines_reversalRule hm, apply_action_of_find? hfind, hr.fuse_iff.2]
    · exact ⟨fun hs plan' hplan' => hplan.unique hplan' ▸ hs, fun hall => hall plan hplan⟩
    · rw [apply_action_of_find? hfind]
      exact hr.fuse_iff.1
    · intro m' hm' _
      rw [apply_reversalAction, apply_reversalAction, find?_eq_of_matchesAt hm' hm]
  · refine iff_of_true (Rule.atomicAt_of_unchanged declines_reversalRule fun m hm => ?_)
      fun plan hplan => absurd ⟨plan, hplan⟩ hfound
    rw [apply_reversalAction]
    split
    · next plan hplan => exact absurd ⟨plan, m, hm, hplan⟩ hfound
    · rfl
    · rfl

end Replacement

/-! ### A sequence node that declares any number of directions -/

/-- A forward node between two reversals.  It declares the given number of directions, and the node
that drops their axis reads the given list of axes. -/
def betweenReversalsSpecs (directions : Nat) (axes : List Value) : List (NodeSpec Body) :=
  operandSpecs ++ [
    { op := .reverseSequence
      inputs := [⟨0, 0⟩, ⟨1, 0⟩]
      outputs := [.planar (.ofLengths [1, 3, 1]) .f32] },
    { sequenceSpec "forward" ⟨7, 0⟩ with
      outputs := [.planar (.ofLengths [1, directions, 3, 1]) .f32] },
    Graph.constantSpec "axes" (.vector [1]),
    { op := .squeeze
      inputs := ⟨8, 0⟩ :: axes
      outputs := [.planar (.ofLengths [1, 3, 1]) .f32] },
    { op := .reverseSequence
      inputs := [⟨10, 0⟩, ⟨1, 0⟩]
      outputs := [.planar (.ofLengths [1, 3, 1]) .f32] }]

def betweenReversals (directions : Nat) (axes : List Value) : Graph Body :=
  .ofSpecs (betweenReversalsSpecs directions axes) [⟨11, 0⟩]

theorem betweenReversals_sound (directions : Nat) :
    (betweenReversals directions [⟨9, 0⟩]).WellKept ∧
      (betweenReversals directions [⟨9, 0⟩]).Acyclic ∧
        (betweenReversals directions [⟨9, 0⟩]).NoDangling :=
  Graph.ofSpecs_sound (betweenReversalsSpecs directions [⟨9, 0⟩]) _ (by rfl) (by rfl)

/-- The axis of a single direction is dropped. -/
theorem atomic_reversal_betweenReversals :
    (betweenReversals 1 [⟨9, 0⟩]).Numbered ∧
      ((reversalRule.attempt 11).apply (betweenReversals 1 [⟨9, 0⟩])).1 =
        .ok (.applied [11, 10, 8, 7]) ∧
      ∀ plan, IsFoundAt plan (betweenReversals 1 [⟨9, 0⟩]) 11 →
        Squeezable (betweenReversals 1 [⟨9, 0⟩]) plan := by
  have hg := (betweenReversals_sound 1).1.numbered
  have happlied : ((reversalRule.attempt 11).apply (betweenReversals 1 [⟨9, 0⟩])).1 =
      .ok (.applied [11, 10, 8, 7]) := by
    decide +kernel
  exact ⟨hg, happlied, (atomic_reversal_iff hg 11).1 (.inl ⟨_, happlied⟩)⟩

/-- That of two directions is not, which the rule finds out after it has added the backward node. -/
theorem exists_partial_reversal :
    ¬ ∀ (g : Graph Body) (id : Nat), g.WellKept → g.NoDangling → reversalRule.AtomicAt g id := by
  intro hall
  obtain ⟨hk, -, hd⟩ := betweenReversals_sound 2
  obtain ⟨nodes, happlied⟩ | hsame := hall (betweenReversals 2 [⟨9, 0⟩]) 11 hk hd
  · have hfailed : ((reversalRule.attempt 11).apply (betweenReversals 2 [⟨9, 0⟩])).1 =
        .error (.shapeMismatch (.squeeze 1 (.ofLengths [1, 2, 3, 1]))) := by
      decide +kernel
    simp [hfailed] at happlied
  · have hgrown :
        ((reversalRule.attempt 11).apply (betweenReversals 2 [⟨9, 0⟩])).2.slots.length = 13 := by
      decide +kernel
    rw [hsame] at hgrown
    exact absurd hgrown (by decide +kernel)

end ReversalPlan

end Dataflow
