import Dataflow.Proofs.Reads.Matching
import Dataflow.Proofs.Recurrent.ReversalAtomicity

/-!
# Taking in reversals with direct reads

The search for a plan reads the operands of the nodes of a match directly.  The pattern gives the
reversals and the sequence node as many operands as are read.  It does not give the node between them,
which may be absent, a number of operands: one that has no list of axes is matched, and then its
second input is read.

## Main definitions

* `ReversalPlan.findDirect?`, `ReversalPlan.fuseDirect` : the search and the replacement with direct
  reads.
* `reversalRuleDirect` : the rule with these.
* `ReversalPlan.MissesAxes` : a match with a node that has no list of axes.

## Main statements

* `ReversalPlan.run_findDirect?` : the search ends as the one that reads only the axes directly.
* `ReversalPlan.find?_eq_outOfRange_iff` : when it reads past the end of a list.
* `ReversalPlan.inRange_reversal_iff` : when the rule does.
-/

namespace Dataflow

namespace ReversalPlan

variable {β : Type} {g : Graph β} {plan : ReversalPlan}

/-! ### The search -/

/-- The plan for the nodes of a match, given the squeeze node. -/
def completeDirect? (g : Graph β) (first second lstm : Node β) (lengths : Value)
    (squeeze : Option Nat) : Direct ReversalPlan := do
  guard ((← .ofOption (reversalAxes? first 3)) = (0, 1))
  let rank := (← .ofOption (g.layout? (← .entry second.inputs 0))).shape.rank
  guard ((← .ofOption (reversalAxes? second rank)) = if squeeze.isSome then (0, 1) else (0, 2))
  guard (sameLengths g (← .entry lstm.inputs 3) lengths)
  return { first := first.id, second := second.id, lstm := lstm.id, squeeze, lengths }

/-- The plan for a match of `reversalPattern`.  The axes of the squeeze node are read directly in any
case. -/
def findDirect? (g : Graph β) (p : ReversalPattern) (m : Match) : Direct ReversalPlan :=
  match g.node? m.root.node, (m.get? p.first).bind g.producer?, m.get? p.lstm,
      (m.get? p.lstm).bind g.producer?, m.get? p.lengths, m.get? p.squeeze with
  | some second, some first, some y, some lstm, some lengths, some squeeze =>
    if y.index = 0 ∧ lstm.direction = "forward" ∧ g.isOutputValue y = false then do
      match ← OptionT.lift (squeeze? g y squeeze) with
      | some squeeze => completeDirect? g first second lstm lengths squeeze
      | none => failure
    else failure
  | _, _, _, _, _, _ => failure

/-- Between the sequence node and the second reversal of a match there is a node without a list of
axes, and all that is looked at before this list fits. -/
def MissesAxes (g : Graph β) (m : Match) : Prop :=
  ∃ y lstm a n, m.get? 9 = some y ∧ g.producer? y = some lstm ∧ y.index = 0 ∧
    lstm.direction = "forward" ∧ g.isOutputValue y = false ∧ m.get? 10 = some a ∧ a ≠ y ∧
      g.producer? a = some n ∧ n.inputs.length ≤ 1

theorem dropsDirection_eq_outOfRange_iff {n : Node β} :
    dropsDirection g n = .error .outOfRange ↔ n.inputs.length ≤ 1 := by
  unfold dropsDirection
  split
  · next h => exact iff_of_true rfl (List.getElem?_eq_none_iff.1 h)
  · next h =>
    refine iff_of_false ?_ (Nat.not_le_of_lt (List.getElem?_eq_some_iff.1 h).1)
    split <;> simp

/-- The nodes that are looked up for a match are there. -/
structure LooksUp (g : Graph β) (m : Match) (second first lstm between : Node β)
    (f y lengths a : Value) : Prop where
  second_node : g.node? m.root.node = some second
  length_second : second.inputs.length = 2
  first_value : m.get? 2 = some f
  first_node : g.producer? f = some first
  lstm_value : m.get? 9 = some y
  lstm_node : g.producer? y = some lstm
  length_lstm : lstm.inputs.length = 7
  lengths_value : m.get? 1 = some lengths
  between_value : m.get? 10 = some a
  between_node : g.producer? a = some between

theorem exists_looksUp {p : Pattern β} (hp : IsReversal p) {v : Value} {m : Match}
    (hm : p.matchValue g v = some m) :
    ∃ second first lstm between f y lengths a,
      LooksUp g m second first lstm between f y lengths a := by
  obtain ⟨hroot, hagrees⟩ := Pattern.agrees_of_matchValue hp.wellFormed hm
  have hR := Pattern.isEmbedding_of_matchValue hp.wellFormed hm
  have hstep := Pattern.stepsClosed_reaches p g p.root v
  have hget := hagrees.get?
  have hnode {w : Value} {n : Node β} (h : g.source? w = some n) : g.node? w.node = some n :=
    Graph.node?_of_live? (Graph.source?_eq_some.1 h).1
  have hv : p.Reaches g p.root v 11 v := hp.root ▸ .refl
  -- The values of the pattern nodes are found from the second reversal on.
  obtain ⟨second, hsecond, -, -, hlen, hin⟩ := hR.op hstep hp.second rfl hv
  have hlen := (hlen (List.cons_ne_nil _ _)).symm
  obtain ⟨a, lengths, hinputs⟩ := List.length_eq_two.1 hlen
  have ha := hin 0 10 a rfl (by rw [hinputs]; rfl)
  have hlengths := hin 1 1 lengths rfl (by rw [hinputs]; rfl)
  obtain ⟨between, hbetween, -, hcases⟩ := hR.optional hstep hp.squeeze rfl ha
  obtain ⟨y, hy⟩ : ∃ y, p.Reaches g p.root v 9 y := by
    obtain ⟨-, -, y, -, -, hy⟩ | ⟨-, hy⟩ := hcases
    · exact ⟨y, hy⟩
    · exact ⟨a, hy⟩
  obtain ⟨lstm, hlstm, -, -, hlen', hin'⟩ := hR.op hstep hp.lstm rfl hy
  have hlen' := (hlen' (List.cons_ne_nil _ _)).symm
  have hlt : 0 < lstm.inputs.length := by rw [hlen']; decide
  have hf := hin' 0 2 lstm.inputs[0] rfl (List.getElem?_eq_getElem hlt)
  obtain ⟨first, hfirst, -⟩ := hR.op hstep hp.first rfl hf
  exact ⟨second, first, lstm, between, lstm.inputs[0], y, lengths, a, hroot ▸ hnode hsecond, hlen,
    (hget 2 _).2 hf, hnode hfirst, (hget 9 _).2 hy, hnode hlstm, hlen', (hget 1 _).2 hlengths,
    (hget 10 _).2 ha, hnode hbetween⟩

section LooksUp

variable {m : Match} {second first lstm between : Node β} {f y lengths a : Value}
  (h : LooksUp g m second first lstm between f y lengths a)
include h

theorem LooksUp.find?_eq : find? g ⟨2, 1, 9, 10⟩ m =
    if y.index = 0 ∧ lstm.direction = "forward" ∧ g.isOutputValue y = false then
      (squeeze? g y a).map fun squeeze => squeeze.bind (complete? g first second lstm lengths)
    else .ok none := by
  simp only [find?, h.second_node, h.first_value, h.lstm_value, h.lengths_value, h.between_value,
    Option.bind_some, h.first_node, h.lstm_node]
  rcases squeeze? g y a with _ | _ | _ <;> rfl

theorem LooksUp.finds_complete? (squeeze : Option Nat) :
    (completeDirect? g first second lstm lengths squeeze).Finds
      (complete? g first second lstm lengths squeeze) := by
  have hsecond : 0 < second.inputs.length := by rw [h.length_second]; decide
  have hlstm : 3 < lstm.inputs.length := by rw [h.length_lstm]; decide
  unfold completeDirect? complete?
  refine .bind .ofOption fun _ _ => .guard_bind fun _ => ?_
  refine .bind (.read hsecond) fun _ _ => .bind .ofOption fun _ _ => ?_
  refine .bind .ofOption fun _ _ => .guard_bind fun _ => ?_
  exact .bind (.read hlstm) fun _ _ => .guard_bind fun _ => .pure

/-- The search with direct reads ends as the one that reads only the axes directly. -/
theorem LooksUp.run_findDirect? :
    (findDirect? g ⟨2, 1, 9, 10⟩ m).run = find? g ⟨2, 1, 9, 10⟩ m := by
  simp only [h.find?_eq, findDirect?, h.second_node, h.first_value, h.lstm_value, h.lengths_value,
    h.between_value, Option.bind_some, h.first_node, h.lstm_node]
  split
  · rw [OptionT.run_bind, OptionT.run_lift]
    rcases squeeze? g y a with e | _ | squeeze
    · rfl
    · rfl
    · exact h.finds_complete? squeeze
  · rfl

theorem LooksUp.squeeze?_eq_outOfRange_iff :
    squeeze? g y a = .error .outOfRange ↔ a ≠ y ∧ between.inputs.length ≤ 1 := by
  have hnode : g.node? a.node = some between := h.between_node
  rw [← dropsDirection_eq_outOfRange_iff (g := g)]
  unfold squeeze?
  by_cases hay : a = y
  · simp [hay]
  · simp only [hnode, hay]
    cases dropsDirection g between with
    | error e => simp [hay, bind, Except.bind]
    | ok drops =>
      by_cases hdrops : drops = true ∧ g.isOutputValue a = false <;>
        simp [hdrops, bind, Except.bind, pure, Except.pure]

theorem LooksUp.find?_eq_outOfRange_iff :
    find? g ⟨2, 1, 9, 10⟩ m = .error .outOfRange ↔ MissesAxes g m := by
  rw [h.find?_eq]
  constructor
  · intro herror
    split at herror
    · next hguard =>
      have hsqueeze : squeeze? g y a = .error .outOfRange := by
        rcases hs : squeeze? g y a with e | _ | squeeze
        · rw [hs] at herror
          exact congrArg _ (Except.error.inj herror)
        · simp [hs, Except.map] at herror
        · simp [hs, Except.map] at herror
      obtain ⟨hne, hlen⟩ := h.squeeze?_eq_outOfRange_iff.1 hsqueeze
      exact ⟨y, lstm, a, between, h.lstm_value, h.lstm_node, hguard.1, hguard.2.1, hguard.2.2,
        h.between_value, hne, h.between_node, hlen⟩
    · simp at herror
  · rintro ⟨y', lstm', a', between', hy, hlstm, hindex, hforward, hout, ha, hne, hbetween, hlen⟩
    obtain rfl := Option.some.inj (h.lstm_value.symm.trans hy)
    obtain rfl := Option.some.inj (h.between_value.symm.trans ha)
    obtain rfl := Option.some.inj (h.lstm_node.symm.trans hlstm)
    obtain rfl := Option.some.inj (h.between_node.symm.trans hbetween)
    rw [if_pos ⟨hindex, hforward, hout⟩, h.squeeze?_eq_outOfRange_iff.2 ⟨hne, hlen⟩]
    rfl

end LooksUp

/-! ### The replacement -/

/-- The replacement, once the operands of the new node have been read. -/
def fuseWith (plan : ReversalPlan) (old : Node β) (inputs : List Value) : Edit β Bool := do
  let new ← Edit.addNode
    { op := .lstmSequence
      name := some (old.name ++ "/reverse")
      inputs
      outputs := old.outputs
      attributes := old.attributes.withDirection "reverse" }
  let y ←
    if plan.squeeze.isSome then Edit.squeeze (old.name ++ "/y") ⟨new, 0⟩ 1 else pure ⟨new, 0⟩
  let _ ← Edit.redirect ⟨plan.second, 0⟩ y
  redirectFrom plan.lstm new ((List.range old.outputs.length).drop 1)
  let _ ← Edit.markEliminated plan.second
  if let some squeeze := plan.squeeze then
    let _ ← Edit.markEliminated squeeze
  let _ ← Edit.markEliminated plan.lstm
  let _ ← Edit.always (·.eliminateIfUnused plan.first)
  return true

/-- The replacement, which reads the first operand of the first reversal and writes two operands of
the sequence node directly. -/
def fuseDirect (plan : ReversalPlan) : Edit β Bool := do
  let g ← get
  match g.node? plan.lstm, g.node? plan.first with
  | some old, some first =>
    let data ← Edit.pureExcept (readAt first.inputs 0)
    let inputs ← Edit.pureExcept (writeAt old.inputs 0 data)
    let inputs ← Edit.pureExcept (writeAt inputs 3 plan.lengths)
    plan.fuseWith old inputs
  | _, _ => return false

section Replacement

variable {first lstm : Node β} {data : Value}

theorem Ready.apply_fuseDirect (hr : Ready g plan first lstm data) :
    plan.fuseDirect.apply g = plan.fuse.apply g := by
  have hdata : (g.node? plan.first).bind (·.inputs[0]?) = some data := by
    rw [hr.first_node, Option.bind_some, hr.first_input]
  have hpure {α : Type} (a : α) : (Edit.pureExcept (.ok a) : Edit β α).apply g = (.ok a, g) := rfl
  have hzero : writeAt lstm.inputs 0 data = .ok (lstm.inputs.set 0 data) :=
    writeAt_of_lt (by rw [hr.length_inputs]; decide)
  have hthree : writeAt (lstm.inputs.set 0 data) 3 plan.lengths =
      .ok ((lstm.inputs.set 0 data).set 3 plan.lengths) :=
    writeAt_of_lt (by rw [List.length_set, hr.length_inputs]; decide)
  unfold fuseDirect fuse
  rw [Edit.apply_bind_of_ok (Edit.apply_get g), Edit.apply_bind_of_ok (Edit.apply_get g)]
  simp only [hr.lstm_node, hr.first_node, hr.first_input, Option.bind_some]
  rw [readAt_of_getElem? hr.first_input, Edit.apply_bind_of_ok (hpure data), hzero,
    Edit.apply_bind_of_ok (hpure _), hthree, Edit.apply_bind_of_ok (hpure _)]
  rfl

theorem Ready.inRange_fuse (hr : Ready g plan first lstm data) : plan.fuse.InRange g := by
  have hresult : (plan.result lstm g.slots.length).InRange (g.push (plan.spec lstm data)) :=
    .ite (fun _ => Edit.inRange_squeeze) fun _ => .pure _
  unfold Edit.InRange at hresult ⊢
  rw [hr.apply_fuse]
  rcases h : (plan.result lstm g.slots.length).apply (g.push (plan.spec lstm data)) with ⟨e | y, k⟩
  · rw [h] at hresult
    simpa using hresult
  · simp

end Replacement

end ReversalPlan

/-! ### The rule -/

/-- The rule with direct reads. -/
def reversalRuleDirect {β : Type} : Rule β :=
  let (pattern, nodes) := reversalPattern
  { name := "fuse_reverse_lstm_sequence"
    pattern
    action := fun m => do
      match ← Edit.askDirect fun g => ReversalPlan.findDirect? g nodes m with
      | some plan => plan.fuseDirect
      | none => return false }

section Rule

variable {β : Type} {g : Graph β} {id : Nat} {m : Match}

/-- The action with direct reads does the same at a match. -/
theorem apply_reversalRuleDirect (hg : g.Numbered) (hm : reversalRule.MatchesAt g id m) :
    (reversalRuleDirect.action m).apply g = (reversalRule.action m).apply g := by
  obtain ⟨_, _, -, -, hm⟩ := hm
  obtain ⟨_, _, _, _, _, _, _, _, hlook⟩ :=
    ReversalPlan.exists_looksUp isReversal_reversalPattern hm
  have hact : (reversalRuleDirect.action m : Edit β Bool) = (do
      match ← Edit.askDirect fun g => ReversalPlan.findDirect? g ⟨2, 1, 9, 10⟩ m with
      | some plan => plan.fuseDirect
      | none => return false) := rfl
  rw [hact, Edit.apply_bind, Edit.askDirect, Edit.apply_ask, hlook.run_findDirect?,
    ReversalPlan.apply_reversalAction]
  rcases h : ReversalPlan.find? g ⟨2, 1, 9, 10⟩ m with e | _ | plan
  · rfl
  · rfl
  · obtain ⟨_, _, _, hr⟩ :=
      ReversalPlan.exists_ready_of_find? isReversal_reversalPattern hg hm h
    exact hr.apply_fuseDirect

/-- At a match the action reads past the end of a list exactly if it misses a list of axes. -/
theorem inRange_reversalAction_iff (hg : g.Numbered) (hm : reversalRule.MatchesAt g id m) :
    (reversalRule.action m).InRange g ↔ ¬ ReversalPlan.MissesAxes g m := by
  obtain ⟨_, _, -, -, hm⟩ := hm
  obtain ⟨_, _, _, _, _, _, _, _, hlook⟩ :=
    ReversalPlan.exists_looksUp isReversal_reversalPattern hm
  rw [← hlook.find?_eq_outOfRange_iff, Edit.InRange, ReversalPlan.apply_reversalAction]
  rcases h : ReversalPlan.find? g ⟨2, 1, 9, 10⟩ m with e | _ | plan
  · simp
  · simp
  · obtain ⟨_, _, _, hr⟩ :=
      ReversalPlan.exists_ready_of_find? isReversal_reversalPattern hg hm h
    simpa using! hr.inRange_fuse

/-- **The rule reads past the end of a list at a node** exactly if it misses a list of axes at one of
the matches there. -/
theorem inRange_reversal_iff (hg : g.Numbered) :
    (reversalRule.attempt id).InRange g ↔
      ∀ m, reversalRule.MatchesAt g id m → ¬ ReversalPlan.MissesAxes g m := by
  rw [Rule.inRange_attempt_iff ReversalPlan.declines_reversalRule fun m m' hm hm' => ?_]
  · exact forall₂_congr fun m hm => inRange_reversalAction_iff hg hm
  · rw [ReversalPlan.apply_reversalAction, ReversalPlan.apply_reversalAction,
      ReversalPlan.find?_eq_of_matchesAt hm hm']

end Rule

end Dataflow
