import Dataflow.Proofs.Pattern.Reading
import Dataflow.Recurrent.Reversal

/-!
# Reversals that can be taken into a sequence node

What the plan for taking two reversals into the sequence node between them says about the graph: the
nodes with their operands, the axes of the reversals, the lengths, and who reads the results on the
way from the sequence node to the second reversal.

## Main definitions

* `ReversalPlan.Way` : how the result of the sequence node gets to the second reversal.
* `ReversalPlan.Involved` : what a plan says.

## Main statements

* `ReversalPlan.involved_of_find?` : a plan that is found says so.
-/

namespace Dataflow

variable {β : Type}

/-! ### The pattern -/

/-- The nodes of the pattern of two reversals that the plan is read off. -/
structure IsReversal (p : Pattern β) : Prop where
  wellFormed : p.WellFormed
  root : p.root = 11
  data : p.node? 0 = some { kind := .any, accepts := Condition.rank 3 }
  first : p.node? 2 = some { kind := .op [.reverseSequence] [0, 1] }
  lstm : p.node? 9 = some
    { kind := .op [.lstmSequence] [2, 3, 4, 5, 6, 7, 8], accepts := Condition.useCount 1 }
  squeeze : p.node? 10 = some { kind := .optional [.squeeze] 9, accepts := Condition.useCount 1 }
  second : p.node? 11 = some { kind := .op [.reverseSequence] [10, 1] }

theorem isReversal_reversalPattern : IsReversal (reversalPattern (β := β)).1 where
  wellFormed := .of_refersBack (List.cons_ne_nil _ _) rfl
  root := rfl
  data := rfl
  first := rfl
  lstm := rfl
  squeeze := rfl
  second := rfl

namespace ReversalPlan

variable {g : Graph β} {plan : ReversalPlan} {first lstm second : Node β} {data x l a : Value}

/-- The value `a` that the second reversal reads is the first output of the sequence node, or comes
from it through a node that drops the axis for the directions.  Nothing else reads the values on this
way, and they are no outputs of the graph. -/
inductive Way (g : Graph β) (lstm second : Nat) : Option Nat → Value → Prop
  | direct (honly : ∀ u, g.Reads u ⟨lstm, 0⟩ → u.node = second) (hout : ⟨lstm, 0⟩ ∉ g.outputs) :
      Way g lstm second none ⟨lstm, 0⟩
  | squeezed {s : Nat} {n : Node β} {axes : Value} {rest : List Value} {axis : Int}
      (hn : g.live? s = some n) (hop : n.op = .squeeze) (houts : n.outputs.length = 1)
      (hin : n.inputs = ⟨lstm, 0⟩ :: axes :: rest) (haxes : g.constantInts? axes = some [axis])
      (haxis : (normalizeAxis axis 4).toOption = some 1)
      (honly : ∀ u, g.Reads u ⟨lstm, 0⟩ → u.node = s) (hout : ⟨lstm, 0⟩ ∉ g.outputs)
      (honly' : ∀ u, g.Reads u ⟨s, 0⟩ → u.node = second) (hout' : ⟨s, 0⟩ ∉ g.outputs) :
      Way g lstm second (some s) ⟨s, 0⟩

/-- What a plan says about the nodes that it names.  The first reversal is the one of `data`, and the
second one that of `a`. -/
structure Involved (g : Graph β) (plan : ReversalPlan) (first lstm second : Node β)
    (data x l a : Value) : Prop where
  first_node : g.live? plan.first = some first
  first_op : first.op = .reverseSequence
  first_inputs : first.inputs = [data, plan.lengths]
  first_axes : reversalAxes? first 3 = some (0, 1)
  rank_data : ∃ layout, g.layout? data = some layout ∧ layout.shape.rank = 3
  lstm_node : g.live? plan.lstm = some lstm
  lstm_op : lstm.op = .lstmSequence
  lstm_inputs : ∃ h c w r b, lstm.inputs = [x, h, c, l, w, r, b]
  x : x.node = plan.first ∧ x.index < first.outputs.length
  forward : lstm.direction = "forward"
  lengths : sameLengths g l plan.lengths = true
  second_node : g.live? plan.second = some second
  second_op : second.op = .reverseSequence
  second_inputs : second.inputs = [a, plan.lengths]
  second_axes : ∃ layout, g.layout? a = some layout ∧
    reversalAxes? second layout.shape.rank = some (if plan.squeeze.isSome then (0, 1) else (0, 2))
  way : Way g plan.lstm plan.second plan.squeeze a

/-! ### The search for a plan -/

theorem dropsDirection_eq_ok {n : Node β} (h : dropsDirection g n = .ok true) :
    ∃ axes axis, n.inputs[1]? = some axes ∧ g.constantInts? axes = some [axis] ∧
      (normalizeAxis axis 4).toOption = some 1 := by
  unfold dropsDirection at h
  split at h
  · simp at h
  · next axes haxes =>
    split at h
    · next axis haxis => exact ⟨axes, axis, haxes, haxis, beq_iff_eq.1 (Except.ok.inj h)⟩
    · simp at h

theorem squeeze?_eq_ok {y : Value} {squeeze : Option Nat}
    (h : squeeze? g y a = .ok (some squeeze)) :
    (a = y ∧ squeeze = none) ∨ ∃ n, a ≠ y ∧ g.node? a.node = some n ∧ squeeze = some n.id ∧
      dropsDirection g n = .ok true ∧ g.isOutputValue a = false := by
  unfold squeeze? at h
  split at h
  · next heq => exact .inl ⟨heq, (Option.some.inj (Except.ok.inj h)).symm⟩
  · next hne =>
    split at h
    · simp at h
    · next n hn =>
      cases hdrops : dropsDirection g n with
      | error e => simp [hdrops, bind, Except.bind] at h
      | ok drops =>
        simp only [hdrops, bind, Except.bind, Bool.and_eq_true, Bool.not_eq_true'] at h
        split at h
        · next hboth =>
          obtain rfl := hboth.1
          obtain rfl := Option.some.inj (Except.ok.inj h)
          exact .inr ⟨n, hne, hn, rfl, hdrops, hboth.2⟩
        · simp [pure, Except.pure] at h

theorem complete?_eq_some {lengths : Value} {squeeze : Option Nat}
    (h : complete? g first second lstm lengths squeeze = some plan) :
    reversalAxes? first 3 = some (0, 1) ∧ (∃ a layout, second.inputs[0]? = some a ∧
      g.layout? a = some layout ∧ reversalAxes? second layout.shape.rank =
        some (if squeeze.isSome then (0, 1) else (0, 2))) ∧
      (∃ l, lstm.inputs[3]? = some l ∧ sameLengths g l lengths = true) ∧
        plan = ⟨first.id, second.id, lstm.id, squeeze, lengths⟩ := by
  obtain ⟨axes, haxes, h⟩ := Option.bind_eq_some_iff.1 h
  obtain ⟨_, hguard, h⟩ := Option.bind_eq_some_iff.1 h
  rw [Option.guard_eq_some'] at hguard
  obtain ⟨a, ha, h⟩ := Option.bind_eq_some_iff.1 h
  obtain ⟨layout, hlayout, h⟩ := Option.bind_eq_some_iff.1 h
  obtain ⟨axes', haxes', h⟩ := Option.bind_eq_some_iff.1 h
  obtain ⟨_, hguard', h⟩ := Option.bind_eq_some_iff.1 h
  rw [Option.guard_eq_some'] at hguard'
  obtain ⟨l, hl, h⟩ := Option.bind_eq_some_iff.1 h
  obtain ⟨_, hsame, h⟩ := Option.bind_eq_some_iff.1 h
  rw [Option.guard_eq_some'] at hsame
  exact ⟨hguard ▸ haxes, ⟨a, layout, ha, hlayout, hguard' ▸ haxes'⟩, ⟨l, hl, hsame⟩,
    (Option.some.inj h).symm⟩

/-- What the search for a plan has read off the match and the graph. -/
theorem find?_eq_ok {numbers : ReversalPattern} {m : Match}
    (h : find? g numbers m = .ok (some plan)) :
    ∃ second v first y lstm lengths a squeeze, g.node? m.root.node = some second ∧
      m.get? numbers.first = some v ∧ g.producer? v = some first ∧ m.get? numbers.lstm = some y ∧
      g.producer? y = some lstm ∧ m.get? numbers.lengths = some lengths ∧
      m.get? numbers.squeeze = some a ∧ y.index = 0 ∧ lstm.direction = "forward" ∧
      g.isOutputValue y = false ∧ squeeze? g y a = .ok (some squeeze) ∧
      complete? g first second lstm lengths squeeze = some plan := by
  unfold find? at h
  split at h
  · next second first y lstm lengths a hsecond hfirst hy hlstm hlengths ha =>
    obtain ⟨v, hv, hfirst⟩ := Option.bind_eq_some_iff.1 hfirst
    rw [hy, Option.bind_some] at hlstm
    split at h
    · next hguard =>
      cases hsqueeze : squeeze? g y a with
      | error e => simp [hsqueeze, bind, Except.bind] at h
      | ok found =>
        cases found with
        | none => simp [hsqueeze, bind, Except.bind, pure, Except.pure] at h
        | some squeeze =>
          simp only [hsqueeze, bind, Except.bind, pure, Except.pure] at h
          exact ⟨second, v, first, y, lstm, lengths, a, squeeze, hsecond, hv, hfirst, hy, hlstm,
            hlengths, ha, hguard.1, hguard.2.1, hguard.2.2, hsqueeze, Except.ok.inj h⟩
    · simp at h
  · simp at h

/-! ### What the plan says -/

section Pattern

variable {p : Pattern β} {R : Nat → Value → Prop}

/-- The way from the sequence node to the second reversal. -/
theorem way_of_squeeze? (hp : IsReversal p) (hk : g.WellKept) (hR : p.IsEmbedding g R)
    (hstep : p.StepsClosed g R) {y : Value} (hy : R 9 y) (hindex : y.index = 0)
    (hout : g.isOutputValue y = false) (ha : R 10 a) {squeeze : Option Nat}
    (hs : squeeze? g y a = .ok (some squeeze)) {u : Use} (hread : g.Reads u a) :
    Way g y.node u.node squeeze a := by
  have hy0 : y = ⟨y.node, 0⟩ := by rw [← hindex]
  have hnotOut : ⟨y.node, 0⟩ ∉ g.outputs := by
    rw [← hy0]
    simpa [Graph.isOutputValue] using hout
  obtain ⟨m, hm, hycount, hmop, -⟩ := hR.op hstep hp.lstm rfl hy
  obtain ⟨n, hn, hacount, hcases⟩ := hR.optional hstep hp.squeeze rfl ha
  obtain ⟨hlive, hlt⟩ := Graph.source?_eq_some.1 hn
  have honly := Condition.reader_of_useCount hk hacount hread
  obtain ⟨rfl, rfl⟩ | ⟨n', hne, hn', rfl, hdrops, hout'⟩ := squeeze?_eq_ok hs
  · have hway : Way g a.node u.node none ⟨a.node, 0⟩ := .direct (hy0 ▸ honly) hnotOut
    exact hy0 ▸ hway
  · obtain rfl := Option.some.inj ((Graph.node?_of_live? hlive).symm.trans hn')
    obtain ⟨hop, houts, v, rest, hin, hv⟩ | ⟨-, hsame⟩ := hcases
    · obtain rfl := hR.functional hv hy
      obtain ⟨axes, axis, haxes, hconst, haxis⟩ := dropsDirection_eq_ok hdrops
      have hself : g.Reads ⟨a.node, 0⟩ v := ⟨n, hlive, by simp [hin]⟩
      have ha0 : a = ⟨a.node, 0⟩ := by
        have hzero : a.index = 0 := by omega
        rw [← hzero]
      rw [hin, List.getElem?_cons_succ] at haxes
      obtain ⟨others, rfl⟩ : ∃ others, rest = axes :: others := by
        cases rest with
        | nil => simp at haxes
        | cons b others => exact ⟨others, by rw [Option.some.inj haxes]⟩
      rw [hk.numbered.live hlive]
      have hway : Way g v.node u.node (some a.node) ⟨a.node, 0⟩ := by
        refine .squeezed hlive (List.mem_singleton.1 hop) houts (hy0 ▸ hin) hconst haxis
          (hy0 ▸ Condition.reader_of_useCount hk hycount hself) hnotOut (ha0 ▸ honly) ?_
        rw [← ha0]
        simpa [Graph.isOutputValue] using hout'
      exact ha0 ▸ hway
    · exact absurd (hR.functional hsame hy) hne

end Pattern

/-- A plan that is found for a match at a value says what its nodes are for. -/
theorem involved_of_find? {p : Pattern β} (hp : IsReversal p) (hk : g.WellKept) {v : Value}
    {m : Match} (hm : p.matchValue g v = some m) (h : find? g ⟨2, 1, 9, 10⟩ m = .ok (some plan)) :
    plan.second = v.node ∧
      ∃ first lstm second data x l a, Involved g plan first lstm second data x l a := by
  obtain ⟨hroot, hagrees⟩ := Pattern.agrees_of_matchValue hp.wellFormed hm
  have hR := Pattern.isEmbedding_of_matchValue hp.wellFormed hm
  have hstep := Pattern.stepsClosed_reaches p g p.root v
  have hget := hagrees.get?
  rw [hp.root] at hR hstep hget
  have hv : p.Reaches g 11 v 11 v := .refl
  obtain ⟨second, f, first, y, lstm, lengths, a, squeeze, hsecond, hf, hfirst, hy, hlstm, hlengths,
    ha, hindex, hforward, hout, hsqueeze, hcomplete⟩ := find?_eq_ok h
  rw [hroot] at hsecond
  rw [hget] at hf hy hlengths ha
  obtain ⟨hS, -⟩ := hR.isOperation hstep hk.numbered hp.second rfl hv hsecond
  obtain ⟨hL, -⟩ := hR.isOperation hstep hk.numbered hp.lstm rfl hy hlstm
  obtain ⟨hF, -⟩ := hR.isOperation hstep hk.numbered hp.first rfl hf hfirst
  -- What the nodes read is what the pattern says.
  obtain ⟨a', l', hSin⟩ := List.length_eq_two.1 (hS.length (List.cons_ne_nil _ _))
  have ha' : p.Reaches g 11 v 10 a' := hS.input (k := 0) rfl (by rw [hSin]; rfl)
  have hl' : p.Reaches g 11 v 1 l' := hS.input (k := 1) rfl (by rw [hSin]; rfl)
  obtain rfl := hR.functional ha ha'
  obtain rfl := hR.functional hlengths hl'
  obtain ⟨data, l', hFin⟩ := List.length_eq_two.1 (hF.length (List.cons_ne_nil _ _))
  have hdata : p.Reaches g 11 v 0 data := hF.input (k := 0) rfl (by rw [hFin]; rfl)
  have hl' : p.Reaches g 11 v 1 l' := hF.input (k := 1) rfl (by rw [hFin]; rfl)
  obtain rfl := hR.functional hlengths hl'
  obtain ⟨x, h1, c, l, w, r, b, hLin⟩ : ∃ x h c l w r b, lstm.inputs = [x, h, c, l, w, r, b] := by
    have hlen := hL.length (List.cons_ne_nil _ _)
    match hin : lstm.inputs, hlen with
    | [x, h, c, l, w, r, b], _ => exact ⟨x, h, c, l, w, r, b, rfl⟩
  have hx : p.Reaches g 11 v 2 x := hL.input (k := 0) rfl (by rw [hLin]; rfl)
  obtain rfl := hR.functional hf hx
  obtain ⟨e, he, _, hsource, haccepts, -⟩ := hR.fits hdata
  obtain rfl := Option.some.inj (hp.data.symm.trans he)
  obtain ⟨hfirstAxes, ⟨a', layout, ha', hlayout, hsecondAxes⟩, ⟨l', hl', hsame⟩, rfl⟩ :=
    complete?_eq_some hcomplete
  rw [hSin] at ha'
  rw [hLin] at hl'
  obtain rfl := Option.some.inj ha'
  obtain rfl := Option.some.inj hl'
  have hread : g.Reads ⟨v.node, 0⟩ a := ⟨second, hS.live, by rw [hSin]; rfl⟩
  have hway := way_of_squeeze? hp hk hR hstep hy hindex hout ha hsqueeze hread
  refine ⟨hS.id, first, lstm, second, data, f, l, a, ?_⟩
  constructor
  case first_node => exact hF.id ▸ hF.live
  case first_op => exact List.mem_singleton.1 hF.op
  case first_inputs => exact hFin
  case first_axes => exact hfirstAxes
  case rank_data => simpa [Condition.rank, Option.any_eq_true] using haccepts
  case lstm_node => exact hL.id ▸ hL.live
  case lstm_op => exact List.mem_singleton.1 hL.op
  case lstm_inputs => exact ⟨h1, c, w, r, b, hLin⟩
  case x => exact ⟨hF.id.symm, hF.lt⟩
  case forward => exact hforward
  case lengths => exact hsame
  case second_node => exact hS.id ▸ hS.live
  case second_op => exact List.mem_singleton.1 hS.op
  case second_inputs => exact hSin
  case second_axes => exact ⟨layout, hlayout, hsecondAxes⟩
  case way =>
    dsimp only
    rw [hL.id, hS.id]
    exact hway

end ReversalPlan

end Dataflow
