import Dataflow.Proofs.Graph.Specs
import Dataflow.Proofs.Recurrent.Directions
import Dataflow.Proofs.Recurrent.ReversalFusion
import Dataflow.Proofs.Runtime.Builders
import Dataflow.Proofs.Runtime.Reversal
import Dataflow.Proofs.Runtime.Simulation

/-!
# The meaning of reversals taken into a sequence node

The backward sequence node has the last states of the forward node over the reversed sequence, and
its result is the reversed result of that node.  With the axis for the directions or without it, this
is what the second reversal has computed, so the graph computes what it has computed.

## Main statements

* `ReversalPlan.exists_reverse?_of_computes` : what a reversal computes.
* `ReversalPlan.Involved.computes_spec` : what the new node computes.
* `ReversalPlan.computes_reversalRule` : the replacement keeps the meaning.
-/

namespace Dataflow

namespace ReversalPlan

variable {g g' h k : Graph Body} {I : Interpretation} {F : StepFunction} {ρ : Environment}
  {plan : ReversalPlan} {first lstm second : Node Body} {data x l a v w y : Value}
  {σ : Value → Value} {old : Nat → Prop} {t u : Grid} {ls : List Nat} {i : Nat}

/-! ### The reversals -/

theorem axis?_of_reversalAxes? {n : Node Body} {rank batch time : Nat}
    (h : reversalAxes? n rank = some (batch, time)) :
    n.attributes.axis? "batch_axis" 0 rank = some batch ∧
      n.attributes.axis? "seq_axis" 1 rank = some time := by
  have haxis : ∀ name default, n.attributes.axis? name default rank =
      (normalizeAxis ((n.int? name).getD default) rank).toOption := by
    intro name default
    unfold Attributes.axis? Node.int? Node.attribute?
    split <;> simp_all
  obtain ⟨b, hb, h⟩ := Option.bind_eq_some_iff.1 h
  obtain ⟨t, ht, h⟩ := Option.bind_eq_some_iff.1 h
  obtain ⟨rfl, rfl⟩ := Prod.mk.inj (Option.some.inj h)
  rw [haxis, haxis]
  exact ⟨hb, ht⟩

/-- What a reversal computes. -/
theorem exists_reverse?_of_computes (hI : I.Reverses) {n : Node Body} (hn : g.live? v.node = some n)
    (hop : n.op = .reverseSequence) (hin : n.inputs = [w, l]) {layout : Layout}
    (hlayout : g.layout? w = some layout) {batch time : Nat}
    (haxes : reversalAxes? n layout.shape.rank = some (batch, time)) (ht : g.Computes I ρ v t) :
    ∃ s u ls, g.Computes I ρ w s ∧ g.Computes I ρ l u ∧
      u.ints?.bind Grid.naturals? = some ls ∧ s.reverse? ls batch time = some t := by
  obtain ⟨_, operands, results, -, -, hoperands, hresults, ht⟩ :=
    (Graph.computes_iff_of_ordinary hn (by rw [hop]; rfl)).1 ht
  rw [hin] at hoperands
  simp only [List.forall₂_cons_left_iff, List.forall₂_nil_left_iff] at hoperands
  obtain ⟨s, _, hs, ⟨u, _, hu, rfl, rfl⟩, rfl⟩ := hoperands
  have hrank := Layout.length_of_admits (hs.admits hlayout)
  obtain ⟨hbatch, htime⟩ := axis?_of_reversalAxes? (hrank ▸ haxes)
  rw [hop, hI, hbatch, htime] at hresults
  simp only [Option.bind_eq_bind, Option.bind_some, Option.bind_eq_some_iff, Option.pure_def,
    Option.some.injEq] at hresults
  obtain ⟨words, hwords, ls, hls, r, hr, rfl⟩ := hresults
  obtain rfl : t = r := List.mem_singleton.1 (List.mem_of_getElem? ht)
  exact ⟨s, u, ls, hs, hu, Option.bind_eq_some_iff.2 ⟨words, hwords, hls⟩, hr⟩

/-- The tensor with the axis for the directions, if a node has dropped it. -/
def widened (squeeze : Option Nat) (t : Grid) : Grid :=
  if squeeze.isSome then t.insertAxis 1 else t

/-- The first output of the sequence node is what the second reversal reads, with the axis for the
directions. -/
theorem Way.exists_widened {lstm second : Nat} {squeeze : Option Nat}
    (hw : Way g lstm second squeeze a) (hI : I.Squeezes) (ht : g.Computes I ρ a t) :
    ∃ y, g.Computes I ρ ⟨lstm, 0⟩ y ∧ (y.shape.length = 4 → y = widened squeeze t) := by
  cases hw with
  | direct _ _ => exact ⟨t, ht, fun _ => rfl⟩
  | squeezed hn hop _ hin haxes haxis _ _ _ _ =>
    obtain ⟨y, hy, hdrop⟩ := ht.exists_squeezed hI hn hop hin haxes haxis
    exact ⟨y, hy, fun hrank => (Grid.eq_insertAxis_of_dropAxis? (hdrop hrank)).2⟩

/-- The axis for the directions does not matter to a reversal. -/
theorem reverse?_widened {squeeze : Option Nat} (hrank : (widened squeeze t).shape.length = 4)
    (h : t.reverse? ls 0 (if squeeze.isSome then 1 else 2) = some u) :
    (widened squeeze t).reverse? ls 0 2 = some (widened squeeze u) := by
  unfold widened at hrank ⊢
  split at hrank
  · next hsome =>
    rw [if_pos hsome] at h ⊢
    rw [if_pos hsome]
    have hlen : t.shape.length = 3 := by
      rw [Grid.shape_insertAxis, List.length_insertIdx] at hrank
      split at hrank <;> omega
    obtain ⟨n, m, width, hshape⟩ := List.length_eq_three.1 hlen
    exact Grid.reverse?_insertAxis hshape h
  · next hnone =>
    rw [if_neg hnone] at h ⊢
    rwa [if_neg hnone]

/-- What is read in the place of the second reversal. -/
theorem computes_result {new : Nat} (hI : I.Squeezes)
    (hresult : (plan.result lstm new).apply g = (.ok y, k)) (hk : g.Listed)
    (hs : k.Substituted old σ h) (hid : ∀ i, old i → i < g.slots.length) (hnew : ¬ old new)
    (ht : h.Computes I ρ ⟨new, 0⟩ (widened plan.squeeze t))
    (hrank : (widened plan.squeeze t).shape.length = 4) : h.Computes I ρ y t := by
  unfold result at hresult
  unfold widened at ht hrank
  split at hresult
  · next hsome =>
    rw [if_pos hsome] at ht hrank
    have hlen : t.shape.length = 3 := by
      rw [Grid.shape_insertAxis, List.length_insertIdx] at hrank
      split at hrank <;> omega
    exact Edit.computes_squeeze hk hs hid hnew hI hresult ht (by omega) (by rw [hlen]; decide)
  · next hnone =>
    rw [if_neg hnone] at ht
    simp only [Edit.apply_pure, Prod.mk.injEq, Except.ok.injEq] at hresult
    obtain ⟨rfl, rfl⟩ := hresult
    exact ht

/-! ### The new node -/

/-- Values that hold the same lengths have the same whole numbers. -/
theorem ints?_eq_of_sameLengths (hsame : sameLengths g v w = true) (ht : g.Computes I ρ v t)
    (hu : g.Computes I ρ w u) : t.ints? = u.ints? := by
  unfold sameLengths at hsame
  rw [Bool.or_eq_true] at hsame
  obtain heq | hconst := hsame
  · obtain rfl := beq_iff_eq.1 heq
    rw [ht.unique hu]
  · split at hconst
    · next m n hm hn =>
      obtain rfl := beq_iff_eq.1 hconst
      rw [ht.ints?_eq hm, hu.ints?_eq hn]
    · simp at hconst

/-- The new node has the last states of the old one, and its result is the reversed result. -/
theorem Involved.computes_spec (hi : Involved g plan first lstm second data x l a)
    (hreverse : I.Reverses) (hrun : I.RunsSequence F .lstm) (hF : F.Ignores ["direction"])
    (hs : (g.push (plan.spec lstm data)).Substituted old σ h)
    (hid : ∀ i, old i → i < g.slots.length)
    (hfree : ∀ v ∈ (plan.spec lstm data).inputs, ¬ old v.node)
    (hbefore : ∀ v ∈ (plan.spec lstm data).inputs, ∀ s, g.Computes I ρ v s → h.Computes I ρ v s)
    (ht : g.Computes I ρ ⟨plan.lstm, i⟩ t) :
    (i ≠ 0 → h.Computes I ρ ⟨g.slots.length, i⟩ t) ∧
      (i = 0 → t.shape.length = 4 ∧ ∀ u ls s, g.Computes I ρ plan.lengths u →
        u.ints?.bind Grid.naturals? = some ls → t.reverse? ls 0 2 = some s →
          h.Computes I ρ ⟨g.slots.length, 0⟩ s) := by
  obtain ⟨h', c, w, r, b, hin⟩ := hi.lstm_inputs
  obtain ⟨tx, th, tc, tl, tw, tr, tb, outs, hoperands, hseq, hout⟩ :=
    ht.exists_sequence? hrun hi.lstm_node hi.lstm_op hin
  simp only [List.forall₂_cons, List.forall₂_nil_left_iff, and_true] at hoperands
  obtain ⟨hx, hh, hc, hl, hw, hr, hb⟩ := hoperands
  obtain ⟨layout, hlayout, hrank⟩ := hi.rank_data
  obtain ⟨td, u, ls, hd, hu, hls, hreversed⟩ := exists_reverse?_of_computes hreverse
    (hi.x.1.symm ▸ hi.first_node) hi.first_op hi.first_inputs hlayout (hrank ▸ hi.first_axes) hx
  have hlengths : tl.ints?.bind Grid.naturals? = some ls := by
    rw [ints?_eq_of_sameLengths hi.lengths hl hu, hls]
  obtain ⟨y, y', last, rfl, hseq', hlen, hy⟩ := F.sequence?_reversed
    (isBackward_of_forward hi.forward) (isBackward_withDirection_reverse lstm.attributes)
    (hF.next_withDirection List.mem_cons_self .lstm lstm.attributes "reverse") hreversed hlengths
    hls rfl hseq
  -- The new node computes its results from the same operands, except for the sequence.
  have hinputs : (plan.spec lstm data).inputs = [data, h', c, plan.lengths, w, r, b] := by
    simp [spec, hin]
  rw [hinputs] at hbefore
  have hresults : I .lstmSequence (lstm.attributes.withDirection "reverse")
      [td, th, tc, u, tw, tr, tb] = some (y' :: last) :=
    (hrun _ td [th, tc] u tw tr tb rfl).trans hseq'
  obtain ⟨n, layout, hn, hlay, hadmits, -⟩ := Graph.computes_iff.1 ht
  obtain rfl := Option.some.inj (hi.lstm_node.symm.trans hn)
  have hoperands : List.Forall₂ (h.Computes I ρ) (plan.spec lstm data).inputs
      [td, th, tc, u, tw, tr, tb] := by
    rw [hinputs]
    simp only [List.forall₂_cons, List.forall₂_nil_left_iff, and_true]
    exact ⟨hbefore _ (by simp) _ hd, hbefore _ (by simp) _ hh, hbefore _ (by simp) _ hc,
      hbefore _ (by simp) _ hu, hbefore _ (by simp) _ hw, hbefore _ (by simp) _ hr,
      hbefore _ (by simp) _ hb⟩
  have hnew : ∀ s, (y' :: last)[i]? = some s → layout.admits s = true →
      h.Computes I ρ ⟨g.slots.length, i⟩ s := fun s hs' hadmits =>
    hs.computes_pushed hid rfl hfree hoperands hresults hlay hadmits hs'
  constructor
  · intro hne
    obtain ⟨i, rfl⟩ := Nat.exists_eq_succ_of_ne_zero hne
    exact hnew t hout hadmits
  · rintro rfl
    obtain rfl : y = t := Option.some.inj hout
    refine ⟨hlen, fun u' ls' s hu' hls' hs' => ?_⟩
    obtain rfl := hu.unique hu'
    obtain rfl := Option.some.inj (hls.symm.trans hls')
    obtain rfl := Option.some.inj (hy.symm.trans hs')
    refine hnew y' rfl ?_
    rw [Layout.admits, (Grid.reverse?_eq_some hy).1]
    exact hadmits

/-- What is read in the place of the second reversal computes what that has computed. -/
theorem Involved.computes_second (hi : Involved g plan first lstm second data x l a)
    (hreverse : I.Reverses) (hsqueeze : I.Squeezes) (hrun : I.RunsSequence F .lstm)
    (hF : F.Ignores ["direction"]) (hk : g.Listed)
    (hresult : (plan.result lstm g.slots.length).apply (g.push (plan.spec lstm data)) =
      (.ok y, k))
    (hpushed : (g.push (plan.spec lstm data)).Substituted old σ h)
    (hlater : k.Substituted old σ h) (hid : ∀ i, old i → i < g.slots.length)
    (hfree : ∀ v ∈ (plan.spec lstm data).inputs, ¬ old v.node)
    (hbefore : ∀ v ∈ (plan.spec lstm data).inputs, ∀ s, g.Computes I ρ v s → h.Computes I ρ v s)
    (ht : g.Computes I ρ ⟨plan.second, 0⟩ t) : h.Computes I ρ y t := by
  obtain ⟨layout, hlayout, haxes⟩ := hi.second_axes
  have haxes : reversalAxes? second layout.shape.rank =
      some (0, if plan.squeeze.isSome then 1 else 2) := by
    rw [haxes]
    split <;> rfl
  obtain ⟨s, u, ls, hs, hu, hls, hst⟩ := exists_reverse?_of_computes hreverse hi.second_node
    hi.second_op hi.second_inputs hlayout haxes ht
  obtain ⟨z, hz, hwide⟩ := hi.way.exists_widened hsqueeze hs
  obtain ⟨hrank, hnew⟩ := (hi.computes_spec hreverse hrun hF hpushed hid hfree hbefore hz).2 rfl
  obtain rfl := hwide hrank
  have hreversed := reverse?_widened hrank hst
  refine computes_result hsqueeze hresult (hk.push _) hlater (Graph.lt_of_old hid ?_)
    (Graph.not_old_of_le hid (Nat.le_refl _)) (hnew u ls _ hu hls hreversed) ?_
  · rw [Graph.length_slots_push]
    exact Nat.le_succ _
  · rw [(Grid.reverse?_eq_some hreversed).1, hrank]

/-- **Taking reversals into a sequence node keeps the meaning.**  Every output of the graph has the
tensor that it has had. -/
theorem computes_reversalRule (hk : g.WellKept) (ha : g.Acyclic) (hd : g.NoDangling)
    (hsingle : ∀ id n, g.live? id = some n → n.op = .reverseSequence → n.outputs.length = 1)
    {id : Nat} {nodes : List Nat}
    (h : (reversalRule.attempt id).apply g = (.ok (.applied nodes), g')) (hreverse : I.Reverses)
    (hsqueeze : I.Squeezes) (hrun : I.RunsSequence F .lstm) (hF : F.Ignores ["direction"]) :
    List.Forall₂ (fun v w => ∀ t, g.Computes I ρ v t → g'.Computes I ρ w t)
      g.outputs g'.outputs := by
  obtain ⟨plan, first, lstm, second, data, x, l, a, hi, hfuse⟩ := exists_plan_of_applied hk h
  obtain ⟨hfalse, -⟩ | ⟨lstm', first', data', y, k, -, hlstm, hfirst, hdata, hspec, hresult, rfl⟩ :=
    apply_fuse_ok hfuse
  · simp at hfalse
  obtain rfl := Option.some.inj ((Graph.node?_of_live? hi.lstm_node).symm.trans hlstm)
  obtain rfl := Option.some.inj ((Graph.node?_of_live? hi.first_node).symm.trans hfirst)
  rw [hi.first_inputs] at hdata
  obtain rfl := Option.some.inj hdata
  obtain ⟨hgrow, hlater⟩ := hi.substituted hk ha hd hspec hresult
  have hpushed := hgrow.trans hlater
  have hs :=
    (Graph.Substituted.of_push hk.listed (· ∈ plan.replaced) (plan.spec lstm data)).trans hpushed
  have hid : ∀ i, i ∈ plan.replaced → i < g.slots.length := fun i hmem => hi.lt_length hmem
  have houts := hsingle _ _ hi.second_node hi.second_op
  have hfree : ∀ v ∈ (plan.spec lstm data).inputs, v.node ∉ plan.replaced := fun v hv =>
    hi.notMem_of_transGen ha (hi.transGen_of_mem hv)
  -- The values that are read in the place of others have their tensors.
  have hcomp : ∀ v t, plan.Kept v → g.Computes I ρ v t → (Graph.eliminateAll plan.replaced
      (Graph.redirectAll (plan.pairs lstm g.slots.length y) k)).2.Computes I ρ
        (Value.substAll (plan.pairs lstm g.slots.length y) v) t := by
    intro v t hv ht
    refine hs.computes ha (fun v n _ hold hn x hx => hi.kept_of_mem houts hd hn hold hx)
      (fun v t hv hold hbefore ht => ?_) hv ht
    have hsame : ∀ x ∈ (plan.spec lstm data).inputs, ∀ s, g.Computes I ρ x s →
        (Graph.eliminateAll plan.replaced (Graph.redirectAll
          (plan.pairs lstm g.slots.length y) k)).2.Computes I ρ x s := by
      intro x hx s hxs
      have hkept := hbefore x s (fun hmem => absurd hmem (hfree x hx))
        ((hi.transGen_of_mem hx).trans_left (hi.reaches hold)) hxs
      rwa [hs.fixes x (hfree x hx)] at hkept
    obtain rfl | ⟨hnode, hindex⟩ := hv hold
    · rw [substAll_pairs_second]
      exact hi.computes_second hreverse hsqueeze hrun hF hk.listed hresult hpushed hlater hid hfree
        hsame ht
    · obtain ⟨node, i⟩ := v
      obtain rfl : node = plan.lstm := hnode
      have hlt : i < lstm.outputs.length := by
        obtain ⟨n, hn, hlt⟩ := Graph.hasValue_iff.1 ht.hasValue
        obtain rfl := Option.some.inj (hi.lstm_node.symm.trans hn)
        exact hlt
      rw [substAll_pairs_lstm hindex hlt]
      exact (hi.computes_spec hreverse hrun hF hpushed hid hfree hsame ht).1 hindex
  rw [Graph.outputs_eliminateIfUnused, hs.outputs, List.forall₂_map_right_iff, List.forall₂_same]
  intro v hv t ht
  refine (hcomp v t (hi.kept_of_output houts hd hv) ht).eliminateIfUnused hs.listed ?_ _
  rw [hs.outputs]
  exact List.mem_map_of_mem hv

/-- A sequence that is reversed, run through a forward node and reversed again after its axis for
the directions has been dropped. -/
def turnedSpecs : List (NodeSpec Body) :=
  operandSpecs ++ [
    { op := .reverseSequence
      inputs := [⟨0, 0⟩, ⟨1, 0⟩]
      outputs := [.planar (.ofLengths [1, 3, 1]) .f32] },
    sequenceSpec "forward" ⟨7, 0⟩,
    Graph.constantSpec "axes" (.vector [1]),
    { op := .squeeze
      inputs := [⟨8, 0⟩, ⟨9, 0⟩]
      outputs := [.planar (.ofLengths [1, 3, 1]) .f32] },
    { op := .reverseSequence
      inputs := [⟨10, 0⟩, ⟨1, 0⟩]
      outputs := [.planar (.ofLengths [1, 3, 1]) .f32] }]

/-- The graph of this sequence with the hidden states of all positions and the last one. -/
def turned : Graph Body :=
  .ofSpecs turnedSpecs [⟨11, 0⟩, ⟨8, 1⟩]

/-- The hidden states 25 and 12 of a run over the positions in reverse order, and the last one, before
and after the reversals have been taken into the sequence node. -/
theorem computes_reversalRule_turned :
    ((reversalRule.attempt 11).apply turned).1 = .ok (.applied [11, 10, 8, 7]) ∧
    turned.Computes StepFunction.doubling.reversing operandTensors ⟨11, 0⟩
      ⟨[1, 3, 1], [.word 25, .word 12, .word 0], rfl⟩ ∧
    ∃ v, ((reversalRule.attempt 11).apply turned).2.outputs[0]? = some v ∧
      ((reversalRule.attempt 11).apply turned).2.Computes StepFunction.doubling.reversing
        operandTensors v ⟨[1, 3, 1], [.word 25, .word 12, .word 0], rfl⟩ := by
  obtain ⟨hk, ha, hd⟩ : turned.WellKept ∧ turned.Acyclic ∧ turned.NoDangling :=
    Graph.ofSpecs_sound turnedSpecs _ (by decide +kernel) (by decide +kernel)
  have happlied : ((reversalRule.attempt 11).apply turned).1 = .ok (.applied [11, 10, 8, 7]) := by
    decide +kernel
  have hcomputes : turned.Computes StepFunction.doubling.reversing operandTensors ⟨11, 0⟩
      ⟨[1, 3, 1], [.word 25, .word 12, .word 0], rfl⟩ :=
    ⟨20, by decide +kernel⟩
  have hsingle : ∀ id n, turned.live? id = some n → n.op = .reverseSequence →
      n.outputs.length = 1 := by
    intro id n hn hop
    have hid : id ∈ turned.order :=
      (hk.ordered.mem_iff _).2 (Graph.hasNode_of_node? (Graph.node?_of_live? hn))
    have hall : ∀ id ∈ turned.order, (turned.live? id).all (fun n =>
        decide (n.op = .reverseSequence → n.outputs.length = 1)) = true := by
      decide +kernel
    have hone := hall id hid
    rw [hn, Option.all_some, decide_eq_true_eq] at hone
    exact hone hop
  have hfused : (reversalRule.attempt 11).apply turned =
      (.ok (.applied [11, 10, 8, 7]), ((reversalRule.attempt 11).apply turned).2) :=
    Prod.ext happlied rfl
  have hkept := computes_reversalRule (ρ := operandTensors) hk ha hd hsingle hfused
    (StepFunction.reverses_reversing .doubling) (StepFunction.squeezes_reversing .doubling)
    (StepFunction.runsSequence_reversing .doubling) (StepFunction.ignores_doubling _)
  rw [show turned.outputs = [⟨11, 0⟩, ⟨8, 1⟩] from rfl] at hkept
  obtain ⟨v, rest, hv, -, houts⟩ := List.forall₂_cons_left_iff.1 hkept
  exact ⟨happlied, hcomputes, v, by rw [houts]; rfl, hv _ hcomputes⟩

end ReversalPlan

end Dataflow
