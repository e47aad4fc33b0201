import Dataflow.Proofs.Graph.Insertion
import Dataflow.Proofs.Recurrent.Replacements

/-!
# Rewrites make no cycles

Every rewrite puts its new nodes between nodes of the graph.  What it reads lies before the nodes
that it replaces: the operands of a loop, of a sequence node, or of either of two directions.  What
comes to read the new nodes are readers of the nodes that it replaces.  None of these nodes lies
before itself, and neither direction lies before the other one, so that no cycle comes about, whether
the rewrite succeeds or fails on the way.

## Main definitions

* `rewrites` : all rules that rewrite recurrent nodes.

## Main statements

* `acyclic_attempt` : trying a rewrite at a node leaves a graph without cycles.
-/

namespace Dataflow

/-! ### Single replacements -/

/-- The replacement of a loop makes no cycle. -/
theorem LoopPlan.Fits.acyclic_build {g : Graph Body} {plan : LoopPlan} {loop : Node Body}
    {body : Body} {step : CellStep} {walk : Walk} (hf : plan.Fits g loop body step walk)
    (hloop : g.live? plan.loop = some loop) (hk : g.WellKept) (ha : g.Acyclic)
    (hd : g.NoDangling) : (plan.build.apply g).2.Acyclic := by
  have hbefore : ∀ v ∈ loop.inputs, Relation.TransGen g.Feeds v.node plan.loop :=
    fun v hv => .single (.of_mem hloop hv)
  have hclosed : ∀ ⦃a b⦄, g.Feeds a b → Relation.TransGen g.Feeds b plan.loop →
      Relation.TransGen g.Feeds a plan.loop := fun _ _ hab hb => .head hab hb
  have hkeeps := keeps_build (Graph.replaceable_inserted hclosed)
    ⟨Graph.lt_length_of_live? hloop, ha plan.loop⟩ (fun _ => hbefore _ hf.x_mem)
    fun v hv _ => hbefore v (hf.states_mem v hv)
  exact (hkeeps g (.refl hk hd _)).1.acyclic ha hclosed

variable {β : Type} {g : Graph β}

/-- The replacement of two reversals and the sequence node between them makes no cycle. -/
theorem ReversalPlan.Involved.acyclic_fuse {plan : ReversalPlan} {first lstm second : Node β}
    {data x l a : Value} (hi : Involved g plan first lstm second data x l a) (hk : g.WellKept)
    (ha : g.Acyclic) (hd : g.NoDangling) : (plan.fuse.apply g).2.Acyclic := by
  have hclosed : ∀ ⦃a b⦄, g.Feeds a b → Relation.TransGen g.Feeds b plan.lstm →
      Relation.TransGen g.Feeds a plan.lstm := fun _ _ hab hb => .head hab hb
  have hinserted := hi.keeps_fuse (Graph.replaceable_inserted hclosed)
    (fun v hv _ => hi.transGen_of_mem hv)
    (fun id hid => ⟨hi.lt_length hid, fun h => hi.notMem_of_transGen ha h hid⟩) (.refl hk hd _)
  exact hinserted.acyclic ha hclosed

/-- The replacement of two directions makes no cycle. -/
theorem BidirectionalPlan.Involved.acyclic_fuse {plan : BidirectionalPlan} (hi : Involved g plan)
    (hk : g.WellKept) (ha : g.Acyclic) (hd : g.NoDangling) : (plan.fuse.apply g).2.Acyclic := by
  obtain ⟨fn, hfn, -⟩ := hi.forward
  obtain ⟨bn, hbn, -⟩ := hi.backward
  -- The lower nodes are those before one of the directions.
  have hclosed : ∀ ⦃a b⦄, g.Feeds a b →
      Relation.TransGen g.Feeds b plan.forward ∨ Relation.TransGen g.Feeds b plan.backward →
        Relation.TransGen g.Feeds a plan.forward ∨ Relation.TransGen g.Feeds a plan.backward :=
    fun _ _ hab hb => hb.imp (.head hab) (.head hab)
  have hinputs : ∀ v ∈ fn.inputs ++ bn.inputs, Relation.TransGen g.Feeds v.node plan.forward ∨
      Relation.TransGen g.Feeds v.node plan.backward := fun v hv =>
    (List.mem_append.1 hv).imp (fun hv => .single (.of_mem hfn hv)) fun hv => .single (.of_mem hbn hv)
  have hupper : ∀ id ∈ plan.replaced, id < g.slots.length ∧
      ¬ (Relation.TransGen g.Feeds id plan.forward ∨ Relation.TransGen g.Feeds id plan.backward) :=
    fun id hid => ⟨hi.lt_length hid, not_or.2
      ⟨hi.not_transGen_direction hk hd ha hid (.inl rfl),
        hi.not_transGen_direction hk hd ha hid (.inr rfl)⟩⟩
  have hinserted := keeps_fuse (Graph.replaceable_inserted hclosed) hupper
    (Graph.node?_of_live? hfn) (Graph.node?_of_live? hbn) (fun v hv _ => hinputs v hv)
    (.refl hk hd _)
  exact hinserted.acyclic ha hclosed

/-! ### All rewrites -/

/-- The rules that rewrite recurrent nodes: the conversions of loops, the one that takes reversals
into a sequence node, and the one that puts two directions into one node. -/
def rewrites : List (Rule Body) :=
  LoopPlan.conversions ++ [reversalRule, bidirectionalRule]

section Rewrites

variable {g : Graph Body} {rule : Rule Body} {id : Nat} {m : Match}

theorem declines_of_mem_rewrites (hrule : rule ∈ rewrites) : rule.Declines := by
  obtain hrule | hrule := List.mem_append.1 hrule
  · exact LoopPlan.declines_conversion hrule
  · simp only [List.mem_cons, List.not_mem_nil, or_false] at hrule
    obtain rfl | rfl := hrule
    · exact ReversalPlan.declines_reversalRule
    · exact BidirectionalPlan.declines_bidirectionalRule

theorem acyclic_conversion (hrule : rule ∈ LoopPlan.conversions) (hk : g.WellKept) (ha : g.Acyclic)
    (hd : g.NoDangling) (hm : rule.MatchesAt g id m) : ((rule.action m).apply g).2.Acyclic := by
  obtain ⟨n, i, hn, -, hm⟩ := hm
  have hbuild : ∀ {kind plan}, m.root = ⟨id, i⟩ → LoopPlan.find? g m.root.node kind = some plan →
      (plan.build.apply g).2.Acyclic := by
    intro kind plan hroot hplan
    rw [hroot] at hplan
    obtain ⟨rfl, body, step, walk, hf⟩ := LoopPlan.exists_fits_of_find? hn hplan
    exact hf.acyclic_build hn hk ha hd
  obtain rfl | hrule := List.mem_cons.1 hrule
  · obtain ⟨-, hroot⟩ := LoopPlan.op_of_matchValue_loopPattern hm hn
    rw [LoopPlan.apply_loopAction]
    split
    · next plan hplan =>
      split
      · exact hbuild hroot hplan
      · exact ha
    · exact ha
  · obtain ⟨kind, -, rfl⟩ := List.mem_map.1 hrule
    obtain ⟨-, hroot⟩ := LoopPlan.op_of_matchValue_loopPattern hm hn
    rw [LoopPlan.apply_iteratorAction]
    split
    · next plan hplan => exact hbuild hroot hplan
    · exact ha

/-- **Rewrites make no cycles**, whether they apply, decline or fail. -/
theorem acyclic_attempt (hrule : rule ∈ rewrites) (hk : g.WellKept) (ha : g.Acyclic)
    (hd : g.NoDangling) (id : Nat) : ((rule.attempt id).apply g).2.Acyclic := by
  obtain ⟨⟨_, hattempt, -⟩, -⟩ | ⟨m, hm, -, hattempt⟩ :=
    Rule.attempt_cases (declines_of_mem_rewrites hrule) g id
  · rwa [hattempt]
  · rw [hattempt]
    obtain hrule | hrule := List.mem_append.1 hrule
    · exact acyclic_conversion hrule hk ha hd hm
    obtain ⟨n, i, -, -, hm⟩ := hm
    simp only [List.mem_cons, List.not_mem_nil, or_false] at hrule
    obtain rfl | rfl := hrule
    · rw [ReversalPlan.apply_reversalAction]
      split
      · next plan hplan =>
        obtain ⟨-, _, _, _, _, _, _, _, hi⟩ :=
          ReversalPlan.involved_of_find? isReversal_reversalPattern hk hm hplan
        exact hi.acyclic_fuse hk ha hd
      · exact ha
      · exact ha
    · rw [BidirectionalPlan.apply_action]
      split
      · next plan hplan =>
        obtain ⟨_, _, _, _, _, _, _, _, _, hr⟩ := BidirectionalPlan.exists_reading
          isBidirectional_bidirectionalPattern hk.numbered hm hplan
        exact (hr.involved hk).acyclic_fuse hk ha hd
      · exact ha

/-- The iterator over two positions is replaced, and the graph still has no cycle. -/
theorem acyclic_attempt_recurrentLoop :
    ((LoopPlan.recurrentLoop LoopPlan.bothOutputs).WellKept ∧
      (LoopPlan.recurrentLoop LoopPlan.bothOutputs).Acyclic ∧
        (LoopPlan.recurrentLoop LoopPlan.bothOutputs).NoDangling) ∧ iteratorRule .rnn ∈ rewrites ∧
      (((iteratorRule .rnn).attempt 2).apply (LoopPlan.recurrentLoop LoopPlan.bothOutputs)).1 =
        .ok (.applied [2]) ∧
      (((iteratorRule .rnn).attempt 2).apply
        (LoopPlan.recurrentLoop LoopPlan.bothOutputs)).2.Acyclic := by
  obtain ⟨hk, ha, hd⟩ := LoopPlan.recurrentLoop_sound LoopPlan.bothOutputs
  have hrule : iteratorRule .rnn ∈ rewrites := by
    simp [rewrites, LoopPlan.conversions]
  exact ⟨⟨hk, ha, hd⟩, hrule, by decide +kernel, acyclic_attempt hrule hk ha hd 2⟩

end Rewrites

end Dataflow
