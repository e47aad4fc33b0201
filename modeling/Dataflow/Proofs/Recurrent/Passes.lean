import Dataflow.Proofs.Pass.Steps
import Dataflow.Proofs.Recurrent.Cycles

/-!
# The passes that rewrite recurrent nodes

Each of these passes runs one rewrite, or one for every kind of cell, and is after the nodes of one
operation.  What their actions do is done by the steps of a replacement, whatever graph they are given
and whether or not they succeed.

## Main definitions

* `RewritePass` : the passes, with their rules and the operations that they are after.

## Main statements

* `keeps_rewrite` : a rewrite keeps what survives all steps of a replacement.
* `RewritePass.exists_rewrite`, `RewritePass.declines`, `RewritePass.takesOnly` : the rules of the
  passes.
-/

namespace Dataflow

open Edit (Keeps Replaceable)

section Rewrites

variable {Q : Graph Body → Prop} {g : Graph Body} {rule : Rule Body} {m : Match}

/-- A replacement whose nodes are not there leaves the graph as it is. -/
theorem ReversalPlan.keeps_fuse_or {plan : ReversalPlan}
    (hQ : Replaceable Q (fun _ => True) (fun _ => True) fun _ => True) (hg : Q g) :
    Q (plan.fuse.apply g).2 := by
  cases hlstm : g.node? plan.lstm with
  | none =>
    rw [fuse, Edit.apply_bind_of_ok (Edit.apply_get g)]
    simpa [hlstm] using hg
  | some lstm =>
    cases hdata : (g.node? plan.first).bind (·.inputs[0]?) with
    | none =>
      rw [fuse, Edit.apply_bind_of_ok (Edit.apply_get g)]
      simpa [hlstm, hdata] using hg
    | some data =>
      exact keeps_fuse hlstm hdata hQ (fun _ _ => trivial) (fun _ _ => trivial) hg

theorem BidirectionalPlan.keeps_fuse_or {plan : BidirectionalPlan}
    (hQ : Replaceable Q (fun _ => True) (fun _ => True) fun _ => True) (hg : Q g) :
    Q (plan.fuse.apply g).2 := by
  cases hforward : g.node? plan.forward with
  | none =>
    rw [fuse, Edit.apply_bind_of_ok (Edit.apply_get g)]
    simpa [hforward] using hg
  | some forward =>
    cases hbackward : g.node? plan.backward with
    | none =>
      rw [fuse, Edit.apply_bind_of_ok (Edit.apply_get g)]
      simpa [hforward, hbackward] using hg
    | some backward =>
      exact keeps_fuse hQ (fun _ _ => trivial) hforward hbackward (fun _ _ => trivial) hg

/-- The action of a rewrite keeps what survives all steps of a replacement, whatever match it is
given. -/
theorem keeps_rewrite (hrule : rule ∈ rewrites)
    (hQ : Replaceable Q (fun _ => True) (fun _ => True) fun _ => True) (hg : Q g) :
    Q ((rule.action m).apply g).2 := by
  have hbuild (plan : LoopPlan) : Q (plan.build.apply g).2 :=
    (LoopPlan.keeps_build hQ trivial trivial (fun _ _ => trivial) g hg).1
  obtain hrule | hrule := List.mem_append.1 hrule
  · obtain rfl | hrule := List.mem_cons.1 hrule
    · rw [LoopPlan.apply_loopAction]
      split
      · split
        · exact hbuild _
        · exact hg
      · exact hg
    · obtain ⟨kind, -, rfl⟩ := List.mem_map.1 hrule
      rw [LoopPlan.apply_iteratorAction]
      split
      · exact hbuild _
      · exact hg
  · simp only [List.mem_cons, List.not_mem_nil, or_false] at hrule
    obtain rfl | rfl := hrule
    · rw [ReversalPlan.apply_reversalAction]
      split
      · exact ReversalPlan.keeps_fuse_or hQ hg
      · exact hg
      · exact hg
    · rw [BidirectionalPlan.apply_action]
      split
      · exact BidirectionalPlan.keeps_fuse_or hQ hg
      · exact hg

/-- A rewrite changes a graph by steps, none of which compacts it. -/
theorem takesOnly_rewrite {P : Step Body → Prop} (hP : ∀ s : Step Body, ¬ s.Compacts → P s)
    (hrule : rule ∈ rewrites) : rule.TakesOnly P :=
  fun _ g => keeps_rewrite hrule (Graph.replaceable_leadsTo hP g) .refl

/-- A rewrite keeps a graph well kept. -/
theorem wellKept_rewrite (hrule : rule ∈ rewrites) (hg : g.WellKept) :
    ((rule.action m).apply g).2.WellKept :=
  keeps_rewrite hrule
    { push := fun h _ _ => h.push _
      new := fun _ _ => trivial
      weaken := fun _ => trivial
      redirected := fun h _ _ => h.redirect _ _
      eliminated := fun _ id h => h.markEliminated id } hg

end Rewrites

/-! ### Passes -/

/-- The passes that rewrite recurrent nodes under a configuration, each with the rules that it runs and
the operation of the nodes that it is after. -/
inductive RewritePass (config : RunConfig) : Pass Body → List (Rule Body) → Op → Prop
  | convertIterator (kind : Cell) : RewritePass config (convertIterator kind config)
      [{ iteratorRule kind with config }] .tensorIterator
  | convertIterators : RewritePass config (convertIterators config)
      ([.lstm, .rnn, .gru].map iteratorRule) .tensorIterator
  | convertLoop : RewritePass config (convertLoop config) [{ loopRule with config }] .loop
  | fuseReversal : RewritePass config (fuseReversal config) [{ reversalRule with config }]
      .reverseSequence
  | fuseBidirectional : RewritePass config (fuseBidirectional config)
      [{ bidirectionalRule with config }] .lstmSequence

namespace RewritePass

variable {config : RunConfig} {pass : Pass Body} {rules : List (Rule Body)} {op : Op}

theorem run_eq (h : RewritePass config pass rules op) : pass.run = runRules config rules := by
  cases h <;> rfl

theorem iteratorRule_mem_rewrites (kind : Cell) : iteratorRule kind ∈ rewrites := by
  cases kind <;> simp [rewrites, LoopPlan.conversions]

/-- The rules of the passes are rewrites with a configuration of their own. -/
theorem exists_rewrite (h : RewritePass config pass rules op) {rule : Rule Body}
    (hrule : rule ∈ rules) : ∃ rewrite ∈ rewrites, ∃ config, rule = { rewrite with config } := by
  cases h with
  | convertIterators =>
    obtain ⟨kind, -, rfl⟩ := List.mem_map.1 hrule
    exact ⟨_, iteratorRule_mem_rewrites kind, _, rfl⟩
  | convertIterator kind =>
    exact ⟨_, iteratorRule_mem_rewrites kind, config, List.mem_singleton.1 hrule⟩
  | convertLoop =>
    exact ⟨loopRule, by simp [rewrites, LoopPlan.conversions], config, List.mem_singleton.1 hrule⟩
  | fuseReversal =>
    exact ⟨reversalRule, by simp [rewrites], config, List.mem_singleton.1 hrule⟩
  | fuseBidirectional =>
    exact ⟨bidirectionalRule, by simp [rewrites], config, List.mem_singleton.1 hrule⟩

theorem declines (h : RewritePass config pass rules op) : ∀ rule ∈ rules, rule.Declines := by
  intro rule hrule
  obtain ⟨rewrite, hmem, _, rfl⟩ := h.exists_rewrite hrule
  exact fun m => declines_of_mem_rewrites hmem m

theorem takesOnly (h : RewritePass config pass rules op) :
    ∀ rule ∈ rules, rule.TakesOnly fun s => ¬ s.Compacts := by
  intro rule hrule
  obtain ⟨rewrite, hmem, _, rfl⟩ := h.exists_rewrite hrule
  exact fun m => takesOnly_rewrite (fun _ h => h) hmem m

end RewritePass

end Dataflow
