import Dataflow.Proofs.Reads.Bidirectional
import Dataflow.Proofs.Reads.Loop
import Dataflow.Proofs.Reads.Reversal
import Dataflow.Proofs.Reads.Skip
import Dataflow.Proofs.Recurrent.Cycles

/-!
# Which passes read past the end of a list

The rewrites of recurrent nodes and the pass that marks nodes are compared with their versions with
direct reads, on any graph whose slots hold the nodes of their numbers.  Both come to the same.  None
of them reads past the end of a list, except for the rewrite that takes in reversals, at a node where
it meets a squeeze without a list of axes.

## Main definitions

* `Rewrite` : the rewrites of recurrent nodes.
* `Rewrite.rule`, `Rewrite.direct` : their rules, without and with direct reads.

## Main statements

* `Rewrite.apply_attemptDirect` : both rules come to the same.
* `inRange_passes` : when a pass reads past the end of a list.
-/

namespace Dataflow

/-- The rewrites of recurrent nodes. -/
inductive Rewrite
  | loop
  | iterator (kind : Cell)
  | reversal
  | bidirectional

namespace Rewrite

def rule : Rewrite → Rule Body
  | loop => loopRule
  | iterator kind => iteratorRule kind
  | reversal => reversalRule
  | bidirectional => bidirectionalRule

/-- The rule with direct reads. -/
def direct : Rewrite → Rule Body
  | loop => loopRuleDirect
  | iterator kind => iteratorRuleDirect kind
  | reversal => reversalRuleDirect
  | bidirectional => bidirectionalRuleDirect

theorem rule_mem_rewrites (r : Rewrite) : r.rule ∈ rewrites := by
  cases r with
  | iterator kind => cases kind <;> simp [rule, rewrites, LoopPlan.conversions]
  | _ => simp [rule, rewrites, LoopPlan.conversions]

/-- Both rules look for the same matches. -/
theorem pattern_direct (r : Rewrite) : r.direct.pattern = r.rule.pattern := by
  cases r <;> rfl

variable {g : Graph Body} {id : Nat} {m : Match}

/-- At a match the action with direct reads does the same. -/
theorem apply_directAction (hg : g.Numbered) (r : Rewrite) (hm : r.rule.MatchesAt g id m) :
    (r.direct.action m).apply g = (r.rule.action m).apply g := by
  cases r with
  | loop => exact (apply_loopRuleDirect m g).1
  | iterator kind => exact (apply_iteratorRuleDirect kind m g).1
  | reversal => exact apply_reversalRuleDirect hg hm
  | bidirectional => exact (apply_bidirectionalRuleDirect hg hm).1

theorem apply_attemptDirect (hg : g.Numbered) (r : Rewrite) (id : Nat) :
    (r.direct.attemptDirect id).apply g = (r.rule.attempt id).apply g :=
  Rule.apply_attemptDirect r.pattern_direct (declines_of_mem_rewrites r.rule_mem_rewrites)
    fun _ hm => r.apply_directAction hg hm

end Rewrite

section Passes

variable {g : Graph Body}

/-- **Where the passes read past the end of a list.**  They come to the same with direct reads.  Then
only the rewrite that takes in reversals reads past the end of a list, exactly at a node with a match
that misses a list of axes.  The slots of a graph hold the nodes of their numbers whatever changes it
has come from (`Change.traceable_runAll`). -/
theorem inRange_passes (hg : g.Numbered) :
    (∀ (r : Rewrite) (id : Nat),
      (r.direct.attemptDirect id).apply g = (r.rule.attempt id).apply g ∧
        ((r.direct.attemptDirect id).InRange g ↔
          (r = .reversal →
            ∀ m, reversalRule.MatchesAt g id m → ¬ ReversalPlan.MissesAxes g m))) ∧
      markSkippableDirect.apply g = markSkippable.run.apply g ∧ markSkippableDirect.InRange g := by
  have hskip := apply_markSkippableDirect g
  refine ⟨fun r id => ?_, hskip.1, by rw [Edit.InRange, hskip.1]; exact hskip.2⟩
  have hsame := r.apply_attemptDirect hg id
  refine ⟨hsame, ?_⟩
  rw [Edit.InRange, hsame, ← Edit.InRange]
  have hdeclines := declines_of_mem_rewrites r.rule_mem_rewrites
  cases r with
  | reversal => simpa using! inRange_reversal_iff hg
  | loop =>
    exact iff_of_true (Rule.inRange_attempt hdeclines fun m _ => (apply_loopRuleDirect m g).2)
      (by simp)
  | iterator kind =>
    exact iff_of_true
      (Rule.inRange_attempt hdeclines fun m _ => (apply_iteratorRuleDirect kind m g).2) (by simp)
  | bidirectional =>
    exact iff_of_true
      (Rule.inRange_attempt hdeclines fun m hm => (apply_bidirectionalRuleDirect hg hm).2) (by simp)

open ReversalPlan (betweenReversals betweenReversalsSpecs betweenReversals_sound)

/-- A squeeze with a list of axes between two reversals. -/
theorem inRange_passes_betweenReversals :
    (betweenReversals 1 [⟨9, 0⟩]).Numbered ∧
      ((reversalRule.attempt 11).apply (betweenReversals 1 [⟨9, 0⟩])).1 =
        .ok (.applied [11, 10, 8, 7]) ∧
      (reversalRuleDirect.attemptDirect 11).InRange (betweenReversals 1 [⟨9, 0⟩]) ∧
      ∀ m, reversalRule.MatchesAt (betweenReversals 1 [⟨9, 0⟩]) 11 m →
        ¬ ReversalPlan.MissesAxes (betweenReversals 1 [⟨9, 0⟩]) m := by
  have hg := (betweenReversals_sound 1).1.numbered
  have happlied : ((reversalRule.attempt 11).apply (betweenReversals 1 [⟨9, 0⟩])).1 =
      .ok (.applied [11, 10, 8, 7]) := by
    decide +kernel
  obtain ⟨hsame, hiff⟩ := (inRange_passes hg).1 .reversal 11
  have hrange : (reversalRuleDirect.attemptDirect 11).InRange (betweenReversals 1 [⟨9, 0⟩]) := by
    refine (congrArg (fun p => p.1 ≠ .error .outOfRange) hsame).mpr ?_
    simp [Rewrite.rule, happlied]
  exact ⟨hg, happlied, hrange, hiff.1 hrange rfl⟩

/-- A squeeze without one. -/
theorem exists_read_outOfRange :
    ¬ ∀ (g : Graph Body) (r : Rewrite) (id : Nat), g.WellKept → g.Acyclic → g.NoDangling →
      (r.direct.attemptDirect id).InRange g := by
  intro hall
  obtain ⟨hk, ha, hd⟩ := Graph.ofSpecs_sound (betweenReversalsSpecs 1 []) [⟨11, 0⟩] (by rfl) (by rfl)
  have hrange := hall (betweenReversals 1 []) .reversal 11 hk ha hd
  refine hrange ?_
  decide +kernel

end Passes

end Dataflow
