import Dataflow.Proofs.Pass.Idle
import Dataflow.Proofs.Pass.Marking
import Dataflow.Proofs.Recurrent.Passes
import Dataflow.Proofs.Recurrent.Targets

/-!
# Passes that are left out

A chain of passes asks each pass whether it can have an effect on the graph, and leaves it out if it
cannot.  The question is a count of nodes.  Where the answer is no, the rules of the pass match
nothing, or decline what they match: a run of the pass consists of one traversal that does nothing, and
of the compaction after it.  On a graph that has been compacted and has no cycle this does nothing
either, so that the rest of the chain finds the same graph whether or not the pass is left out.

## Main definitions

* `StockPass` : the passes of this library.

## Main statements

* `RewritePass.idleAt` : the rules of a pass that is not applicable decline all their matches.
* `StockPass.skip_invisible` : leaving out a pass that is not applicable makes no difference.
-/

namespace Dataflow

/-! ### Passes that are not applicable -/

section Passes

variable {β : Type} {g : Graph β}

theorem Graph.WellKept.not_live_of_findOps (hk : g.WellKept) {op : Op} (h : g.findOps [op] = [])
    {id : Nat} {n : Node β} (hn : g.live? id = some n) : n.op ≠ op := by
  intro hop
  have hcard : (g.idsWith op).card = 0 := by rw [← hk.length_findOps, h, List.length_nil]
  have hmem : id ∈ g.idsWith op := mem_idsWith.2 ⟨n, hn, hop⟩
  exact absurd (Finset.card_eq_zero.1 hcard ▸ hmem) (Finset.notMem_empty id)

/-- Two reversals start at a reversal. -/
theorem ReversalPlan.op_of_matchValue {m : Match} {v : Value} {n : Node β}
    (hm : (reversalRule (β := β)).pattern.matchValue g v = some m) (hn : g.live? v.node = some n) :
    n.op = .reverseSequence := by
  have hp : IsReversal (reversalRule (β := β)).pattern := isReversal_reversalPattern
  obtain ⟨n', hn', -, hop, -⟩ := (Pattern.isEmbedding_of_matchValue hp.wellFormed hm).op
    (Pattern.stepsClosed_reaches _ g _ v) (hp.root ▸ hp.second) rfl .refl
  obtain rfl := Option.some.inj ((Graph.source?_eq_some.1 hn').1.symm.trans hn)
  exact List.mem_singleton.1 hop

/-- A match whose two directions are outputs of one sequence node is declined: a node that runs
forward does not run backward. -/
theorem BidirectionalPlan.idleAt_of_card (hk : g.WellKept)
    (h : (g.idsWith .lstmSequence).card < 2) (id : Nat) :
    (bidirectionalRule (β := β)).IdleAt g id := by
  rintro m ⟨n, i, -, -, hm⟩
  rw [apply_action]
  cases hfind : find? g ⟨7, 13, 14, 15⟩ m with
  | none => rfl
  | some plan =>
    obtain ⟨_, forward, backward, _, _, _, _, _, _, hr⟩ :=
      exists_reading isBidirectional_bidirectionalPattern hk.numbered hm hfind
    have hal := hr.aligned
    have hforward : plan.forward ∈ g.idsWith .lstmSequence :=
      Graph.mem_idsWith.2 ⟨forward, hal.forward_node, hal.forward_op⟩
    have hbackward : plan.backward ∈ g.idsWith .lstmSequence :=
      Graph.mem_idsWith.2 ⟨backward, hal.backward_node, hal.backward_op⟩
    have htwo : 1 < (g.idsWith .lstmSequence).card :=
      Finset.one_lt_card.2 ⟨_, hforward, _, hbackward, hal.distinct.2.2⟩
    omega

end Passes

namespace RewritePass

variable {config : RunConfig} {pass : Pass Body} {rules : List (Rule Body)} {op : Op}
  {g : Graph Body}

theorem idleAt_of_loopPattern (hk : g.WellKept) {rule : Rule Body}
    (hpattern : rule.pattern = loopPattern op) (h : g.findOps [op] = []) (id : Nat) :
    rule.IdleAt g id := by
  rintro m ⟨n, i, hn, -, hm⟩
  rw [hpattern] at hm
  exact absurd (LoopPlan.op_of_matchValue_loopPattern hm hn).1 (hk.not_live_of_findOps h hn)

/-- The rules of a pass that is not applicable decline all their matches. -/
theorem idleAt (hpass : RewritePass config pass rules op) (hk : g.WellKept)
    (happ : pass.applicable g = false) : ∀ rule ∈ rules, ∀ id, rule.IdleAt g id := by
  have hnone {op : Op} (h : (!(g.findOps [op]).isEmpty) = false) : g.findOps [op] = [] := by
    simpa using h
  intro rule hrule id
  cases hpass with
  | convertIterator kind =>
    obtain rfl := List.mem_singleton.1 hrule
    exact idleAt_of_loopPattern hk rfl (hnone happ) id
  | convertIterators =>
    obtain ⟨kind, -, rfl⟩ := List.mem_map.1 hrule
    exact idleAt_of_loopPattern hk rfl (hnone happ) id
  | convertLoop =>
    obtain rfl := List.mem_singleton.1 hrule
    exact idleAt_of_loopPattern hk rfl (hnone happ) id
  | fuseReversal =>
    obtain rfl := List.mem_singleton.1 hrule
    rintro m ⟨n, i, hn, -, hm⟩
    exact absurd (ReversalPlan.op_of_matchValue hm hn) (hk.not_live_of_findOps (hnone happ) hn)
  | fuseBidirectional =>
    obtain rfl := List.mem_singleton.1 hrule
    have hcard : (g.idsWith .lstmSequence).card < 2 := by
      rw [← hk.length_findOps]
      exact Nat.not_le.1 (of_decide_eq_false happ)
    exact BidirectionalPlan.idleAt_of_card hk hcard id

/-- A run of a pass that is not applicable is one traversal. -/
theorem run_of_not_applicable (hpass : RewritePass config pass rules op) (hk : g.WellKept)
    (hsteps : 0 < config.maxIterations) (happ : pass.applicable g = false) :
    ∃ k, pass.run.apply g = (.ok { matched := k, iterations := 1 }, config.settle g) := by
  rw [hpass.run_eq]
  exact (settled_of_idle hpass.declines (hpass.idleAt hk happ)).runRules_settle hsteps

end RewritePass

/-- Where there is no node of the operations in question, no node is marked. -/
theorem apply_run_markSkippable {β : Type} {g : Graph β} (h : markSkippable.applicable g = false) :
    markSkippable.run.apply g = (.ok { iterations := 1 }, g) := by
  have hnone : g.findOps skippableOps = [] := by simpa [markSkippable] using h
  have hids : g.skippableNodes = [] := by
    rw [Graph.skippableNodes, List.map_eq_nil_iff, List.filter_eq_nil_iff]
    intro n hn
    have hop : n.op ∉ skippableOps := by
      simpa using List.filter_eq_nil_iff.1 hnone n hn
    have hskip : g.isSkippable n = false := by
      simpa using fun hskip : g.isSkippable n = true => hop (Graph.op_mem_of_isSkippable hskip)
    simp [hskip]
  rw [apply_markSkippable, hids]
  rfl

/-! ### Chains -/

namespace Report

theorem merge_assoc (r s t : Report) : (r.merge s).merge t = r.merge (s.merge t) := by
  simp [merge, Nat.add_assoc]

@[simp] theorem merge_empty (r : Report) : r.merge {} = r := by
  simp [merge]

@[simp] theorem empty_merge (r : Report) : Report.merge {} r = r := by
  simp [merge]

end Report

namespace Pass

variable {β : Type} {passes : List (Pass β)} {pass : Pass β} {g : Graph β} {report : Report}

/-- The pass that runs on every graph. -/
def always (pass : Pass β) : Pass β :=
  { pass with applicable := fun _ => true }

/-- What a chain does to the graph does not depend on what has been reported before. -/
theorem apply_runChain (passes : List (Pass β)) (report : Report) (g : Graph β) :
    (runChain passes report).apply g =
      (((runChain passes {}).apply g).1.map report.merge, ((runChain passes {}).apply g).2) := by
  induction passes generalizing report g with
  | nil => simp [runChain, Except.map]
  | cons pass rest ih =>
    have hstart (report : Report) : (runChain (pass :: rest) report).apply g =
        (if pass.applicable g = true then do runChain rest (report.merge (← pass.run))
          else runChain rest report : Edit β Report).apply g :=
      Edit.apply_bind_of_ok (Edit.apply_get g)
    rw [hstart, hstart]
    split
    · rw [Edit.apply_bind, Edit.apply_bind]
      rcases pass.run.apply g with ⟨e | r, h⟩
      · rfl
      · dsimp only
        rw [ih (report.merge r), ih (Report.merge {} r)]
        cases ((runChain rest {}).apply h).1 <;> simp [Except.map, Report.merge_assoc]
    · exact ih report g

theorem apply_runChain_of_not_applicable (h : pass.applicable g = false) :
    (runChain (pass :: passes) report).apply g = (runChain passes report).apply g := by
  rw [runChain, Edit.apply_bind_of_ok (Edit.apply_get g), h]
  rfl

theorem apply_runChain_always {r : Report} {g' : Graph β} (h : pass.run.apply g = (.ok r, g')) :
    (runChain (pass.always :: passes) report).apply g =
      (runChain passes (report.merge r)).apply g' := by
  rw [runChain, Edit.apply_bind_of_ok (Edit.apply_get g)]
  exact Edit.apply_bind_of_ok h

end Pass

/-- The passes of this library under the default configuration, each with what a run that finds
nothing to do leaves of a graph. -/
inductive StockPass : Pass Body → (Graph Body → Graph Body) → Prop
  | rewrite {pass : Pass Body} {rules : List (Rule Body)} {op : Op} :
      RewritePass {} pass rules op → StockPass pass fun g => g.compact.2
  | markSkippable : StockPass markSkippable id

namespace StockPass

variable {pass : Pass Body} {left : Graph Body → Graph Body} {g : Graph Body}

theorem exists_run (hpass : StockPass pass left) (hk : g.WellKept)
    (happ : pass.applicable g = false) :
    ∃ k, pass.run.apply g = (.ok { matched := k, iterations := 1 }, left g) := by
  cases hpass with
  | rewrite hpass => exact hpass.run_of_not_applicable hk (by decide) happ
  | markSkippable => exact ⟨0, apply_run_markSkippable happ⟩

theorem left_eq (hpass : StockPass pass left) (x : Graph Body) (hx : g = x.compact.2)
    (ha : g.Acyclic) : left g = g := by
  cases hpass with
  | rewrite hpass =>
    subst hx
    show x.compact.2.compact.2 = x.compact.2
    rw [Graph.compact_compact (Graph.acyclic_compact.1 ha).topological_compact]
  | markSkippable => rfl

/-- **Leaving out a pass is invisible.**  Let a pass of this library declare itself not applicable to a
well-kept graph.  If it is run all the same, it succeeds without applying or eliminating anything, and
leaves the compacted graph behind, or the very graph if it is the pass that only marks nodes.  If the
graph has been compacted before and has no cycle, then either way a chain of passes goes on from that
same graph, and what the chain has reported in the end differs at most by the matches and the
iteration of the run. -/
theorem skip_invisible (hpass : StockPass pass left) (hk : g.WellKept) (happ : pass.applicable g = false) :
    ∃ r : Report, (r.applied = 0 ∧ r.eliminated = 0 ∧ r.nodes = []) ∧
      pass.run.apply g = (.ok r, left g) ∧
        ∀ x : Graph Body, g = x.compact.2 → g.Acyclic → ∀ rest report,
          (Pass.runChain (pass :: rest) report).apply g = (Pass.runChain rest report).apply g ∧
            (Pass.runChain (pass.always :: rest) report).apply g =
              (Pass.runChain rest (report.merge r)).apply g ∧
            ((Pass.runChain (pass.always :: rest) report).apply g).2 =
              ((Pass.runChain (pass :: rest) report).apply g).2 := by
  obtain ⟨k, hrun⟩ := hpass.exists_run hk happ
  refine ⟨_, ⟨rfl, rfl, rfl⟩, hrun, fun x hx ha rest report => ?_⟩
  have hskip : (Pass.runChain (pass :: rest) report).apply g = (Pass.runChain rest report).apply g :=
    Pass.apply_runChain_of_not_applicable happ
  have hforced : (Pass.runChain (pass.always :: rest) report).apply g =
      (Pass.runChain rest (report.merge { matched := k, iterations := 1 })).apply (left g) :=
    Pass.apply_runChain_always hrun
  rw [hpass.left_eq x hx ha] at hforced
  refine ⟨hskip, hforced, ?_⟩
  rw [hskip, hforced, Pass.apply_runChain rest report, Pass.apply_runChain rest (report.merge _)]

/-- The two last states of a sequence node, number 7, laid end to end. -/
def joinedStates : Graph Body :=
  .ofSpecs
    [{ op := .parameter, outputs := [.planar (.ofLengths [2, 5, 3]) .f32] },
      { op := .parameter, outputs := [.planar (.ofLengths [2, 1, 2]) .f32] },
      { op := .parameter, outputs := [.planar (.ofLengths [2, 1, 2]) .f32] },
      { op := .parameter, outputs := [.planar (.ofLengths [2]) .i64] },
      { op := .parameter, outputs := [.planar (.ofLengths [1, 8, 3]) .f32] },
      { op := .parameter, outputs := [.planar (.ofLengths [1, 8, 2]) .f32] },
      { op := .parameter, outputs := [.planar (.ofLengths [1, 8]) .f32] },
      { op := .lstmSequence
        inputs := [⟨0, 0⟩, ⟨1, 0⟩, ⟨2, 0⟩, ⟨3, 0⟩, ⟨4, 0⟩, ⟨5, 0⟩, ⟨6, 0⟩]
        outputs := [.planar (.ofLengths [2, 1, 5, 2]) .f32, .planar (.ofLengths [2, 1, 2]) .f32,
          .planar (.ofLengths [2, 1, 2]) .f32] },
      { op := .concat
        inputs := [⟨7, 1⟩, ⟨7, 2⟩]
        outputs := [.planar (.ofLengths [2, 2, 2]) .f32]
        attributes := Attributes.empty.insert "axis" (.int 1) }]
    [⟨8, 0⟩]

/-- The pattern of two directions matches the states of the one sequence node, which is declined. -/
theorem skip_invisible_joinedStates :
    let g := joinedStates.compact.2
    let pass := fuseBidirectional
    (StockPass pass (fun g => g.compact.2) ∧ g.WellKept ∧ pass.applicable g = false ∧ g.Acyclic) ∧
      (pass.run.apply g).1 = .ok { matched := 1, iterations := 1 } ∧
        ∀ rest report, ((Pass.runChain (pass.always :: rest) report).apply g).2 =
          ((Pass.runChain (pass :: rest) report).apply g).2 := by
  intro g pass
  obtain ⟨hk, ha, -⟩ : joinedStates.WellKept ∧ joinedStates.Acyclic ∧ joinedStates.NoDangling :=
    Graph.ofSpecs_sound _ _ (by decide +kernel) (by decide +kernel)
  have hpass : StockPass pass fun g => g.compact.2 := .rewrite .fuseBidirectional
  have happ : pass.applicable g = false := by decide +kernel
  have hacyclic : g.Acyclic := Graph.acyclic_compact.2 ha
  refine ⟨⟨hpass, hk.compact, happ, hacyclic⟩, by decide +kernel, fun rest report => ?_⟩
  obtain ⟨r, -, -, hchain⟩ := skip_invisible hpass hk.compact happ
  exact (hchain joinedStates rfl hacyclic rest report).2.2

end StockPass

end Dataflow
