import Dataflow.Pass.Action
import Dataflow.Proofs.Graph.Census
import Dataflow.Proofs.Pass.Marking
import Dataflow.Proofs.Pass.Rounds
import Dataflow.Proofs.Recurrent.LoopConversion
import Dataflow.Proofs.Recurrent.Passes

/-!
# What reports say about graphs

A pass reports how many nodes it has eliminated.  The number is taken traversal by traversal, as the
growth of the number of marked nodes; compactions come between two traversals and do not disturb it.
So the number of live nodes at the end is that of the beginning, with the new nodes and without the
eliminated ones, provided that no action compacts the graph in the course of a traversal.  Passes in a
chain add up their reports, and with them their balances.

## Main definitions

* `Report.Balances` : a report agrees with the graphs before and after.
* `AccountablePass` : rules whose actions do not compact the graph, the passes of the library, and
  chains of all of these.

## Main statements

* `Report.Balances.round` : one traversal, with the compaction after it.
* `Report.Balances.merge` : one pass after another.
* `AccountablePass.balances` : the report of every pass that succeeds agrees with the graphs.
-/

namespace Dataflow

/-! ### Reports and graphs -/

namespace Report

variable {β : Type} {g h k : Graph β} {r s : Report}

/-- Every change has a root and was found as a match. -/
structure Tallies (r : Report) : Prop where
  applied_eq : r.applied = r.nodes.length
  applied_le : r.applied ≤ r.matched

/-- The report agrees with the graphs before and after: new slots were filled with nodes, and the
eliminated ones are not live any more. -/
structure Balances (g h : Graph β) (r : Report) : Prop extends r.Tallies where
  length_le : g.slots.length ≤ h.slots.length
  live : h.liveCount + r.eliminated = g.liveCount + (h.slots.length - g.slots.length)

theorem Tallies.countMatches (h : r.Tallies) (count : Nat) : (r.countMatches count).Tallies :=
  ⟨h.applied_eq, Nat.le_trans h.applied_le (Nat.le_add_right _ _)⟩

theorem Tallies.applied (h : r.Tallies) (id : Nat) : ((r.countMatches 1).record id).Tallies where
  applied_eq := by simp [record, Report.countMatches, h.applied_eq]
  applied_le := Nat.succ_le_succ h.applied_le

/-- Trials keep a tally in order. -/
theorem Tallies.foldl_tally (h : r.Tallies) (log : List (Trial β)) :
    (log.foldl Trial.tally r).Tallies := by
  refine Trial.foldl_tally_induction (fun r hr t => ?_) h
  obtain ⟨-, hsame | hmatched⟩ | ⟨-, happlied⟩ := Trial.tally_cases r t
  · rwa [hsame]
  · rw [hmatched]
    exact hr.countMatches 1
  · rw [happlied]
    exact hr.applied t.id

theorem Balances.empty (g : Graph β) : Balances g g {} where
  applied_eq := rfl
  applied_le := Nat.le_refl _
  length_le := Nat.le_refl _
  live := by simp

/-- The balances of one way and of the way after it add up. -/
theorem Balances.merge (hgh : Balances g h r) (hhk : Balances h k s) : Balances g k (r.merge s) where
  applied_eq := by simp [Report.merge, hgh.applied_eq, hhk.applied_eq]
  applied_le := Nat.add_le_add hgh.applied_le hhk.applied_le
  length_le := Nat.le_trans hgh.length_le hhk.length_le
  live := by
    have hfirst := hgh.live
    have hsecond := hhk.live
    have hlonger := hgh.length_le
    have hlongest := hhk.length_le
    simp only [Report.merge]
    omega

variable {config : RunConfig} {rules : List (Rule β)} {changed : Bool} {changes : List Bool}

theorem length_slots_settle (config : RunConfig) (g : Graph β) :
    (config.settle g).slots.length = g.slots.length := by
  rw [RunConfig.settle]
  split
  · exact Graph.length_slots_compact g
  · rfl

theorem liveCount_settle (config : RunConfig) (g : Graph β) :
    (config.settle g).liveCount = g.liveCount := by
  rw [RunConfig.settle]
  split
  · exact Graph.liveCount_compact g
  · rfl

/-- Without compactions in its course a traversal fills slots at the end and marks nodes. -/
theorem accrues_of_traverse (hrules : ∀ rule ∈ rules, rule.TakesOnly fun s => ¬ s.Compacts)
    (htraverse : (traverse config rules r).apply g = (.ok (s, changed), h)) : g.Accrues h := by
  obtain ⟨-, -, -, rfl⟩ := apply_traverse_ok_iff.1 htraverse
  refine Graph.LeadsTo.accrues (fun _ hs => hs) (linked_trialsFrom.induction (fun _ => .refl) .trans ?_)
  exact fun t ht => (hrules t.rule (mem_trialsFrom ht).2.2).attempt t.before t.id

/-- A traversal, with the compaction after it, keeps a report in agreement with the graphs. -/
theorem Balances.round (hrules : ∀ rule ∈ rules, rule.TakesOnly fun s => ¬ s.Compacts)
    (hkg : Balances k g r)
    (htraverse : (traverse config rules (r.countIterations 1)).apply g = (.ok (s, changed), h)) :
    Balances k (config.settle h) (s.recordElimination (h.pendingCount - g.pendingCount)) := by
  have haccrues := accrues_of_traverse hrules htraverse
  obtain ⟨-, rfl, -⟩ := apply_traverse_ok_iff.1 htraverse
  have hcounted : (r.countIterations 1).Tallies := ⟨hkg.applied_eq, hkg.applied_le⟩
  have htally := hcounted.foldl_tally (trials config rules g)
  refine ⟨⟨htally.applied_eq, htally.applied_le⟩, ?_, ?_⟩
  · rw [length_slots_settle]
    exact Nat.le_trans hkg.length_le haccrues.length_le
  · have hbefore := hkg.live
    have hround := haccrues.liveCount_add
    have hlonger := hkg.length_le
    have hlongest := haccrues.length_le
    simp only [length_slots_settle, liveCount_settle, eliminated_recordElimination,
      Trial.eliminated_foldl_tally, eliminated_countIterations]
    omega

/-- Any number of rounds do. -/
theorem Balances.rounds (hrules : ∀ rule ∈ rules, rule.TakesOnly fun s => ¬ s.Compacts)
    (hrounds : Rounds config rules g r changes h s) (hkg : Balances k g r) : Balances k h s := by
  induction hrounds with
  | nil => exact hkg
  | cons htraverse _ ih => exact ih (hkg.round hrules htraverse)

/-- The report of a run that succeeds agrees with the graphs. -/
theorem balances_of_runRules (hrules : ∀ rule ∈ rules, rule.TakesOnly fun s => ¬ s.Compacts)
    (hrun : (runRules config rules).apply g = (.ok r, h)) : Balances g h r := by
  obtain hrounds | ⟨_, -, hrounds⟩ := exists_rounds_of_runRulesFor hrun
  · exact (Balances.empty g).rounds hrules hrounds
  · exact (Balances.empty g).rounds hrules hrounds

/-! ### Marks for run time -/

theorem liveCount_modifyNode (g : Graph β) (id : Nat) (f : Node β → Node β) :
    (g.modifyNode id f).liveCount = g.liveCount := by
  simp [Graph.liveCount_eq_card, Graph.isSome_live?]

theorem markNodes_slots (ids : List Nat) (g : Graph β) :
    (g.markNodes ids).slots.length = g.slots.length ∧ (g.markNodes ids).liveCount = g.liveCount := by
  induction ids generalizing g with
  | nil => exact ⟨rfl, rfl⟩
  | cons id rest ih =>
    rw [Graph.markNodes, (ih _).1, (ih _).2, Graph.length_slots_modifyNode, liveCount_modifyNode]
    exact ⟨rfl, rfl⟩

end Report

/-- The report of the pass that marks nodes agrees with the graphs: it eliminates none. -/
theorem balances_of_markSkippable {β : Type} {g h : Graph β} {r : Report}
    (hrun : markSkippable.run.apply g = (.ok r, h)) : r.Balances g h := by
  rw [apply_markSkippable, Prod.mk.injEq, Except.ok.injEq] at hrun
  obtain ⟨rfl, rfl⟩ := hrun
  obtain ⟨hlength, hlive⟩ := Report.markNodes_slots g.skippableNodes g
  exact ⟨⟨rfl, Nat.le_refl _⟩, Nat.le_of_eq hlength.symm, by simp [hlength, hlive]⟩

/-! ### Passes -/

/-- The passes whose reports account for what they do: rules whose actions change a graph by steps
without compactions, under any configuration, the passes that rewrite recurrent nodes, the one that
marks nodes, and chains. -/
inductive AccountablePass : Pass Body → Prop
  | ofRule {rule : Rule Body} :
      rule.TakesOnly (fun s => ¬ s.Compacts) → AccountablePass rule.toPass
  | ofSet {set : RuleSet Body} :
      (∀ rule ∈ set.rules, rule.TakesOnly fun s => ¬ s.Compacts) → AccountablePass set.toPass
  | rewrite {config : RunConfig} {pass : Pass Body} {rules : List (Rule Body)} {op : Op} :
      RewritePass config pass rules op → AccountablePass pass
  | markSkippable : AccountablePass markSkippable
  | chain {passes : List (Pass Body)} :
      (∀ pass ∈ passes, AccountablePass pass) → AccountablePass (Pass.chain passes)

variable {g h k : Graph Body} {r report : Report} {pass : Pass Body}

/-- The passes of a chain keep a report in agreement with the graphs if their own reports agree. -/
theorem balances_of_runChain {passes : List (Pass Body)}
    (hpasses : ∀ pass ∈ passes, ∀ (g h : Graph Body) r,
      pass.run.apply g = (.ok r, h) → r.Balances g h)
    (hkg : report.Balances k g) (hrun : (Pass.runChain passes report).apply g = (.ok r, h)) :
    r.Balances k h := by
  induction passes generalizing g report with
  | nil =>
    simp only [Pass.runChain, Edit.apply_pure, Prod.mk.injEq, Except.ok.injEq] at hrun
    obtain ⟨rfl, rfl⟩ := hrun
    exact hkg
  | cons pass rest ih =>
    obtain ⟨hpass, hrest⟩ := List.forall_mem_cons.1 hpasses
    rw [Pass.runChain, Edit.apply_bind_of_ok (Edit.apply_get g)] at hrun
    split at hrun
    · obtain ⟨s, g₁, hfirst, hrun⟩ := Edit.apply_bind_ok_iff.1 hrun
      exact ih hrest (hkg.merge (hpass g g₁ s hfirst)) hrun
    · exact ih hrest hkg hrun

/-- **The accounts of a pass.**  Let a pass run rules whose actions change a graph in any way that the
steps allow except compacting it, under any configuration, or be one of the passes of the library, or
a chain of all of these.  If it succeeds, then the number of live nodes has grown by the number of new
slots and shrunk by the number of eliminated nodes in the report, which lists a root for every change,
and counts at least as many matches. -/
theorem AccountablePass.balances (hpass : AccountablePass pass)
    (hrun : pass.run.apply g = (.ok r, h)) :
    g.slots.length ≤ h.slots.length ∧
      h.liveCount + r.eliminated = g.liveCount + (h.slots.length - g.slots.length) ∧
        r.applied = r.nodes.length ∧ r.applied ≤ r.matched := by
  have hall : ∀ (g h : Graph Body) r, pass.run.apply g = (.ok r, h) → r.Balances g h := by
    clear hrun
    induction hpass with
    | ofRule hrule =>
      exact fun _ _ _ => Report.balances_of_runRules (List.forall_mem_singleton.2 hrule)
    | ofSet hrules => exact fun _ _ _ => Report.balances_of_runRules hrules
    | rewrite hpass =>
      exact fun _ _ _ hrun => Report.balances_of_runRules hpass.takesOnly (hpass.run_eq ▸ hrun)
    | markSkippable => exact fun _ _ _ => balances_of_markSkippable
    | chain _ ih => exact fun g _ _ => balances_of_runChain ih (.empty g)
  have hbalances := hall g h r hrun
  exact ⟨hbalances.length_le, hbalances.live, hbalances.applied_eq, hbalances.applied_le⟩

/-- Sequence nodes are replaced by new ones, twice and without compactions. -/
def renewSequences : Rule Body where
  name := "renew_sequences"
  pattern := ⟨[{ kind := .op [.rnnSequence] [] }]⟩
  action := Action.replaceOp .rnnSequence
  config := { maxIterations := 2, compactAfter := false }

/-- The marks, the conversion of an iterator and two replacements of the sequence node: thirteen new
nodes, and three eliminated ones. -/
theorem AccountablePass.balances_recurrentLoop :
    let g := LoopPlan.recurrentLoop LoopPlan.bothOutputs
    let pass := Pass.chain [Dataflow.markSkippable, convertIterators, renewSequences.toPass]
    let run := pass.run.apply g
    AccountablePass pass ∧
      run.1 = .ok { matched := 4, applied := 3, eliminated := 3, iterations := 4, nodes := [2, 9, 14] } ∧
        run.2.slots.length = 16 ∧ run.2.liveCount + 3 = g.liveCount + (16 - 3) := by
  intro g pass run
  have hpass : AccountablePass pass := by
    refine .chain fun p hp => ?_
    simp only [List.mem_cons, List.not_mem_nil, or_false] at hp
    obtain rfl | rfl | rfl := hp
    · exact .markSkippable
    · exact .rewrite .convertIterators
    · exact .ofRule (Action.takesOnly_replaceOp (fun _ hs => hs) rfl)
  have hrun : run.1 =
      .ok { matched := 4, applied := 3, eliminated := 3, iterations := 4, nodes := [2, 9, 14] } := by
    decide +kernel
  have hlength : run.2.slots.length = 16 := by decide +kernel
  have hfinal : run = (.ok
      { matched := 4, applied := 3, eliminated := 3, iterations := 4, nodes := [2, 9, 14] },
      run.2) := by
    rw [← hrun]
  have hlive := (AccountablePass.balances hpass hfinal).2.1
  rw [hlength] at hlive
  exact ⟨hpass, hrun, hlength, hlive⟩

end Dataflow
