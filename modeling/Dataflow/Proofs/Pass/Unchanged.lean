import Dataflow.Proofs.Pass.Rounds
import Dataflow.Proofs.Recurrent.LoopConversion
import Dataflow.Proofs.Recurrent.Passes

/-!
# Runs that apply nothing

A run in which no rule applies consists of a single round.  Every trial of it has left the graph as it
is: the pattern has not matched, or the action has declined the match, and an error would have ended
the run.  What remains is the compaction after the round, and it does nothing to a graph that has been
compacted before and has no cycle.

## Main definitions

* `DecliningPass` : passes that run rules which leave the graph as it is when they decline a match.

## Main statements

* `Trial.after_eq_before` : a trial without an effect.
* `Rounds.eq_settle` : a round without an effect.
* `eq_compact_of_applied_eq_zero` : a run without an effect.
-/

namespace Dataflow

section Rounds

variable {β : Type} {config : RunConfig} {rules : List (Rule β)} {g g' : Graph β} {report r : Report}

/-- A trial leaves the graph as it is if the rule neither applies nor fails. -/
theorem Trial.after_eq_before {t : Trial β} (hrule : t.rule.Declines)
    (hstrict : config.continueOnError = false) (hnodes : t.nodes? = none)
    (hfailure : t.failure? config = none) : t.after = t.before := by
  obtain ⟨⟨outcome, hattempt, -⟩, -⟩ | ⟨m, -, hact, hattempt⟩ :=
    Rule.attempt_cases hrule t.before t.id
  · rw [Trial.after, hattempt]
  · rcases hout : ((t.rule.action m).apply t.before).1 with e | applied
    · simp [Trial.failure?, Trial.result, hattempt, hout, Except.map, hstrict] at hfailure
    · simp [Trial.nodes?, Trial.result, hattempt, hout, Except.map] at hnodes

/-- A round in which no rule applies leaves the graph as it is, apart from the compaction. -/
theorem Rounds.eq_settle (hrules : ∀ rule ∈ rules, rule.Declines)
    (hstrict : config.continueOnError = false)
    (h : Rounds config rules g report [false] g' r) : g' = config.settle g := by
  cases h with
  | cons htraverse hrest =>
    cases hrest
    obtain ⟨hfailure, -, hnodes, rfl⟩ := apply_traverse_ok_iff.1 htraverse
    have hnone : ∀ t ∈ trials config rules g, t.nodes? = none := by
      simpa using hnodes
    have hsame : Trial.final g (trials config rules g) = g :=
      linked_trialsFrom.induction (R := fun g h => h = g) (fun _ => rfl)
        (fun hgh hhk => hhk.trans hgh) fun t ht =>
          Trial.after_eq_before (hrules t.rule (mem_trialsFrom ht).2.2) hstrict (hnone t ht)
            (hfailure t ht)
    rw [hsame]

/-- A run with at least one step that applies nothing comes to the compaction of the graph. -/
theorem settle_of_runRules (hrules : ∀ rule ∈ rules, rule.Declines)
    (hstrict : config.continueOnError = false) (hsteps : 0 < config.maxIterations)
    (hrun : (runRules config rules).apply g = (.ok r, g')) (happlied : r.applied = 0) :
    g' = config.settle g := by
  obtain hrounds | ⟨k, -, hrounds⟩ := exists_rounds_of_runRulesFor hrun
  · have hcount := hrounds.count_le_applied
    simp only [happlied, List.count_replicate_self] at hcount
    omega
  · have hcount := hrounds.count_le_applied
    simp only [happlied, List.count_append, List.count_replicate_self] at hcount
    obtain rfl : k = 0 := by omega
    exact hrounds.eq_settle hrules hstrict

end Rounds

/-! ### Passes -/

/-- The passes that run rules under a configuration and leave the graph as it is when they decline a
match: one such rule, several of them together, and the passes that rewrite recurrent nodes. -/
inductive DecliningPass (config : RunConfig) : Pass Body → Prop
  | ofRule (rule : Rule Body) : rule.Declines → DecliningPass config { rule with config }.toPass
  | ofSet (name : String) (rules : List (Rule Body)) : (∀ rule ∈ rules, rule.Declines) →
      DecliningPass config { name, rules, config : RuleSet Body }.toPass
  | rewrite {pass : Pass Body} {rules : List (Rule Body)} {op : Op} :
      RewritePass config pass rules op → DecliningPass config pass

variable {g g' : Graph Body} {pass : Pass Body} {r : Report}

theorem DecliningPass.exists_rules {config : RunConfig} (h : DecliningPass config pass) :
    ∃ rules, (∀ rule ∈ rules, rule.Declines) ∧ pass.run = runRules config rules := by
  cases h with
  | ofRule rule hrule => exact ⟨[{ rule with config }], List.forall_mem_singleton.2 hrule, rfl⟩
  | ofSet name rules hrules => exact ⟨rules, hrules, rfl⟩
  | rewrite h => exact ⟨_, h.declines, h.run_eq⟩

/-- **A run that applies nothing changes nothing.**  Let a pass run rules that leave the graph as it is
when they decline a match, with any number of iterations but zero and otherwise by default.  If it
succeeds without applying a rule, then the final graph is the compaction of the first one.  So it is
the first one itself, with its order and its lists of uses, if that has been compacted and its nodes
form no cycle. -/
theorem eq_compact_of_applied_eq_zero {steps : Nat} (hsteps : 0 < steps)
    (hpass : DecliningPass { maxIterations := steps } pass)
    (hrun : pass.run.apply g = (.ok r, g')) (happlied : r.applied = 0) :
    g' = g.compact.2 ∧ ∀ x : Graph Body, g = x.compact.2 → g.Acyclic → g' = g := by
  obtain ⟨rules, hrules, hpass⟩ := hpass.exists_rules
  rw [hpass] at hrun
  have hcompact : g' = g.compact.2 := settle_of_runRules hrules rfl hsteps hrun happlied
  refine ⟨hcompact, fun x hx ha => ?_⟩
  subst hx
  rw [hcompact, Graph.compact_compact (Graph.acyclic_compact.1 ha).topological_compact]

/-- An iterator over a simple cell is matched by the conversion of iterators over long short-term
memories, and left alone. -/
theorem eq_compact_of_applied_eq_zero_recurrentLoop :
    let g := (LoopPlan.recurrentLoop LoopPlan.bothOutputs).compact.2
    let run := (convertIterator .lstm { maxIterations := 3 }).run.apply g
    DecliningPass { maxIterations := 3 } (convertIterator .lstm { maxIterations := 3 }) ∧
      run.1 = .ok { matched := 1, iterations := 1 } ∧ g.Acyclic ∧ run.2 = g := by
  intro g run
  have hpass : DecliningPass { maxIterations := 3 } (convertIterator .lstm { maxIterations := 3 }) :=
    .rewrite (.convertIterator .lstm)
  have hrun : run.1 = .ok { matched := 1, iterations := 1 } := by decide +kernel
  have ha : g.Acyclic :=
    Graph.acyclic_compact.2 (LoopPlan.recurrentLoop_sound LoopPlan.bothOutputs).2.1
  exact ⟨hpass, hrun, ha, (eq_compact_of_applied_eq_zero (by decide) hpass (Prod.ext hrun rfl) rfl).2
    _ rfl ha⟩

end Dataflow
