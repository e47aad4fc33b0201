import Dataflow.Proofs.Pass.Unchanged
import Dataflow.Proofs.Recurrent.Targets

/-!
# Runs that end by themselves

If every application of a rule lowers a number, then a run without tolerated errors applies no more
rules than that number says, and with more steps than that it ends with a traversal that applies
nothing.  For the passes that rewrite recurrent nodes the number is that of the live nodes with the
operation that the pass is after.

## Main definitions

* `Rule.Lowers` : a rule keeps an invariant and lowers a number wherever it applies.

## Main statements

* `Rule.Lowers.linked`, `Rule.Lowers.rounds` : what trials and rounds of such rules come to.
* `settles_of_runRules` : how a run of such rules ends.
* `RewritePass.converges` : how a pass that rewrites recurrent nodes ends.
-/

namespace Dataflow

/-! ### Measures -/

section Measure

variable {β : Type} {I : Graph β → Prop} {μ : Graph β → Nat} {rule : Rule β} {rules : List (Rule β)}
  {config : RunConfig} {g g' : Graph β} {report r : Report} {changes : List Bool}

/-- Where the rule does not apply, it leaves the graph as it is; where it applies, it keeps the
invariant `I` and lowers the number `μ`. -/
structure Rule.Lowers (I : Graph β → Prop) (μ : Graph β → Nat) (rule : Rule β) : Prop where
  declines : rule.Declines
  applied : ∀ ⦃g g' id nodes⦄, I g → (rule.attempt id).apply g = (.ok (.applied nodes), g') →
    I g' ∧ μ g' < μ g

/-- One trial lowers the number by one at least if the rule has applied, and otherwise keeps it. -/
theorem Rule.Lowers.trial {t : Trial β} (hrule : t.rule.Lowers I μ)
    (hstrict : config.continueOnError = false) (hfailure : t.failure? config = none)
    (hI : I t.before) :
    I t.after ∧ μ t.after + (if t.nodes?.isSome then 1 else 0) ≤ μ t.before := by
  cases hnodes : t.nodes? with
  | none =>
    rw [Trial.after_eq_before hrule.declines hstrict hnodes hfailure]
    exact ⟨hI, Nat.le_refl _⟩
  | some nodes => exact hrule.applied hI (Prod.ext (Trial.nodes?_eq_some.1 hnodes) rfl)

/-- Trials that follow on one another lower the number by one for every application. -/
theorem Rule.Lowers.linked {log : List (Trial β)} (hlog : ∀ t ∈ log, t.rule.Lowers I μ)
    (hstrict : config.continueOnError = false) (hfailure : ∀ t ∈ log, t.failure? config = none)
    (hlinked : Trial.Linked g log) (hI : I g) :
    I (Trial.final g log) ∧ μ (Trial.final g log) + Trial.applications log ≤ μ g := by
  induction log generalizing g with
  | nil => exact ⟨hI, Nat.le_refl _⟩
  | cons t log ih =>
    obtain ⟨rfl, hlinked⟩ := hlinked
    obtain ⟨hrule, hlog⟩ := List.forall_mem_cons.1 hlog
    obtain ⟨hstep, hfailure⟩ := List.forall_mem_cons.1 hfailure
    obtain ⟨hI, hfirst⟩ := hrule.trial hstrict hstep hI
    obtain ⟨hI, hrest⟩ := ih hlog hfailure hlinked hI
    refine ⟨hI, ?_⟩
    rw [Trial.applications, List.countP_cons, ← Trial.applications]
    change μ (Trial.final t.after log) + _ ≤ _
    omega

variable (hrules : ∀ rule ∈ rules, rule.Lowers I μ) (hstrict : config.continueOnError = false)
  (hcompact : ∀ g, I g → I g.compact.2 ∧ μ g.compact.2 = μ g)
include hrules hstrict hcompact

/-- Rounds lower the number by one for every application that they report. -/
theorem Rule.Lowers.rounds (hrounds : Rounds config rules g report changes g' r) (hI : I g) :
    I g' ∧ r.applied + μ g' ≤ report.applied + μ g := by
  induction hrounds with
  | nil => exact ⟨hI, Nat.le_refl _⟩
  | @cons g h g' report r r' changed changes htraverse _ ih =>
    obtain ⟨hfailure, rfl, -, rfl⟩ := apply_traverse_ok_iff.1 htraverse
    have hlog : ∀ t ∈ trials config rules g, t.rule.Lowers I μ :=
      fun t ht => hrules t.rule (mem_trialsFrom ht).2.2
    obtain ⟨hfinal, hlowered⟩ := Rule.Lowers.linked hlog hstrict hfailure linked_trialsFrom hI
    have hsettle : I (config.settle (Trial.final g (trials config rules g))) ∧
        μ (config.settle (Trial.final g (trials config rules g))) =
          μ (Trial.final g (trials config rules g)) := by
      rw [RunConfig.settle]
      split
      · exact hcompact _ hfinal
      · exact ⟨hfinal, rfl⟩
    obtain ⟨hI, hrest⟩ := ih hsettle.1
    refine ⟨hI, ?_⟩
    rw [hsettle.2, Report.applied_recordElimination, Trial.applied_foldl_tally,
      Report.applied_countIterations] at hrest
    omega

/-- A run applies no more rules than the number says, with at most one round more than applications.
If there are more steps than the number says, then a last round applies nothing. -/
theorem settles_of_runRules (hI : I g) (hrun : (runRules config rules).apply g = (.ok r, g')) :
    r.applied ≤ μ g ∧ r.iterations ≤ r.applied + 1 ∧
      (μ g < config.maxIterations →
        ∃ k, Rounds config rules g {} (List.replicate k true ++ [false]) g' r) := by
  have hbounds {changes : List Bool} (hrounds : Rounds config rules g {} changes g' r) :
      changes.count true ≤ r.applied ∧ r.applied ≤ μ g ∧ r.iterations = changes.length := by
    have hlowered := (Rule.Lowers.rounds hrules hstrict hcompact hrounds hI).2
    have hcount := hrounds.count_le_applied
    have hiterations := hrounds.length_eq_iterations
    simp only [Nat.zero_add] at hlowered hcount hiterations
    exact ⟨hcount, Nat.le_trans (Nat.le_add_right _ _) hlowered, hiterations⟩
  obtain hrounds | ⟨k, -, hrounds⟩ := exists_rounds_of_runRulesFor hrun
  · -- Every round has applied something, so there were no more of them than the number says.
    obtain ⟨hcount, happlied, hiterations⟩ := hbounds hrounds
    rw [List.count_replicate_self] at hcount
    rw [List.length_replicate] at hiterations
    exact ⟨happlied, by omega, fun hsteps => by omega⟩
  · obtain ⟨hcount, happlied, hiterations⟩ := hbounds hrounds
    rw [List.count_append, List.count_replicate_self] at hcount
    rw [List.length_append, List.length_replicate, List.length_singleton] at hiterations
    exact ⟨happlied, by omega, fun _ => ⟨k, hrounds⟩⟩

end Measure

/-! ### Passes -/

/-- How a rule is run does not matter to a single attempt. -/
theorem Rule.attempt_withConfig {β : Type} (rule : Rule β) (config : RunConfig) (id : Nat) :
    ({ rule with config } : Rule β).attempt id = rule.attempt id := by
  have hat (indices : List Nat) (sofar : Outcome) :
      ({ rule with config } : Rule β).attemptAt id indices sofar =
        rule.attemptAt id indices sofar := by
    induction indices generalizing sofar with
    | nil => rfl
    | cons i rest ih => simp only [attemptAt, ih]
  simp only [attempt, hat]

namespace RewritePass

variable {config : RunConfig} {pass : Pass Body} {rules : List (Rule Body)} {op : Op}
  {g g' : Graph Body} {rule : Rule Body} {id : Nat} {nodes : List Nat}

/-- An application of a rule takes away one of the nodes that the pass is after, or at least one if
these are reversals. -/
theorem card_idsWith_of_applied (hpass : RewritePass config pass rules op) (hk : g.WellKept)
    (hrule : rule ∈ rules) (h : (rule.attempt id).apply g = (.ok (.applied nodes), g')) :
    (g'.idsWith op).card < (g.idsWith op).card ∧
      (op ≠ .reverseSequence → (g'.idsWith op).card + 1 = (g.idsWith op).card) := by
  have hexact (heq : (g'.idsWith op).card + 1 = (g.idsWith op).card) :
      (g'.idsWith op).card < (g.idsWith op).card ∧
        (op ≠ .reverseSequence → (g'.idsWith op).card + 1 = (g.idsWith op).card) :=
    ⟨Nat.lt_of_succ_le (Nat.le_of_eq heq), fun _ => heq⟩
  cases hpass with
  | convertIterators =>
    obtain ⟨kind, hkind, rfl⟩ := List.mem_map.1 hrule
    exact hexact (LoopPlan.card_idsWith_of_applied
      (List.mem_cons_of_mem _ (List.mem_map_of_mem hkind)) rfl rfl rfl h)
  | convertIterator kind =>
    rw [List.mem_singleton.1 hrule, Rule.attempt_withConfig] at h
    have hmem : iteratorRule kind ∈ LoopPlan.conversions := by
      cases kind <;> simp [LoopPlan.conversions]
    exact hexact (LoopPlan.card_idsWith_of_applied hmem rfl rfl rfl h)
  | convertLoop =>
    rw [List.mem_singleton.1 hrule, Rule.attempt_withConfig] at h
    exact hexact (LoopPlan.card_idsWith_of_applied List.mem_cons_self rfl rfl rfl h)
  | fuseReversal =>
    rw [List.mem_singleton.1 hrule, Rule.attempt_withConfig] at h
    exact ⟨ReversalPlan.card_idsWith_of_applied hk h, fun hne => absurd rfl hne⟩
  | fuseBidirectional =>
    rw [List.mem_singleton.1 hrule, Rule.attempt_withConfig] at h
    exact hexact (BidirectionalPlan.card_idsWith_of_applied hk h)

theorem wellKept_of_applied (hpass : RewritePass config pass rules op) (hk : g.WellKept)
    (hrule : rule ∈ rules) (h : (rule.attempt id).apply g = (.ok (.applied nodes), g')) :
    g'.WellKept := by
  obtain ⟨_, _, m, -, -, -, -, hact⟩ := Rule.exists_match_of_applied (hpass.declines rule hrule) h
  obtain ⟨rewrite, hmem, _, rfl⟩ := hpass.exists_rewrite hrule
  have hkept := wellKept_rewrite hmem hk (m := m)
  rwa [hact] at hkept

theorem lowers (hpass : RewritePass config pass rules op) :
    ∀ rule ∈ rules, rule.Lowers Graph.WellKept fun g => (g.idsWith op).card :=
  fun rule hrule => ⟨hpass.declines rule hrule, fun _ _ _ _ hk h =>
    ⟨hpass.wellKept_of_applied hk hrule h, (hpass.card_idsWith_of_applied hk hrule h).1⟩⟩

/-- **The rewrites come to an end by themselves.**  In a well-kept graph every application of a rule
lowers the number of live nodes with the operation that the pass is after, and unless these are
reversals, lowers it by exactly one.  A run of the pass without tolerated errors that succeeds applies
no more rules than there are such nodes at the beginning, in at most one more iteration than
applications.  If more iterations are allowed than there are such nodes, it ends with a traversal that
applies nothing. -/
theorem converges (hpass : RewritePass config pass rules op) (hk : g.WellKept) :
    (∀ rule ∈ rules, ∀ id nodes g', (rule.attempt id).apply g = (.ok (.applied nodes), g') →
      (g'.findOps [op]).length < (g.findOps [op]).length ∧
        (op ≠ .reverseSequence → (g'.findOps [op]).length + 1 = (g.findOps [op]).length)) ∧
      ∀ r g', config.continueOnError = false → pass.run.apply g = (.ok r, g') →
        r.applied ≤ (g.findOps [op]).length ∧ r.iterations ≤ r.applied + 1 ∧
          ((g.findOps [op]).length < config.maxIterations →
            ∃ k, Rounds config rules g {} (List.replicate k true ++ [false]) g' r) := by
  constructor
  · intro rule hrule id nodes g' h
    rw [hk.length_findOps, (hpass.wellKept_of_applied hk hrule h).length_findOps]
    exact hpass.card_idsWith_of_applied hk hrule h
  · intro r g' hstrict hrun
    rw [hpass.run_eq] at hrun
    rw [hk.length_findOps]
    refine settles_of_runRules hpass.lowers hstrict (fun g hg => ⟨hg.compact, ?_⟩) hk hrun
    rw [Graph.idsWith_compact]

/-- The one iterator is converted in the first of two traversals, and nothing is left for the second
one. -/
theorem converges_recurrentLoop :
    let g := LoopPlan.recurrentLoop LoopPlan.bothOutputs
    let config : RunConfig := { maxIterations := 2 }
    let rules := [.lstm, .rnn, .gru].map iteratorRule
    let attempt := ((iteratorRule .rnn).attempt 2).apply g
    let run := (Dataflow.convertIterators config).run.apply g
    RewritePass config (Dataflow.convertIterators config) rules .tensorIterator ∧ g.WellKept ∧
      (g.findOps [.tensorIterator]).length = 1 ∧ attempt.1 = .ok (.applied [2]) ∧
        (attempt.2.findOps [.tensorIterator]).length + 1 = 1 ∧
          run.1 = .ok { matched := 2, applied := 1, eliminated := 1, iterations := 2, nodes := [2] } ∧
            ∃ k, Rounds config rules g {} (List.replicate k true ++ [false]) run.2
              { matched := 2, applied := 1, eliminated := 1, iterations := 2, nodes := [2] } := by
  intro g config rules attempt run
  have hpass : RewritePass config (Dataflow.convertIterators config) rules .tensorIterator :=
    .convertIterators
  have hk : g.WellKept := (LoopPlan.recurrentLoop_sound LoopPlan.bothOutputs).1
  have hone : (g.findOps [.tensorIterator]).length = 1 := by decide +kernel
  have happlied : attempt.1 = .ok (.applied [2]) := by decide +kernel
  have hrun : run.1 =
      .ok { matched := 2, applied := 1, eliminated := 1, iterations := 2, nodes := [2] } := by
    decide +kernel
  have hafter : attempt = (.ok (.applied [2]), attempt.2) := by
    rw [← happlied]
  have hfinal : run = (.ok
      { matched := 2, applied := 1, eliminated := 1, iterations := 2, nodes := [2] }, run.2) := by
    rw [← hrun]
  obtain ⟨hlowered, hsettled⟩ := converges hpass hk
  have hloops := (hlowered (iteratorRule .rnn) (by simp [rules]) 2 [2] attempt.2 hafter).2 (by decide)
  have hrounds := (hsettled _ run.2 rfl hfinal).2.2 (by rw [hone]; decide)
  exact ⟨hpass, hk, hone, happlied, hone ▸ hloops, hrun, hrounds⟩

end RewritePass

end Dataflow
