import Dataflow.Proofs.Pass.Trials

/-!
# The rounds of a run

A run repeats traversals.  It ends with the first one that applies nothing, or else after as many as
its configuration allows.  A run that succeeds is described here by its rounds: for each of them it is
noted whether anything was applied.

What a traversal adds to the report can be counted in its trials, and so can what a run adds.

## Main definitions

* `Rounds` : traversals in turn.

## Main statements

* `exists_rounds_of_runRulesFor` : how a run that succeeds ends.
* `Rounds.length_eq_iterations`, `Rounds.count_le_applied` : every round is counted, and every round
  that applies something applies a rule at least once.
-/

namespace Dataflow

variable {β : Type} {config : RunConfig} {rules : List (Rule β)} {g g' : Graph β}
  {report r : Report} {changed : Bool} {changes : List Bool}

/-! ### The report of a traversal -/

namespace Report

@[simp] theorem applied_countIterations (r : Report) (k : Nat) :
    (r.countIterations k).applied = r.applied :=
  rfl

@[simp] theorem eliminated_countIterations (r : Report) (k : Nat) :
    (r.countIterations k).eliminated = r.eliminated :=
  rfl

@[simp] theorem iterations_countIterations (r : Report) (k : Nat) :
    (r.countIterations k).iterations = r.iterations + k :=
  rfl

@[simp] theorem applied_recordElimination (r : Report) (k : Nat) :
    (r.recordElimination k).applied = r.applied :=
  rfl

@[simp] theorem eliminated_recordElimination (r : Report) (k : Nat) :
    (r.recordElimination k).eliminated = r.eliminated + k :=
  rfl

@[simp] theorem iterations_recordElimination (r : Report) (k : Nat) :
    (r.recordElimination k).iterations = r.iterations :=
  rfl

end Report

namespace Trial

/-- The number of the trials in which a rule has applied. -/
def applications (log : List (Trial β)) : Nat :=
  log.countP (·.nodes?.isSome)

variable {log : List (Trial β)} {t : Trial β}

/-- A trial counts at most one match, and one change, with its root, if the rule has applied. -/
theorem tally_cases (report : Report) (t : Trial β) :
    t.nodes? = none ∧ (t.tally report = report ∨ t.tally report = report.countMatches 1) ∨
      t.nodes?.isSome = true ∧ t.tally report = (report.countMatches 1).record t.id := by
  rw [nodes?, tally]
  rcases t.result with e | _ | _ | nodes <;> simp

/-- What every trial of a list does to a tally, all of them do. -/
theorem foldl_tally_induction {Q : Report → Prop}
    (hstep : ∀ report, Q report → ∀ t : Trial β, Q (t.tally report)) (h : Q report) :
    Q (log.foldl tally report) := by
  induction log generalizing report with
  | nil => exact h
  | cons t log ih => exact ih (hstep report h t)

theorem iterations_foldl_tally : (log.foldl tally report).iterations = report.iterations := by
  refine foldl_tally_induction (Q := fun r => r.iterations = report.iterations) ?_ rfl
  rintro r hr t
  obtain ⟨-, h | h⟩ | ⟨-, h⟩ := tally_cases r t <;> rw [h] <;> exact hr

theorem eliminated_foldl_tally : (log.foldl tally report).eliminated = report.eliminated := by
  refine foldl_tally_induction (Q := fun r => r.eliminated = report.eliminated) ?_ rfl
  rintro r hr t
  obtain ⟨-, h | h⟩ | ⟨-, h⟩ := tally_cases r t <;> rw [h] <;> exact hr

theorem applied_foldl_tally :
    (log.foldl tally report).applied = report.applied + applications log := by
  induction log generalizing report with
  | nil => rfl
  | cons t log ih =>
    rw [List.foldl_cons, ih, applications, applications, List.countP_cons]
    obtain ⟨hn, h | h⟩ | ⟨hn, h⟩ := tally_cases report t
    · simp [h, hn]
    · simp [h, hn, Report.countMatches]
    · simp only [h, hn, if_true, Report.record, Report.countMatches]
      omega

end Trial

/-! ### A run -/

/-- Traversals in turn, from the graph `g` with the tally `report` on: the list tells of each whether
it has applied anything, and in the end there are the graph `g'` and the tally `r`. -/
inductive Rounds (config : RunConfig) (rules : List (Rule β)) :
    Graph β → Report → List Bool → Graph β → Report → Prop
  | nil (g : Graph β) (report : Report) : Rounds config rules g report [] g report
  | cons {g h g' : Graph β} {report r r' : Report} {changed : Bool} {changes : List Bool} :
      (traverse config rules (report.countIterations 1)).apply g = (.ok (r, changed), h) →
      Rounds config rules (config.settle h) (r.recordElimination (h.pendingCount - g.pendingCount))
        changes g' r' →
      Rounds config rules g report (changed :: changes) g' r'

/-- A run that succeeds consists of rounds that apply something, and either there are as many of them
as there are steps, or there is a last one that applies nothing. -/
theorem exists_rounds_of_runRulesFor {steps : Nat}
    (hrun : (runRulesFor config rules steps report).apply g = (.ok r, g')) :
    Rounds config rules g report (List.replicate steps true) g' r ∨
      ∃ k < steps, Rounds config rules g report (List.replicate k true ++ [false]) g' r := by
  induction steps generalizing g report with
  | zero =>
    simp only [runRulesFor, Edit.apply_pure, Prod.mk.injEq, Except.ok.injEq] at hrun
    obtain ⟨rfl, rfl⟩ := hrun
    exact .inl (.nil g report)
  | succ steps ih =>
    rcases htraverse : (traverse config rules (report.countIterations 1)).apply g with
      ⟨e | ⟨r', changed⟩, h⟩
    · rw [apply_runRulesFor_of_error htraverse] at hrun
      simp at hrun
    · rw [apply_runRulesFor_succ htraverse] at hrun
      cases changed with
      | false =>
        simp only [Bool.false_eq_true, if_false, Prod.mk.injEq, Except.ok.injEq] at hrun
        obtain ⟨rfl, rfl⟩ := hrun
        exact .inr ⟨0, Nat.succ_pos _, .cons htraverse (.nil _ _)⟩
      | true =>
        simp only [if_true] at hrun
        obtain hrounds | ⟨k, hk, hrounds⟩ := ih hrun
        · exact .inl (.cons htraverse hrounds)
        · exact .inr ⟨k + 1, Nat.succ_lt_succ hk, .cons htraverse hrounds⟩

namespace Rounds

theorem length_eq_iterations (h : Rounds config rules g report changes g' r) :
    r.iterations = report.iterations + changes.length := by
  induction h with
  | nil => rfl
  | cons htraverse _ ih =>
    obtain ⟨-, rfl, -⟩ := apply_traverse_ok_iff.1 htraverse
    simp only [Report.iterations_recordElimination, Trial.iterations_foldl_tally,
      Report.iterations_countIterations] at ih
    rw [ih, List.length_cons]
    omega

theorem count_le_applied (h : Rounds config rules g report changes g' r) :
    report.applied + changes.count true ≤ r.applied := by
  induction h with
  | nil => exact Nat.le_refl _
  | @cons g h g' report r r' changed changes htraverse _ ih =>
    obtain ⟨-, rfl, rfl, -⟩ := apply_traverse_ok_iff.1 htraverse
    simp only [Report.applied_recordElimination, Trial.applied_foldl_tally,
      Report.applied_countIterations] at ih
    rw [List.count_cons]
    split
    · next hany =>
      have hpos : 0 < Trial.applications (trials config rules g) := by
        obtain ⟨t, ht, hn⟩ := List.any_eq_true.1 (beq_iff_eq.1 hany)
        exact List.countP_pos_iff.2 ⟨t, ht, hn⟩
      omega
    · omega

end Rounds

end Dataflow
