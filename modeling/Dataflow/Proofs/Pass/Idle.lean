import Dataflow.Proofs.Pass.Rounds
import Dataflow.Proofs.Rule

/-!
# Rules that decline all their matches

A rule that declines all its matches at a node is passed over there: the graph stays as it is, and the
next rule is tried.  If all rules of a traversal decline all their matches in the graph, then the whole
traversal does nothing but count matches.

## Main definitions

* `Trial.Passes` : a trial without an effect.

## Main statements

* `Trial.passes_of_idleAt` : where a rule declines all its matches, its trial has no effect.
* `exists_visitNode_of_idleAt` : what is done at a node goes on with the other rules.
* `settled_of_idle` : rules that decline all their matches leave the graph as it is.
-/

namespace Dataflow

variable {β : Type} {config : RunConfig} {rules : List (Rule β)} {rule : Rule β} {g : Graph β}
  {id : Nat}

namespace Trial

/-- A trial without an effect: it leaves the graph as it is, neither applies nor fails, and adds a
match to the tally at most. -/
structure Passes (config : RunConfig) (t : Trial β) : Prop where
  after : t.after = t.before
  nodes? : t.nodes? = none
  failure? : t.failure? config = none
  tally : ∃ k, ∀ report, t.tally report = Report.countMatches report k

theorem passes_of_idleAt {t : Trial β} (h : t.rule.IdleAt t.before t.id) (hrule : t.rule.Declines) :
    t.Passes config := by
  obtain ⟨outcome, hattempt, hnot⟩ := h.attempt hrule
  have hresult : t.result = .ok outcome := by rw [result, hattempt]
  have hafter : t.after = t.before := by rw [after, hattempt]
  cases outcome with
  | noMatch =>
    exact ⟨hafter, by simp [nodes?, hresult], by simp [failure?, hresult],
      0, fun report => by simp [tally, hresult]⟩
  | declined =>
    exact ⟨hafter, by simp [nodes?, hresult], by simp [failure?, hresult],
      1, fun report => by simp [tally, hresult]⟩
  | applied nodes => exact absurd rfl (hnot nodes)

/-- Trials that follow on one another and have no effect as long as the graph is the first one. -/
theorem Linked.passes {log : List (Trial β)} (h : Linked g log)
    (hlog : ∀ t ∈ log, t.before = g → t.Passes config) :
    final g log = g ∧ (∀ t ∈ log, t.nodes? = none ∧ t.failure? config = none) ∧
      ∃ k, ∀ report, log.foldl tally report = Report.countMatches report k := by
  induction log with
  | nil => exact ⟨rfl, by simp, 0, fun report => rfl⟩
  | cons t log ih =>
    obtain ⟨hbefore, h⟩ := h
    obtain ⟨ht, hlog⟩ := List.forall_mem_cons.1 hlog
    obtain ⟨hafter, hnodes, hfailure, j, hj⟩ := ht hbefore
    have hsame : t.after = g := hafter.trans hbefore
    rw [hsame] at h
    obtain ⟨hfinal, hrest, k, hk⟩ := ih h hlog
    refine ⟨?_, List.forall_mem_cons.2 ⟨⟨hnodes, hfailure⟩, hrest⟩, j + k, fun report => ?_⟩
    · rw [final, List.foldl_cons, hsame]
      exact hfinal
    · rw [List.foldl_cons, hj, hk, Report.countMatches_countMatches]

end Trial

/-- A rule that declines all its matches at a node is passed over there. -/
theorem exists_visitNode_of_idleAt (h : rule.IdleAt g id) (hrule : rule.Declines)
    (config : RunConfig) (rest : List (Rule β)) :
    ∃ k, ∀ report, (visitNode config id (rule :: rest) report).apply g =
      (visitNode config id rest (report.countMatches k)).apply g := by
  obtain ⟨hafter, hnodes, hfailure, k, hk⟩ :=
    (Trial.passes_of_idleAt h hrule : (⟨id, rule, g⟩ : Trial β).Passes config)
  refine ⟨k, fun report => ?_⟩
  rw [apply_visitNode_cons]
  dsimp only
  rw [hfailure, hnodes, hafter, hk]

/-- Rules that decline all their matches leave the graph as it is. -/
theorem settled_of_idle (hrules : ∀ rule ∈ rules, rule.Declines)
    (h : ∀ rule ∈ rules, ∀ id, rule.IdleAt g id) : Settled config rules g := by
  have hpasses : ∀ t ∈ trials config rules g, t.before = g → t.Passes config := by
    intro t ht hbefore
    have hmem : t.rule ∈ rules := (mem_trialsFrom ht).2.2
    exact Trial.passes_of_idleAt (hbefore ▸ h t.rule hmem t.id) (hrules t.rule hmem)
  obtain ⟨hfinal, hnone, k, hk⟩ := linked_trialsFrom.passes hpasses
  refine ⟨k, fun start => apply_traverse_ok_iff.2 ⟨fun t ht => (hnone t ht).2, (hk start).symm, ?_,
    hfinal.symm⟩⟩
  exact (List.any_eq_false.2 fun t ht => by simp [(hnone t ht).1]).symm

end Dataflow
