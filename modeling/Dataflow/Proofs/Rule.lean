import Dataflow.Pass.Rule
import Dataflow.Proofs.Edit
import Dataflow.Proofs.Graph.Slots

/-!
# Trying a rule at a node

A rule that applies at a node has matched one of the node's outputs, and its action has answered
yes.  Where the action answers no it must have left the graph as it was, so that the match and the
action are those of the graph before.

## Main definitions

* `Rule.Declines` : a declined match leaves the graph as it is.
* `Rule.MatchesAt` : a match at an output of a node.
* `Rule.AtomicAt` : the rule applies at a node or leaves the graph as it is.
* `Rule.IdleAt` : the rule declines all its matches at a node.

## Main statements

* `Rule.attempt_cases` : what trying a rule at a node comes down to.
* `Rule.exists_match_of_applied` : where a rule has applied.
* `Rule.atomicAt_iff` : when a rule applies or leaves the graph as it is.
-/

namespace Dataflow

namespace Rule

variable {β : Type} {rule : Rule β} {g g' : Graph β} {id : Nat} {nodes : List Nat}

/-- An action of the rule that answers no leaves the graph as it is. -/
def Declines (rule : Rule β) : Prop :=
  ∀ m g g', (rule.action m).apply g = (.ok false, g') → g' = g

/-- The pattern of the rule matches an output of a live node. -/
def MatchesAt (rule : Rule β) (g : Graph β) (id : Nat) (m : Match) : Prop :=
  ∃ n i, g.live? id = some n ∧ i < n.outputs.length ∧ rule.pattern.matchValue g ⟨id, i⟩ = some m

/-- Trying the rule at a node either applies it or leaves the graph as it is. -/
def AtomicAt (rule : Rule β) (g : Graph β) (id : Nat) : Prop :=
  (∃ nodes, ((rule.attempt id).apply g).1 = .ok (.applied nodes)) ∨ ((rule.attempt id).apply g).2 = g

/-- The rule declines all its matches at a node. -/
def IdleAt (rule : Rule β) (g : Graph β) (id : Nat) : Prop :=
  ∀ m, rule.MatchesAt g id m → ((rule.action m).apply g).1 = .ok false

private theorem attemptAt_cases (hrule : rule.Declines) (g : Graph β) (indices : List Nat)
    {sofar : Outcome} (hsofar : ∀ nodes, sofar ≠ .applied nodes) :
    ((∃ outcome, (rule.attemptAt id indices sofar).apply g = (.ok outcome, g) ∧
      ∀ nodes, outcome ≠ .applied nodes) ∧
        ∀ i ∈ indices, ∀ m, rule.pattern.matchValue g ⟨id, i⟩ = some m →
          ((rule.action m).apply g).1 = .ok false) ∨
    ∃ i ∈ indices, ∃ m, rule.pattern.matchValue g ⟨id, i⟩ = some m ∧
      ((rule.action m).apply g).1 ≠ .ok false ∧
      (rule.attemptAt id indices sofar).apply g =
        (((rule.action m).apply g).1.map fun _ => .applied m.nodes, ((rule.action m).apply g).2) := by
  induction indices generalizing sofar with
  | nil => exact .inl ⟨⟨sofar, rfl, hsofar⟩, by simp⟩
  | cons i rest ih =>
    cases hm : rule.pattern.matchValue g ⟨id, i⟩ with
    | none =>
      have hskip : (rule.attemptAt id (i :: rest) sofar).apply g =
          (rule.attemptAt id rest sofar).apply g := by
        simp only [attemptAt, Edit.apply_bind, Edit.apply_get, hm]
      rw [hskip]
      refine (ih hsofar).imp (And.imp_right fun h => ?_) fun ⟨j, hj, h⟩ =>
        ⟨j, List.mem_cons_of_mem i hj, h⟩
      exact List.forall_mem_cons.2 ⟨fun m hm' => absurd (hm.symm.trans hm') (by simp), h⟩
    | some m =>
      have hact : (rule.attemptAt id (i :: rest) sofar).apply g =
          (rule.action m >>= fun applied => if applied then pure (.applied m.nodes)
            else rule.attemptAt id rest .declined).apply g := by
        simp only [attemptAt, Edit.apply_bind, Edit.apply_get, hm]
      rw [hact, Edit.apply_bind]
      rcases hout : (rule.action m).apply g with ⟨e | applied, g'⟩
      · exact .inr ⟨i, List.mem_cons_self, m, hm, by simp [hout], by simp [hout, Except.map]⟩
      · cases applied with
        | true =>
          exact .inr ⟨i, List.mem_cons_self, m, hm, by simp [hout], by simp [hout, Except.map]⟩
        | false =>
          -- The match is declined, so that the graph is still the same.
          obtain rfl := hrule m g g' hout
          have hdeclined : ∀ nodes, Outcome.declined ≠ .applied nodes := fun _ => by simp
          refine (ih hdeclined).imp (And.imp_right fun h => ?_)
            fun ⟨j, hj, h⟩ => ⟨j, List.mem_cons_of_mem i hj, h⟩
          refine List.forall_mem_cons.2 ⟨fun m' hm' => ?_, h⟩
          obtain rfl := Option.some.inj (hm.symm.trans hm')
          rw [hout]

/-- Trying a rule at a node either leaves the graph as it is, all matches being declined, or does what
the action does with one of the matches. -/
theorem attempt_cases (hrule : rule.Declines) (g : Graph β) (id : Nat) :
    ((∃ outcome, (rule.attempt id).apply g = (.ok outcome, g) ∧
      ∀ nodes, outcome ≠ .applied nodes) ∧
        ∀ m, rule.MatchesAt g id m → ((rule.action m).apply g).1 = .ok false) ∨
    ∃ m, rule.MatchesAt g id m ∧ ((rule.action m).apply g).1 ≠ .ok false ∧
      (rule.attempt id).apply g =
        (((rule.action m).apply g).1.map fun _ => .applied m.nodes, ((rule.action m).apply g).2) := by
  cases hn : g.live? id with
  | none =>
    refine .inl ⟨⟨.noMatch, ?_, by simp⟩, fun m ⟨n, _, hn', _⟩ => absurd (hn.symm.trans hn') (by simp)⟩
    simp only [attempt, Edit.apply_bind, Edit.apply_get, hn, Edit.apply_pure]
  | some n =>
    have hall : (rule.attempt id).apply g =
        (rule.attemptAt id (List.range n.outputs.length) .noMatch).apply g := by
      simp only [attempt, Edit.apply_bind, Edit.apply_get, hn]
    rw [hall]
    refine (attemptAt_cases hrule g _ (by simp)).imp (And.imp_right fun h m => ?_) ?_
    · rintro ⟨n', i, hn', hi, hm⟩
      obtain rfl := Option.some.inj (hn.symm.trans hn')
      exact h i (List.mem_range.2 hi) m hm
    · rintro ⟨i, hi, m, hm, h⟩
      exact ⟨m, ⟨n, i, hn, List.mem_range.1 hi, hm⟩, h⟩

/-- Where all matches are declined, trying the rule leaves the graph as it is. -/
theorem IdleAt.attempt (h : rule.IdleAt g id) (hrule : rule.Declines) :
    ∃ outcome, (rule.attempt id).apply g = (.ok outcome, g) ∧
      ∀ nodes, outcome ≠ .applied nodes := by
  obtain ⟨hattempt, -⟩ | ⟨m, hm, hact, -⟩ := attempt_cases hrule g id
  · exact hattempt
  · exact absurd (h m hm) hact

/-- A rule that has applied at a node has matched an output of the node, and its action has changed
the graph. -/
theorem exists_match_of_applied (hrule : rule.Declines)
    (h : (rule.attempt id).apply g = (.ok (.applied nodes), g')) :
    ∃ n i m, g.live? id = some n ∧ i < n.outputs.length ∧
      rule.pattern.matchValue g ⟨id, i⟩ = some m ∧ nodes = m.nodes ∧
        (rule.action m).apply g = (.ok true, g') := by
  obtain ⟨⟨outcome, hattempt, hnot⟩, -⟩ | ⟨m, ⟨n, i, hn, hi, hm⟩, hact, hattempt⟩ :=
    attempt_cases hrule g id
  · rw [h] at hattempt
    exact absurd (Except.ok.inj (Prod.mk.inj hattempt).1).symm (hnot nodes)
  · rw [h] at hattempt
    refine ⟨n, i, m, hn, hi, hm, ?_⟩
    rcases hout : (rule.action m).apply g with ⟨e | applied, g''⟩
    · simp [hout, Except.map] at hattempt
    · rw [hout] at hact hattempt
      obtain rfl : applied = true := by cases applied <;> simp at hact ⊢
      simp only [Except.map, Prod.mk.injEq, Except.ok.injEq, Outcome.applied.injEq] at hattempt
      exact ⟨hattempt.1, by rw [hattempt.2]⟩

theorem atomicAt_of_unchanged (hrule : rule.Declines)
    (h : ∀ m, rule.MatchesAt g id m → ((rule.action m).apply g).2 = g) : rule.AtomicAt g id := by
  obtain ⟨⟨_, hattempt, -⟩, -⟩ | ⟨m, hm, -, hattempt⟩ := attempt_cases hrule g id
  · exact .inr (by rw [hattempt])
  · exact .inr (by rw [hattempt, h m hm])

theorem atomicAt_of_declined (hrule : rule.Declines)
    (h : ∀ m, rule.MatchesAt g id m → ((rule.action m).apply g).1 = .ok false) :
    rule.AtomicAt g id :=
  atomicAt_of_unchanged hrule fun m hm => hrule m g _ (Prod.ext (h m hm) rfl)

/-- Where all matches that are not declined come to the same, trying the rule comes to the same. -/
theorem atomicAt_iff (hrule : rule.Declines) {m : Match} (hm : rule.MatchesAt g id m)
    (hact : ((rule.action m).apply g).1 ≠ .ok false)
    (hsame : ∀ m', rule.MatchesAt g id m' → ((rule.action m').apply g).1 ≠ .ok false →
      (rule.action m').apply g = (rule.action m).apply g) :
    rule.AtomicAt g id ↔
      ((rule.action m).apply g).1 = .ok true ∨ ((rule.action m).apply g).2 = g := by
  obtain ⟨-, hdeclined⟩ | ⟨m', hm', hact', hattempt⟩ := attempt_cases hrule g id
  · exact absurd (hdeclined m hm) hact
  · rw [AtomicAt, hattempt, hsame m' hm' hact']
    refine or_congr_left ?_
    cases hout : ((rule.action m).apply g).1 with
    | error e => simp [Except.map]
    | ok applied =>
      cases applied with
      | true => simp [Except.map]
      | false => exact absurd hout hact

end Rule

end Dataflow
