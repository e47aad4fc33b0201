import Dataflow.Pass.Action
import Dataflow.Pass.Run
import Dataflow.Proofs.Graph.Compaction
import Dataflow.Proofs.Rule

/-!
# Fixed points of a run

A run of rules comes to an end with a traversal that applies nothing.  When the actions leave the
graph as it is unless they answer yes, that traversal does not change the graph, and it goes the
same way again when it is repeated.  The traversal before it has ended in a compaction, so that the
compaction at the very end has nothing to empty and, without cycles, nothing to sort.  The graph of
the end is therefore a fixed point: a second run finds the same matches, and applies none.

## Main definitions

* `Rule.Atomic` : the rule's action changes the graph only when it answers yes.
* `Settled` : a traversal of the graph applies nothing and leaves it as it is.
* `RunConfig.settle` : what is done to a graph between two traversals.

## Main statements

* `Rule.Atomic.atomicAt` : an atomic rule applies at a node or leaves the graph as it is.
* `settled_of_traverse` : a traversal that applies nothing shows that the graph is settled.
* `exists_settled_of_runRulesFor` : where a run that ends early ends.
* `runRules_of_converged` : a second run applies nothing.
-/

namespace Dataflow

variable {β : Type} {config : RunConfig} {rules : List (Rule β)} {g g' : Graph β}

/-! ### One rule at a node -/

namespace Rule

variable {rule : Rule β} {id : Nat}

/-- An action of the rule that does not answer yes leaves the graph as it is. -/
def Atomic (rule : Rule β) : Prop :=
  ∀ m g, ((rule.action m).apply g).1 ≠ .ok true → ((rule.action m).apply g).2 = g

theorem Atomic.declines (h : rule.Atomic) : rule.Declines := by
  intro m g g' hout
  have hsame := h m g (by simp [hout])
  rwa [hout] at hsame

/-- Wherever an atomic rule is tried, it applies or leaves the graph as it is. -/
theorem Atomic.atomicAt (h : rule.Atomic) (g : Graph β) (id : Nat) : rule.AtomicAt g id := by
  obtain ⟨⟨_, hattempt, -⟩, -⟩ | ⟨m, -, -, hattempt⟩ := attempt_cases h.declines g id
  · exact .inr (by rw [hattempt])
  · rw [AtomicAt, hattempt]
    by_cases hyes : ((rule.action m).apply g).1 = .ok true
    · exact .inl ⟨m.nodes, by simp [hyes, Except.map]⟩
    · exact .inr (h m g hyes)

theorem apply_attemptOrSkip (config : RunConfig) (rule : Rule β) (id : Nat) (g : Graph β) :
    (rule.attemptOrSkip config id).apply g =
      match (rule.attempt id).apply g with
      | (.ok outcome, g') => (.ok (some outcome), g')
      | (.error e, g') =>
        if config.continueOnError && e.isReported then (.ok none, g') else (.error e, g') := by
  rw [attemptOrSkip, Edit.apply_tryCatch, Edit.apply_map]
  rcases (rule.attempt id).apply g with ⟨e | outcome, g'⟩
  · simp only [Except.map]
    split <;> rfl
  · rfl

/-- An atomic rule that is tried, or skipped because of an error, leaves the graph as it is unless
it applies. -/
theorem Atomic.attemptOrSkip (h : rule.Atomic) {outcome : Option Outcome}
    (hrun : (rule.attemptOrSkip config id).apply g = (.ok outcome, g')) :
    (∃ nodes, outcome = some (.applied nodes)) ∨ g' = g := by
  rw [apply_attemptOrSkip] at hrun
  have hatomic := h.atomicAt g id
  rw [AtomicAt] at hatomic
  rcases hattempt : (rule.attempt id).apply g with ⟨e | o, g''⟩
  · rw [hattempt] at hrun hatomic
    obtain rfl : g'' = g := by simpa using hatomic
    simp only at hrun
    split at hrun
    · exact .inr (Prod.mk.inj hrun).2.symm
    · simp at hrun
  · rw [hattempt] at hrun hatomic
    simp only [Prod.mk.injEq, Except.ok.injEq] at hrun hatomic
    obtain ⟨rfl, rfl⟩ := hrun
    exact hatomic.imp_left (Exists.imp fun nodes hn => by rw [hn])

end Rule

/-! ### One traversal -/

namespace Report

@[simp] theorem countMatches_zero (r : Report) : r.countMatches 0 = r :=
  rfl

@[simp] theorem countMatches_countMatches (r : Report) (j k : Nat) :
    (r.countMatches j).countMatches k = r.countMatches (j + k) := by
  rw [countMatches, countMatches, countMatches, Nat.add_assoc]

end Report

/-- A rule that does not apply at a node is passed over, whatever has been reported before. -/
theorem exists_visitNode_cons {rule : Rule β} (hrule : rule.Atomic) {id : Nat}
    {report r : Report}
    (h : (visitNode config id (rule :: rules) report).apply g = (.ok (r, none), g')) :
    ∃ j, ∀ start : Report, (visitNode config id (rule :: rules) start).apply g =
      (visitNode config id rules (start.countMatches j)).apply g := by
  rw [visitNode, Edit.apply_bind_ok_iff] at h
  obtain ⟨outcome, g₁, htried, hvisit⟩ := h
  have hsame := hrule.attemptOrSkip htried
  rcases outcome with _ | _ | _ | nodes
  case some.applied => simp at hvisit
  all_goals
    obtain rfl : g₁ = g := by simpa using hsame
  case some.noMatch => exact ⟨0, fun start => by rw [visitNode, Edit.apply_bind_of_ok htried]; rfl⟩
  all_goals exact ⟨1, fun start => by rw [visitNode, Edit.apply_bind_of_ok htried]⟩

/-- Where no rule applies at a node, the graph stays as it is, and the rules do the same again
whatever has been reported before. -/
theorem exists_countMatches_of_visitNode (hrules : ∀ rule ∈ rules, rule.Atomic) {id : Nat}
    {report r : Report} (h : (visitNode config id rules report).apply g = (.ok (r, none), g')) :
    ∃ k, ∀ start : Report,
      (visitNode config id rules start).apply g = (.ok (start.countMatches k, none), g) := by
  induction rules generalizing report with
  | nil => exact ⟨0, fun start => rfl⟩
  | cons rule rest ih =>
    obtain ⟨hrule, hrest⟩ := List.forall_mem_cons.1 hrules
    obtain ⟨j, hj⟩ := exists_visitNode_cons hrule h
    rw [hj] at h
    obtain ⟨k, hk⟩ := ih hrest h
    exact ⟨j + k, fun start => by rw [hj, hk, Report.countMatches_countMatches]⟩

/-- What is done with the outcome at a node before the rest of the nodes is visited. -/
def traverseRest (config : RunConfig) (rules : List (Rule β)) (id : Nat) (rest matched : List Nat)
    (changed : Bool) : Report × Option (List Nat) → Edit β (Report × Bool)
  | (report, none) => traverseFrom config rules rest matched report changed
  | (report, some nodes) => traverseFrom config rules rest (id :: nodes ++ matched) report true

theorem apply_traverseFrom_cons (config : RunConfig) (rules : List (Rule β)) (id : Nat)
    (rest matched : List Nat) (report : Report) (changed : Bool) (g : Graph β) :
    (traverseFrom config rules (id :: rest) matched report changed).apply g =
      if matched.contains id || (g.live? id).isNone then
        (traverseFrom config rules rest matched report changed).apply g
      else
        (visitNode config id rules report >>=
          traverseRest config rules id rest matched changed).apply g := by
  rw [traverseFrom, Edit.apply_bind_of_ok (Edit.apply_get g)]
  split <;> rfl

/-- Once a rule has applied in a traversal, the traversal knows. -/
theorem changed_of_traverseFrom {ids matched : List Nat} {report r : Report} {changed : Bool}
    (h : (traverseFrom config rules ids matched report true).apply g = (.ok (r, changed), g')) :
    changed = true := by
  induction ids generalizing matched report g with
  | nil =>
    simp only [traverseFrom, Edit.apply_pure, Prod.mk.injEq, Except.ok.injEq] at h
    exact h.1.2.symm
  | cons id rest ih =>
    rw [apply_traverseFrom_cons] at h
    split at h
    · exact ih h
    · obtain ⟨⟨report', nodes⟩, g₁, -, hrest⟩ := Edit.apply_bind_ok_iff.1 h
      cases nodes with
      | none => exact ih hrest
      | some nodes => exact ih hrest

/-- A traversal in which no rule applies leaves the graph as it is, and goes the same way again
whatever has been reported before. -/
theorem exists_countMatches_of_traverseFrom (hrules : ∀ rule ∈ rules, rule.Atomic)
    {ids matched : List Nat} {report r : Report}
    (h : (traverseFrom config rules ids matched report false).apply g = (.ok (r, false), g')) :
    ∃ k, ∀ start : Report, (traverseFrom config rules ids matched start false).apply g =
      (.ok (start.countMatches k, false), g) := by
  induction ids generalizing report with
  | nil => exact ⟨0, fun start => rfl⟩
  | cons id rest ih =>
    simp only [apply_traverseFrom_cons] at h ⊢
    by_cases hover : (matched.contains id || (g.live? id).isNone) = true
    · simp only [if_pos hover] at h ⊢
      exact ih h
    · simp only [if_neg hover] at h ⊢
      obtain ⟨⟨report', nodes⟩, g₁, hvisit, hrest⟩ := Edit.apply_bind_ok_iff.1 h
      cases nodes with
      | some nodes => exact absurd (changed_of_traverseFrom hrest) (by simp)
      | none =>
        obtain ⟨j, hj⟩ := exists_countMatches_of_visitNode hrules hvisit
        obtain rfl : g = g₁ := (Prod.mk.inj ((hj report).symm.trans hvisit)).2
        obtain ⟨k, hk⟩ := ih hrest
        refine ⟨j + k, fun start => ?_⟩
        rw [Edit.apply_bind_of_ok (hj start), traverseRest, hk, Report.countMatches_countMatches]

/-- Iterations are not counted at a node. -/
theorem iterations_of_visitNode {id : Nat} {report r : Report} {nodes : Option (List Nat)}
    (h : (visitNode config id rules report).apply g = (.ok (r, nodes), g')) :
    r.iterations = report.iterations := by
  induction rules generalizing report g with
  | nil =>
    simp only [visitNode, Edit.apply_pure, Prod.mk.injEq, Except.ok.injEq] at h
    rw [← h.1.1]
  | cons rule rest ih =>
    rw [visitNode, Edit.apply_bind_ok_iff] at h
    obtain ⟨outcome, g₁, -, hvisit⟩ := h
    rcases outcome with _ | _ | _ | nodes
    case some.applied =>
      simp only [Edit.apply_pure, Prod.mk.injEq, Except.ok.injEq] at hvisit
      rw [← hvisit.1.1]
      rfl
    all_goals exact (ih hvisit).trans rfl

theorem iterations_of_traverseFrom {ids matched : List Nat} {report r : Report}
    {before changed : Bool}
    (h : (traverseFrom config rules ids matched report before).apply g = (.ok (r, changed), g')) :
    r.iterations = report.iterations := by
  induction ids generalizing matched report before g with
  | nil =>
    simp only [traverseFrom, Edit.apply_pure, Prod.mk.injEq, Except.ok.injEq] at h
    rw [← h.1.1]
  | cons id rest ih =>
    rw [apply_traverseFrom_cons] at h
    split at h
    · exact ih h
    · obtain ⟨⟨report', nodes⟩, g₁, hvisit, hrest⟩ := Edit.apply_bind_ok_iff.1 h
      rw [← iterations_of_visitNode hvisit]
      cases nodes with
      | none => exact ih hrest
      | some nodes => exact ih hrest

/-- A traversal of the graph applies nothing and leaves it as it is, whatever has been reported
before. -/
def Settled (config : RunConfig) (rules : List (Rule β)) (g : Graph β) : Prop :=
  ∃ k, ∀ start : Report,
    (traverse config rules start).apply g = (.ok (start.countMatches k, false), g)

theorem apply_traverse (config : RunConfig) (rules : List (Rule β)) (report : Report)
    (g : Graph β) : (traverse config rules report).apply g =
      (traverseFrom config rules g.order [] report false).apply g := by
  rw [traverse, Edit.apply_bind_of_ok (Edit.apply_get g)]

/-- A graph is settled once a traversal has applied nothing. -/
theorem settled_of_traverse (hrules : ∀ rule ∈ rules, rule.Atomic) {report r : Report}
    (h : (traverse config rules report).apply g = (.ok (r, false), g')) :
    Settled config rules g := by
  simp only [Settled, apply_traverse] at h ⊢
  exact exists_countMatches_of_traverseFrom hrules h

/-! ### A run -/

/-- What is done to a graph after a traversal. -/
def RunConfig.settle (config : RunConfig) (g : Graph β) : Graph β :=
  if config.compactAfter then g.compact.2 else g

/-- What follows a traversal in a run. -/
theorem apply_runRulesFor_succ {steps : Nat} {report r : Report} {changed : Bool}
    (h : (traverse config rules (report.countIterations 1)).apply g = (.ok (r, changed), g')) :
    (runRulesFor config rules (steps + 1) report).apply g =
      let r := r.recordElimination (g'.pendingCount - g.pendingCount)
      if changed then (runRulesFor config rules steps r).apply (config.settle g')
      else (.ok r, config.settle g') := by
  rw [runRulesFor, Edit.apply_bind_of_ok (Edit.apply_get g), Edit.apply_bind_of_ok h,
    Edit.apply_bind_of_ok (Edit.apply_get g')]
  have hsettle : (if config.compactAfter = true then modify fun g => g.compact.2 else pure ⟨⟩ :
      Edit β PUnit).apply g' = (.ok ⟨⟩, config.settle g') := by
    rw [RunConfig.settle]
    split <;> rfl
  have hrest := Edit.apply_bind_of_ok (f := fun _ =>
    if changed = true then runRulesFor config rules steps
      (r.recordElimination (g'.pendingCount - g.pendingCount))
    else pure (r.recordElimination (g'.pendingCount - g.pendingCount))) hsettle
  cases hc : config.compactAfter <;> cases changed <;> simpa [hc] using hrest

/-- An error of a traversal ends the run. -/
theorem apply_runRulesFor_of_error {steps : Nat} {report : Report} {e : Error}
    (h : (traverse config rules (report.countIterations 1)).apply g = (.error e, g')) :
    (runRulesFor config rules (steps + 1) report).apply g = (.error e, g') := by
  rw [runRulesFor, Edit.apply_bind_of_ok (Edit.apply_get g), Edit.apply_bind, h]

/-- A run that ends before its steps are used up ends with the compaction of a settled graph: the
graph of the start, of which it has changed nothing, or else one that was compacted before. -/
theorem exists_settled_of_runRulesFor (hrules : ∀ rule ∈ rules, rule.Atomic)
    (hcompact : config.compactAfter = true) {steps : Nat} {report r : Report}
    (h : (runRulesFor config rules steps report).apply g = (.ok r, g'))
    (hearly : r.iterations < report.iterations + steps) :
    ∃ h, Settled config rules h ∧ g' = h.compact.2 ∧
      (h = g ∧ r.applied = report.applied ∨ ∃ x : Graph β, h = x.compact.2) := by
  induction steps generalizing report g with
  | zero =>
    simp only [runRulesFor, Edit.apply_pure, Prod.mk.injEq, Except.ok.injEq] at h
    rw [h.1] at hearly
    exact absurd hearly (Nat.lt_irrefl _)
  | succ steps ih =>
    rcases htraverse : (traverse config rules (report.countIterations 1)).apply g with
      ⟨e | ⟨report', changed⟩, g₁⟩
    · rw [apply_runRulesFor_of_error htraverse] at h
      simp at h
    · rw [apply_runRulesFor_succ htraverse, RunConfig.settle, if_pos hcompact] at h
      cases changed with
      | false =>
        obtain ⟨k, hk⟩ := settled_of_traverse hrules htraverse
        rw [hk] at htraverse
        simp only [Prod.mk.injEq, Except.ok.injEq, and_true] at htraverse
        obtain ⟨rfl, rfl⟩ := htraverse
        simp only [Bool.false_eq_true, if_false, Prod.mk.injEq, Except.ok.injEq] at h
        obtain ⟨rfl, rfl⟩ := h
        exact ⟨g, ⟨k, hk⟩, rfl, .inl ⟨rfl, rfl⟩⟩
      | true =>
        have hiter := iterations_of_traverseFrom ((apply_traverse ..).symm.trans htraverse)
        simp only [if_true] at h
        have hearly' : r.iterations <
            (report'.recordElimination (g₁.pendingCount - g.pendingCount)).iterations + steps := by
          simp only [Report.recordElimination, hiter, Report.countIterations]
          omega
        obtain ⟨h', hsettled, hlast, hfrom⟩ := ih h hearly'
        refine ⟨h', hsettled, hlast, .inr ?_⟩
        obtain ⟨rfl, -⟩ | hx := hfrom
        · exact ⟨g₁, rfl⟩
        · exact hx

/-- A run on a settled graph is one traversal, and what is done after it. -/
theorem Settled.runRules_settle (h : Settled config rules g) (hsteps : 0 < config.maxIterations) :
    ∃ k, (runRules config rules).apply g =
      (.ok { matched := k, iterations := 1 }, config.settle g) := by
  obtain ⟨k, hk⟩ := h
  obtain ⟨steps, hsteps⟩ := Nat.exists_eq_add_of_lt hsteps
  refine ⟨k, ?_⟩
  rw [runRules, hsteps, apply_runRulesFor_succ (hk _)]
  simp [Report.recordElimination, Report.countMatches, Report.countIterations]

/-- A settled graph that compaction leaves as it is is a fixed point. -/
theorem Settled.runRules (h : Settled config rules g) (hcompact : config.compactAfter = true)
    (hsteps : 0 < config.maxIterations) (hg : g.compact.2 = g) :
    ∃ k, (runRules config rules).apply g = (.ok { matched := k, iterations := 1 }, g) := by
  have hrun := h.runRules_settle hsteps
  rwa [RunConfig.settle, if_pos hcompact, hg] at hrun

/-- **A converged run ends in a fixed point.**  Let the actions of the rules change the graph only
when they answer yes, and let a run that compacts the graph after every traversal apply some rule
and end before its iterations are used up.  If the nodes of the final graph form no cycle, then the
same run on that graph takes one iteration, applies nothing, eliminates nothing, and leaves the
graph exactly as it is. -/
theorem runRules_of_converged (hrules : ∀ rule ∈ rules, rule.Atomic)
    (hcompact : config.compactAfter = true) {r : Report}
    (hrun : (runRules config rules).apply g = (.ok r, g')) (happlied : 0 < r.applied)
    (hearly : r.iterations < config.maxIterations) (hacyclic : g'.Acyclic) :
    ∃ k, (runRules config rules).apply g' = (.ok { matched := k, iterations := 1 }, g') := by
  obtain ⟨h, hsettled, rfl, ⟨-, hnone⟩ | ⟨x, rfl⟩⟩ :=
    exists_settled_of_runRulesFor hrules hcompact hrun (by simpa using hearly)
  · exact absurd happlied (by simp [hnone])
  · -- The graph of the last traversal is the compaction of `x`, so compacting it does nothing.
    have hx : x.Acyclic := Graph.acyclic_compact.1 (Graph.acyclic_compact.1 hacyclic)
    rw [Graph.compact_compact hx.topological_compact]
    exact hsettled.runRules hcompact (Nat.zero_lt_of_lt hearly)
      (by rw [Graph.compact_compact hx.topological_compact])

/-! ### Two rectifiers -/

/-- An action that replaces a node by one of its inputs changes nothing where there is no such
input. -/
theorem Rule.atomic_of_bridge {rule : Rule β} {input : Nat}
    (h : rule.action = Action.bridge input) : rule.Atomic := by
  intro m g hno
  rw [h, Action.bridge, Edit.apply_bind_of_ok (Edit.apply_get g)] at hno ⊢
  cases hb : g.bridge m.root.node input with
  | none => rfl
  | some p =>
    rw [hb] at hno
    exact absurd rfl hno

/-- Rectifiers are replaced by their inputs. -/
def rectifierRule : Rule Unit where
  name := "bridge_rectifiers"
  pattern := ⟨[{ kind := .op [.relu] [] }]⟩
  action := Action.bridge 0

/-- The sum of a rectified parameter with itself, rectified. -/
def rectifiedSum : Graph Unit :=
  .ofSpecs
    [{ op := .parameter, outputs := [.planar (.ofLengths [2]) .f32] },
      { op := .relu, inputs := [⟨0, 0⟩], outputs := [.planar (.ofLengths [2]) .f32] },
      { op := .add, inputs := [⟨1, 0⟩, ⟨1, 0⟩], outputs := [.planar (.ofLengths [2]) .f32] },
      { op := .relu, inputs := [⟨2, 0⟩], outputs := [.planar (.ofLengths [2]) .f32] }] [⟨3, 0⟩]

/-- Both rectifiers are taken out in the first traversal, and running the rule again on what is left
changes nothing. -/
theorem runRules_rectifiedSum :
    let run := (runRules {} [rectifierRule]).apply rectifiedSum
    (∀ rule ∈ [rectifierRule], rule.Atomic) ∧
      run.1 = .ok { matched := 2, applied := 2, eliminated := 2, iterations := 2, nodes := [1, 3] } ∧
        run.2.Acyclic ∧ run.2.uses ⟨0, 0⟩ = [⟨2, 0⟩, ⟨2, 1⟩] ∧
          ∃ k, (runRules {} [rectifierRule]).apply run.2 =
            (.ok { matched := k, iterations := 1 }, run.2) := by
  intro run
  have hatomic : ∀ rule ∈ [rectifierRule], rule.Atomic :=
    List.forall_mem_singleton.2 (Rule.atomic_of_bridge rfl)
  have hrun : run.1 = .ok
      { matched := 2, applied := 2, eliminated := 2, iterations := 2, nodes := [1, 3] } := by
    decide +kernel
  have hacyclic : run.2.Acyclic := (Graph.ascending_of_all (by decide +kernel)).acyclic
  exact ⟨hatomic, hrun, hacyclic, by decide +kernel,
    runRules_of_converged hatomic rfl (g := rectifiedSum) (Prod.ext hrun rfl) (by decide)
      (by decide) hacyclic⟩

end Dataflow
