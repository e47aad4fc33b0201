import Dataflow.Proofs.Pass.FixedPoint
import Dataflow.Proofs.Pass.Steps

/-!
# The trials of a traversal

A traversal tries rules at nodes, one after the other.  Written out, it is the list of these trials,
each with the graph that it began with: the next one begins with the graph that it left behind.  The
result of the traversal can be read off that list, and so can the order in which nodes and rules come
up, whatever the actions of the rules do to the graph in the meantime.

## Main definitions

* `Trial` : one rule tried at one node of a graph.
* `trialsAt`, `trialsFrom`, `trials` : the trials at a node, at several nodes, of a traversal.
* `Trial.Linked`, `Trial.final` : a list of trials that follow on one another, and their last graph.

## Main statements

* `Trial.exists_match` : where a rule applies.
* `apply_traverse_eq_trials` : the result of a traversal is that of its trials.
* `traverse_discipline` : which nodes and rules a traversal tries.
-/

namespace Dataflow

variable {β : Type} {config : RunConfig} {rules : List (Rule β)} {g g' : Graph β} {id : Nat}

/-! ### Trials -/

/-- A rule tried at a node of a graph. -/
structure Trial (β : Type) where
  id : Nat
  rule : Rule β
  before : Graph β

namespace Trial

variable {t : Trial β}

/-- What came of the trial. -/
def result (t : Trial β) : Except Error Outcome :=
  ((t.rule.attempt t.id).apply t.before).1

/-- The graph that the trial has left behind, whether or not it has failed. -/
def after (t : Trial β) : Graph β :=
  ((t.rule.attempt t.id).apply t.before).2

/-- The nodes that were matched, if the rule has applied. -/
def nodes? (t : Trial β) : Option (List Nat) :=
  match t.result with
  | .ok (.applied nodes) => some nodes
  | _ => none

/-- The error that the run ends with because of the trial. -/
def failure? (config : RunConfig) (t : Trial β) : Option Error :=
  match t.result with
  | .error e => if config.continueOnError && e.isReported then none else some e
  | .ok _ => none

/-- No further rule is tried at the node. -/
def stops (config : RunConfig) (t : Trial β) : Bool :=
  t.nodes?.isSome || (t.failure? config).isSome

/-- The tally with the trial. -/
def tally (report : Report) (t : Trial β) : Report :=
  match t.result with
  | .ok .noMatch => report
  | .ok .declined | .error _ => report.countMatches 1
  | .ok (.applied _) => (report.countMatches 1).record t.id

/-- Another rule is tried where the pattern did not match, where the action declined, and where an
error does not end the run. -/
theorem stops_eq_false_iff : t.stops config = false ↔
    t.result = .ok .noMatch ∨ t.result = .ok .declined ∨
      ∃ e, t.result = .error e ∧ config.continueOnError = true ∧ e.isReported = true := by
  rw [stops, nodes?, failure?]
  rcases t.result with e | _ | _ | nodes <;> simp

theorem nodes?_eq_some {nodes : List Nat} :
    t.nodes? = some nodes ↔ t.result = .ok (.applied nodes) := by
  rw [nodes?]
  rcases t.result with e | _ | _ | nodes' <;> simp

/-- A rule applies at live nodes only. -/
theorem live_of_nodes? (h : t.nodes?.isSome = true) : (t.before.live? t.id).isSome = true := by
  obtain ⟨nodes, h⟩ := Option.isSome_iff_exists.1 h
  rw [nodes?_eq_some, result, Rule.attempt, Edit.apply_bind_of_ok (Edit.apply_get _)] at h
  cases hn : t.before.live? t.id with
  | none => simp [hn] at h
  | some n => rfl

private theorem exists_match_of_attemptAt {rule : Rule β} {indices nodes : List Nat}
    {sofar : Outcome} (hsofar : ∀ nodes, sofar ≠ .applied nodes)
    (h : (rule.attemptAt id indices sofar).apply g = (.ok (.applied nodes), g')) :
    ∃ k i m, rule.pattern.matchValue k ⟨id, i⟩ = some m ∧ m.nodes = nodes ∧
      (rule.action m).apply k = (.ok true, g') := by
  induction indices generalizing g sofar with
  | nil => exact absurd (Except.ok.inj (Prod.mk.inj h).1) (hsofar nodes)
  | cons i rest ih =>
    rw [Rule.attemptAt, Edit.apply_bind_of_ok (Edit.apply_get g)] at h
    split at h
    · exact ih hsofar h
    · next m hm =>
      obtain ⟨applied, k, haction, h⟩ := Edit.apply_bind_ok_iff.1 h
      cases applied with
      | true =>
        simp only [if_true, Edit.apply_pure, Prod.mk.injEq, Except.ok.injEq,
          Outcome.applied.injEq] at h
        exact ⟨g, i, m, hm, h.1, h.2 ▸ haction⟩
      | false => exact ih (by simp) h

/-- Where a rule has applied, its action has taken a match at the node for which it has answered
yes. -/
theorem exists_match {nodes : List Nat} (h : t.nodes? = some nodes) :
    ∃ k i m, t.rule.pattern.matchValue k ⟨t.id, i⟩ = some m ∧ m.nodes = nodes ∧
      (t.rule.action m).apply k = (.ok true, t.after) := by
  have hattempt : (t.rule.attempt t.id).apply t.before = (.ok (.applied nodes), t.after) :=
    Prod.ext (nodes?_eq_some.1 h) rfl
  rw [Rule.attempt, Edit.apply_bind_of_ok (Edit.apply_get _)] at hattempt
  split at hattempt
  · simp at hattempt
  · exact exists_match_of_attemptAt (by simp) hattempt

/-- The trials follow on one another, and the first one begins with the graph `g`. -/
def Linked : Graph β → List (Trial β) → Prop
  | _, [] => True
  | g, t :: log => t.before = g ∧ Linked t.after log

/-- The graph that the last one of several trials has left behind. -/
def final (g : Graph β) (log : List (Trial β)) : Graph β :=
  log.foldl (fun _ t => t.after) g

@[simp] theorem final_append (g : Graph β) (log more : List (Trial β)) :
    final g (log ++ more) = final (final g log) more :=
  List.foldl_append

theorem linked_append {log more : List (Trial β)} :
    Linked g (log ++ more) ↔ Linked g log ∧ Linked (final g log) more := by
  induction log generalizing g with
  | nil => exact (true_and _).to_iff.symm
  | cons t log ih =>
    rw [List.cons_append, Linked, Linked, ih, and_assoc]
    rfl

/-- A relation between the graphs before and after every trial holds of the first and the last graph,
too, if it is reflexive and transitive. -/
theorem Linked.induction {R : Graph β → Graph β → Prop} (hrefl : ∀ g, R g g)
    (htrans : ∀ {g h k}, R g h → R h k → R g k) {log : List (Trial β)} (h : Linked g log)
    (hlog : ∀ t ∈ log, R t.before t.after) : R g (final g log) := by
  induction log generalizing g with
  | nil => exact hrefl g
  | cons t log ih =>
    obtain ⟨rfl, h⟩ := h
    obtain ⟨ht, hlog⟩ := List.forall_mem_cons.1 hlog
    exact htrans ht (ih h hlog)

/-- If actions take only steps with a property, then such steps lead to every trial. -/
theorem Linked.leadsTo_before {P : Step β → Prop} {log : List (Trial β)} (h : Linked g log)
    (hlog : ∀ t ∈ log, t.rule.TakesOnly P) (ht : t ∈ log) : g.LeadsTo P t.before := by
  obtain ⟨front, later, rfl⟩ := List.append_of_mem ht
  obtain ⟨hfront, hbefore, -⟩ := linked_append.1 h
  rw [hbefore]
  exact hfront.induction (fun _ => .refl) .trans fun s hs =>
    (hlog s (List.mem_append_left _ hs)).attempt _ _

end Trial

/-! ### The trials at one node -/

/-- The rules tried at a node in turn up to the first one that applies or ends the run. -/
def trialsAt (config : RunConfig) (id : Nat) : List (Rule β) → Graph β → List (Trial β)
  | [], _ => []
  | rule :: rest, g =>
    let t : Trial β := ⟨id, rule, g⟩
    t :: if t.stops config then [] else trialsAt config id rest t.after

theorem linked_trialsAt : Trial.Linked g (trialsAt config id rules g) := by
  induction rules generalizing g with
  | nil => trivial
  | cons rule rest ih =>
    rw [trialsAt]
    split
    · exact ⟨rfl, trivial⟩
    · exact ⟨rfl, ih⟩

theorem mem_trialsAt {t : Trial β} (h : t ∈ trialsAt config id rules g) :
    t.id = id ∧ t.rule ∈ rules := by
  induction rules generalizing g with
  | nil => simp [trialsAt] at h
  | cons rule rest ih =>
    rw [trialsAt, List.mem_cons] at h
    obtain rfl | h := h
    · exact ⟨rfl, List.mem_cons_self⟩
    · split at h
      · simp at h
      · exact (ih h).imp_right (List.mem_cons_of_mem _)

/-- Before a rule is tried at a node, exactly the rules before it have been tried there, and none of
them has applied; after a rule that applies no other one is tried. -/
theorem trialsAt_split {t : Trial β} {front later : List (Trial β)}
    (h : trialsAt config id rules g = front ++ t :: later) :
    (∃ rest, rules = front.map Trial.rule ++ t.rule :: rest) ∧
      (∀ s ∈ front, s.stops config = false) ∧ (t.stops config = true → later = []) := by
  induction rules generalizing g front with
  | nil => simp [trialsAt] at h
  | cons rule rest ih =>
    rw [trialsAt] at h
    cases front with
    | nil =>
      obtain ⟨rfl, hlater⟩ := List.cons.inj h
      exact ⟨⟨rest, rfl⟩, by simp, fun hstop => by rw [← hlater, if_pos hstop]⟩
    | cons s front =>
      obtain ⟨rfl, hrest⟩ := List.cons.inj h
      split at hrest
      · simp at hrest
      · next hstop =>
        obtain ⟨⟨others, hothers⟩, hfront, hlater⟩ := ih hrest
        exact ⟨⟨others, by rw [hothers]; rfl⟩,
          List.forall_mem_cons.2 ⟨by simpa using hstop, hfront⟩, hlater⟩

/-- A trial at a node ends the run, ends the visit of the node, or is followed by the next rule. -/
theorem apply_visitNode_cons (config : RunConfig) (id : Nat) (rule : Rule β) (rest : List (Rule β))
    (report : Report) (g : Graph β) :
    (visitNode config id (rule :: rest) report).apply g =
      let t : Trial β := ⟨id, rule, g⟩
      match t.failure? config, t.nodes? with
      | some e, _ => (.error e, t.after)
      | none, some nodes => (.ok (t.tally report, some nodes), t.after)
      | none, none => (visitNode config id rest (t.tally report)).apply t.after := by
  rw [visitNode, Edit.apply_bind, Rule.apply_attemptOrSkip]
  rcases htried : (rule.attempt id).apply g with ⟨e | _ | _ | nodes, h⟩
  · cases hskip : config.continueOnError && e.isReported <;>
      simp [Trial.nodes?, Trial.failure?, Trial.result, Trial.after, Trial.tally, htried, hskip]
  all_goals simp [Trial.nodes?, Trial.failure?, Trial.result, Trial.after, Trial.tally, htried]

/-- What is done at a node can be read off the trials there. -/
theorem apply_visitNode_eq_trialsAt (config : RunConfig) (id : Nat) (rules : List (Rule β))
    (report : Report) (g : Graph β) :
    (visitNode config id rules report).apply g =
      let log := trialsAt config id rules g
      (match log.findSome? (·.failure? config) with
        | some e => .error e
        | none => .ok (log.foldl Trial.tally report, log.findSome? Trial.nodes?),
        Trial.final g log) := by
  induction rules generalizing report g with
  | nil => rfl
  | cons rule rest ih =>
    rw [apply_visitNode_cons, trialsAt]
    cases hf : Trial.failure? config ⟨id, rule, g⟩ with
    | some e => simp [Trial.stops, hf, Trial.final]
    | none =>
      cases hn : Trial.nodes? ⟨id, rule, g⟩ with
      | some nodes => simp [Trial.stops, hf, hn, Trial.final]
      | none => simp [Trial.stops, hf, hn, Trial.final, ih]

/-! ### The trials of a traversal -/

/-- The nodes that are not visited any more after some trials at a node: none if no rule has applied,
otherwise the node and those that were matched. -/
def claimed (id : Nat) (log : List (Trial β)) : List Nat :=
  ((log.findSome? Trial.nodes?).map (id :: ·)).getD []

/-- The trials at the listed nodes in turn, up to one that ends the run. -/
def trialsFrom (config : RunConfig) (rules : List (Rule β)) :
    List Nat → (matched : List Nat) → Graph β → List (Trial β)
  | [], _, _ => []
  | id :: rest, matched, g =>
    if matched.contains id || (g.live? id).isNone then trialsFrom config rules rest matched g
    else
      let log := trialsAt config id rules g
      log ++ if (log.findSome? (·.failure? config)).isSome then []
        else trialsFrom config rules rest (claimed id log ++ matched) (Trial.final g log)

/-- The trials of one traversal. -/
def trials (config : RunConfig) (rules : List (Rule β)) (g : Graph β) : List (Trial β) :=
  trialsFrom config rules g.order [] g

/-- What a traversal comes to that consists of some trials: the first error that ends the run, or the
tally of all of them and whether some rule has applied.  Before them the tally was `report`. -/
def Trial.outcome (config : RunConfig) (report : Report) (changed : Bool) (log : List (Trial β)) :
    Except Error (Report × Bool) :=
  match log.findSome? (·.failure? config) with
  | some e => .error e
  | none => .ok (log.foldl Trial.tally report, changed || log.any (·.nodes?.isSome))

theorem apply_traverseFrom_eq_trialsFrom (config : RunConfig) (rules : List (Rule β))
    (ids matched : List Nat) (report : Report) (changed : Bool) (g : Graph β) :
    (traverseFrom config rules ids matched report changed).apply g =
      let log := trialsFrom config rules ids matched g
      (Trial.outcome config report changed log, Trial.final g log) := by
  induction ids generalizing matched report changed g with
  | nil => simp [traverseFrom, trialsFrom, Trial.outcome, Trial.final]
  | cons id rest ih =>
    rw [apply_traverseFrom_cons, trialsFrom]
    split
    · exact ih matched report changed g
    · rw [Edit.apply_bind, apply_visitNode_eq_trialsAt]
      have hany : (trialsAt config id rules g).any (·.nodes?.isSome) =
          ((trialsAt config id rules g).findSome? Trial.nodes?).isSome := by
        rw [Bool.eq_iff_iff, List.any_eq_true, List.findSome?_isSome_iff]
      cases hf : (trialsAt config id rules g).findSome? (·.failure? config) with
      | some e => simp [Trial.outcome, hf]
      | none =>
        cases hn : (trialsAt config id rules g).findSome? Trial.nodes? with
        | none =>
          rw [hn] at hany
          simp [traverseRest, ih, Trial.outcome, hf, hn, hany, claimed, List.findSome?_append]
        | some nodes =>
          rw [hn] at hany
          simp [traverseRest, ih, Trial.outcome, hf, hn, hany, claimed, List.findSome?_append]

/-- The result of a traversal, and the graph that it leaves behind, are those of its trials. -/
theorem apply_traverse_eq_trials (config : RunConfig) (rules : List (Rule β)) (report : Report)
    (g : Graph β) : (traverse config rules report).apply g =
      (Trial.outcome config report false (trials config rules g),
        Trial.final g (trials config rules g)) := by
  rw [apply_traverse, apply_traverseFrom_eq_trialsFrom]
  rfl

/-- A traversal succeeds if none of its trials ends the run. -/
theorem apply_traverse_ok_iff {report r : Report} {changed : Bool} :
    (traverse config rules report).apply g = (.ok (r, changed), g') ↔
      (∀ t ∈ trials config rules g, t.failure? config = none) ∧
        r = (trials config rules g).foldl Trial.tally report ∧
          changed = (trials config rules g).any (·.nodes?.isSome) ∧
            g' = Trial.final g (trials config rules g) := by
  rw [apply_traverse_eq_trials, Trial.outcome, ← List.findSome?_eq_none_iff, Prod.mk.injEq]
  cases (trials config rules g).findSome? (·.failure? config) with
  | some e => simp
  | none => simp [eq_comm, and_assoc]

/-- At a node that is listed first, either nothing is tried, or the rules are tried there and then,
unless the run has ended, at the rest of the nodes. -/
theorem trialsFrom_cons_cases (config : RunConfig) (rules : List (Rule β)) (id : Nat)
    (rest matched : List Nat) (g : Graph β) :
    trialsFrom config rules (id :: rest) matched g = trialsFrom config rules rest matched g ∨
      id ∉ matched ∧ ∃ more,
        trialsFrom config rules (id :: rest) matched g = trialsAt config id rules g ++ more ∧
          (more = [] ∨ more = trialsFrom config rules rest
            (claimed id (trialsAt config id rules g) ++ matched)
              (Trial.final g (trialsAt config id rules g))) := by
  rw [trialsFrom]
  split
  · exact .inl rfl
  · next hvisited =>
    refine .inr ⟨fun hid => hvisited (by simp [hid]), _, rfl, ?_⟩
    split
    · exact .inl rfl
    · exact .inr rfl

theorem linked_trialsFrom {ids matched : List Nat} :
    Trial.Linked g (trialsFrom config rules ids matched g) := by
  induction ids generalizing matched g with
  | nil => trivial
  | cons id rest ih =>
    obtain h | ⟨-, more, h, rfl | rfl⟩ := trialsFrom_cons_cases config rules id rest matched g
    · exact h ▸ ih
    · rw [h, Trial.linked_append]
      exact ⟨linked_trialsAt, trivial⟩
    · rw [h, Trial.linked_append]
      exact ⟨linked_trialsAt, ih⟩

theorem mem_trialsFrom {ids matched : List Nat} {t : Trial β}
    (h : t ∈ trialsFrom config rules ids matched g) :
    t.id ∈ ids ∧ t.id ∉ matched ∧ t.rule ∈ rules := by
  induction ids generalizing matched g with
  | nil => simp [trialsFrom] at h
  | cons id rest ih =>
    obtain heq | ⟨hid, more, heq, hmore⟩ := trialsFrom_cons_cases config rules id rest matched g
    · exact (ih (heq ▸ h)).imp_left (List.mem_cons_of_mem _)
    · rw [heq, List.mem_append] at h
      obtain h | h := h
      · obtain ⟨rfl, hrule⟩ := mem_trialsAt h
        exact ⟨List.mem_cons_self, hid, hrule⟩
      · obtain rfl | rfl := hmore
        · simp at h
        · obtain ⟨hmem, hnot, hrule⟩ := ih h
          exact ⟨List.mem_cons_of_mem _ hmem,
            fun hmatched => hnot (List.mem_append_right _ hmatched), hrule⟩

/-- A rule that applies at a node claims the nodes that it has matched. -/
theorem mem_claimed_trialsAt {t : Trial β} (h : t ∈ trialsAt config id rules g) {nodes : List Nat}
    (hn : t.nodes? = some nodes) {i : Nat} (hi : i ∈ t.id :: nodes) :
    i ∈ claimed id (trialsAt config id rules g) := by
  obtain ⟨front, later, heq⟩ := List.append_of_mem h
  obtain ⟨-, hfront, -⟩ := trialsAt_split heq
  have hnone : front.findSome? Trial.nodes? = none := by
    refine List.findSome?_eq_none_iff.2 fun s hs => ?_
    have hstop := hfront s hs
    rw [Trial.stops, Bool.or_eq_false_iff] at hstop
    simpa using hstop.1
  have hfind : (trialsAt config id rules g).findSome? Trial.nodes? = some nodes := by
    rw [heq, List.findSome?_append, hnone, Option.none_or, List.findSome?_cons, hn]
  rw [claimed, hfind]
  exact (mem_trialsAt h).1 ▸ hi

theorem pairwise_trialsAt :
    (trialsAt config id rules g).Pairwise fun s _ => s.stops config = false := by
  induction rules generalizing g with
  | nil => exact .nil
  | cons rule rest ih =>
    rw [trialsAt]
    split
    · exact List.pairwise_singleton _ _
    · next hstop => exact List.pairwise_cons.2 ⟨fun _ _ => by simpa using hstop, ih⟩

/-- After a rule has applied, nothing is tried at its root, nor at any other node that it has
matched. -/
theorem pairwise_trialsFrom {ids matched : List Nat} :
    (trialsFrom config rules ids matched g).Pairwise fun s t =>
      ∀ nodes, s.nodes? = some nodes → t.id ∉ s.id :: nodes := by
  induction ids generalizing matched g with
  | nil => exact .nil
  | cons id rest ih =>
    have hat : (trialsAt config id rules g).Pairwise fun s t =>
        ∀ nodes, s.nodes? = some nodes → t.id ∉ s.id :: nodes :=
      pairwise_trialsAt.imp fun hstop nodes hn => by simp [Trial.stops, hn] at hstop
    obtain h | ⟨-, more, h, hmore⟩ := trialsFrom_cons_cases config rules id rest matched g
    · exact h ▸ ih
    · rw [h, List.pairwise_append]
      obtain rfl | rfl := hmore
      · exact ⟨hat, .nil, by simp⟩
      · refine ⟨hat, ih, fun s hs t ht nodes hn hmem => ?_⟩
        exact (mem_trialsFrom ht).2.1 (List.mem_append_left _ (mem_claimed_trialsAt hs hn hmem))

/-- Right before a rule is tried at a node, all rules before it have been tried there. -/
theorem trialsFrom_split {ids matched : List Nat} {t : Trial β} {front later : List (Trial β)}
    (h : trialsFrom config rules ids matched g = front ++ t :: later) :
    ∃ earlier tried rest, front = earlier ++ tried ∧
      rules = tried.map Trial.rule ++ t.rule :: rest ∧
        ∀ s ∈ tried, s.id = t.id ∧ s.stops config = false := by
  induction ids generalizing matched g front with
  | nil => simp [trialsFrom] at h
  | cons id rest ih =>
    obtain heq | ⟨-, more, heq, hmore⟩ := trialsFrom_cons_cases config rules id rest matched g
    · exact ih (heq.symm.trans h)
    · have hlate (front' : List (Trial β)) (hfront : front = trialsAt config id rules g ++ front')
          (hmore' : more = front' ++ t :: later) : ∃ earlier tried rest, front = earlier ++ tried ∧
            rules = tried.map Trial.rule ++ t.rule :: rest ∧
              ∀ s ∈ tried, s.id = t.id ∧ s.stops config = false := by
        obtain rfl | rfl := hmore
        · simp at hmore'
        · obtain ⟨earlier, tried, others, rfl, hrules, htried⟩ := ih hmore'
          exact ⟨trialsAt config id rules g ++ earlier, tried, others, by simp [hfront], hrules,
            htried⟩
      obtain ⟨front', hfront, hmore'⟩ | ⟨log, hlog, hmore'⟩ :=
        List.append_eq_append_iff.1 (heq.symm.trans h)
      · exact hlate front' hfront hmore'
      · cases log with
        | nil => exact hlate [] (by simpa using hlog.symm) hmore'.symm
        | cons s log =>
          obtain ⟨rfl, -⟩ := List.cons.inj hmore'
          obtain ⟨⟨others, hrules⟩, hfront, -⟩ := trialsAt_split hlog
          have hid {s : Trial β} (hs : s ∈ front ++ t :: log) : s.id = id :=
            (mem_trialsAt (hlog.symm ▸ hs)).1
          exact ⟨[], front, others, rfl, hrules, fun s hs =>
            ⟨(hid (List.mem_append_left _ hs)).trans (hid (by simp)).symm, hfront s hs⟩⟩

/-- No trial of a traversal is at a node that the traversal has added, if the processing order of the
first graph lists stored nodes only. -/
theorem ne_of_added (hrules : ∀ rule ∈ rules, rule.TakesOnly fun _ => True)
    (horder : ∀ id ∈ g.order, g.hasNode id = true) {s t : Trial β}
    (hs : s ∈ trials config rules g) (ht : t ∈ trials config rules g)
    (hbefore : s.before.hasNode id = false) (hafter : s.after.hasNode id = true) : t.id ≠ id := by
  rintro rfl
  have hreached := (linked_trialsFrom.leadsTo_before
    (fun s hs => hrules s.rule (mem_trialsFrom hs).2.2) hs).outlives
  have hadded := (((hrules s.rule (mem_trialsFrom hs).2.2).attempt s.before s.id).outlives
    ).length_le_of_new hbefore hafter
  have hold := Graph.lt_length_of_hasNode (horder t.id (mem_trialsFrom ht).1)
  exact absurd hadded (Nat.not_le.2 (Nat.lt_of_lt_of_le hold hreached.length_le))

/-- **The discipline of a traversal.**  A traversal consists of trials, each of which begins with the
graph that the one before it has left behind, and comes to what they come to.  Whatever the actions of
the rules do to the graph:

* a rule applies only at a node that is live then and that the processing order listed when the
  traversal began, where its pattern has matched and its action has answered yes;
* after that nothing is tried at the same node, or at any node of the match, again;
* right before that, all earlier rules were tried at the same node, and none of them matched there
  without declining the match or failing, the run going on after errors;
* if the actions change the graph by steps, and its processing order listed stored nodes only, as that
  of every graph built by steps does (`Graph.hasNode_of_mem_order`), then the node was live when the
  traversal began, and nothing is ever tried at a node that the traversal has added. -/
theorem traverse_discipline (config : RunConfig) (rules : List (Rule β)) (report : Report)
    (g : Graph β) :
    let log := trials config rules g
    (traverse config rules report).apply g =
        (Trial.outcome config report false log, Trial.final g log) ∧
      Trial.Linked g log ∧
      (∀ t ∈ log, ∀ nodes, t.nodes? = some nodes →
        t.id ∈ g.order ∧ (t.before.live? t.id).isSome = true ∧
          ∃ h i m, t.rule.pattern.matchValue h ⟨t.id, i⟩ = some m ∧ m.nodes = nodes ∧
            (t.rule.action m).apply h = (.ok true, t.after)) ∧
      (log.Pairwise fun s t => ∀ nodes, s.nodes? = some nodes → t.id ≠ s.id ∧ t.id ∉ nodes) ∧
      (∀ front t later, log = front ++ t :: later → t.nodes?.isSome = true →
        ∃ earlier tried rest, front = earlier ++ tried ∧
          rules = tried.map Trial.rule ++ t.rule :: rest ∧
            ∀ s ∈ tried, s.id = t.id ∧ (s.result = .ok .noMatch ∨ s.result = .ok .declined ∨
              ∃ e, s.result = .error e ∧ config.continueOnError = true ∧ e.isReported = true)) ∧
      ((∀ rule ∈ rules, rule.TakesOnly fun _ => True) →
        (∀ id ∈ g.order, g.hasNode id = true) →
          (∀ t ∈ log, t.nodes?.isSome = true → (g.live? t.id).isSome = true) ∧
            ∀ s ∈ log, ∀ t ∈ log, ∀ id, s.before.hasNode id = false → s.after.hasNode id = true →
              t.id ≠ id) := by
  refine ⟨apply_traverse_eq_trials .., linked_trialsFrom, fun t ht nodes hn => ?_, ?_,
    fun front t later hsplit _ => ?_, fun hrules horder => ⟨fun t ht hn => ?_, ?_⟩⟩
  · exact ⟨(mem_trialsFrom ht).1, Trial.live_of_nodes? (by simp [hn]), Trial.exists_match hn⟩
  · exact pairwise_trialsFrom.imp fun h nodes hn =>
      ⟨fun heq => h nodes hn (heq ▸ List.mem_cons_self),
        fun hmem => h nodes hn (List.mem_cons_of_mem _ hmem)⟩
  · obtain ⟨earlier, tried, rest, hfront, hrest, htried⟩ := trialsFrom_split hsplit
    exact ⟨earlier, tried, rest, hfront, hrest, fun s hs =>
      (htried s hs).imp_right Trial.stops_eq_false_iff.1⟩
  · have hreached := (linked_trialsFrom.leadsTo_before
      (fun s hs => hrules s.rule (mem_trialsFrom hs).2.2) ht).outlives
    have hold := Graph.lt_length_of_hasNode (horder t.id (mem_trialsFrom ht).1)
    exact hreached.live t.id hold (Trial.live_of_nodes? hn)
  · exact fun s hs t ht id => ne_of_added hrules horder hs ht

/-! ### Rectifiers replaced by rectifiers -/

/-- Rectifiers are looked at, and left alone. -/
def inspectRule : Rule Unit where
  name := "inspect_rectifiers"
  pattern := ⟨[{ kind := .op [.relu] [] }]⟩
  action := Action.answer false

/-- Rectifiers are replaced by new ones. -/
def renewRule : Rule Unit where
  name := "renew_rectifiers"
  pattern := ⟨[{ kind := .op [.relu] [] }]⟩
  action := Action.replaceOp .relu

/-- The two rectifiers of the graph are replaced, each after the first rule has left it alone; the two
that are added in their place, with the numbers 4 and 5, have to wait for the next traversal. -/
theorem traverse_discipline_rectifiedSum :
    let log := trials {} [inspectRule, renewRule] rectifiedSum
    log.map (fun t => (t.id, t.rule.name, t.nodes?)) =
        [(0, "inspect_rectifiers", none), (0, "renew_rectifiers", none),
          (1, "inspect_rectifiers", none), (1, "renew_rectifiers", some [1]),
          (2, "inspect_rectifiers", none), (2, "renew_rectifiers", none),
          (3, "inspect_rectifiers", none), (3, "renew_rectifiers", some [3])] ∧
      (∀ rule ∈ [inspectRule, renewRule], rule.TakesOnly fun _ => True) ∧
      (∀ id ∈ rectifiedSum.order, rectifiedSum.hasNode id = true) ∧
      (∀ t ∈ log, t.nodes?.isSome = true → (rectifiedSum.live? t.id).isSome = true) ∧
        (Trial.final rectifiedSum log).order = [0, 1, 2, 3, 4, 5] ∧
          ∀ s ∈ log, ∀ t ∈ log, ∀ id, s.before.hasNode id = false → s.after.hasNode id = true →
            t.id ≠ id := by
  have hrules : ∀ rule ∈ [inspectRule, renewRule], rule.TakesOnly fun _ => True := by
    refine List.forall_mem_cons.2 ⟨Action.takesOnly_answer rfl, List.forall_mem_singleton.2 ?_⟩
    exact Action.takesOnly_replaceOp (fun _ _ => trivial) rfl
  have horder : ∀ id ∈ rectifiedSum.order, rectifiedSum.hasNode id = true := by decide
  obtain ⟨-, -, -, -, -, hadded⟩ :=
    traverse_discipline {} [inspectRule, renewRule] {} rectifiedSum
  exact ⟨by decide +kernel, hrules, horder, (hadded hrules horder).1, by decide +kernel,
    (hadded hrules horder).2⟩

end Dataflow
