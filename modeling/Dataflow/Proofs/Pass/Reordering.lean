import Dataflow.Proofs.Pass.Idle

/-!
# Rules in another order

At a node the first rule that applies is taken, so that in general it matters in which order rules are
registered.  It does not for rules that exclude one another: where one of them does anything, every
other one declines all its matches, before and after.  In particular this is so where an error of a
rule is tolerated, which may leave a changed graph behind for the rules that come next.

What does depend on the order is the number of matches, since a match that is declined is counted only
if it is tried.

## Main definitions

* `Report.effects` : a report without the number of matches.
* `Edit.Alike` : outcomes that differ at most in what is left out of the results.
* `Exclusive` : rules that exclude one another.

## Main statements

* `Exclusive.alike_visitNode`, `Exclusive.alike_traverseFrom` : what is done at a node, and in a
  traversal.
* `Exclusive.alike_runRules` : runs with the same rules in another order.
-/

namespace Dataflow

variable {α β γ δ ε : Type}

/-! ### Results that are alike -/

namespace Report

/-- The report without the number of matches. -/
def effects (r : Report) : Report :=
  { r with matched := 0 }

@[simp] theorem effects_countMatches (r : Report) (count : Nat) :
    (r.countMatches count).effects = r.effects :=
  rfl

theorem effects_record (r : Report) (id : Nat) : (r.record id).effects = r.effects.record id :=
  rfl

theorem effects_recordElimination (r : Report) (count : Nat) :
    (r.recordElimination count).effects = r.effects.recordElimination count :=
  rfl

theorem effects_countIterations (r : Report) (count : Nat) :
    (r.countIterations count).effects = r.effects.countIterations count :=
  rfl

end Report

namespace Edit

/-- Two outcomes of edits with the same graph, and with the same error or with results that `f` does
not tell apart. -/
inductive Alike (f : α → γ) : Except Error α × Graph β → Except Error α × Graph β → Prop
  | error (e : Error) (g : Graph β) : Alike f (.error e, g) (.error e, g)
  | ok {a a' : α} (h : f a = f a') (g : Graph β) : Alike f (.ok a, g) (.ok a', g)

namespace Alike

variable {f : α → γ} {x y z : Except Error α × Graph β}

theorem symm (h : Alike f x y) : Alike f y x := by
  cases h with
  | error e g => exact .error e g
  | ok h g => exact .ok h.symm g

theorem trans (h : Alike f x y) (h' : Alike f y z) : Alike f x z := by
  cases h with
  | error e g => exact h'
  | ok h g =>
    cases h' with
    | ok h' => exact .ok (h.trans h') g

theorem map_eq (h : Alike f x y) : x.1.map f = y.1.map f ∧ x.2 = y.2 := by
  cases h with
  | error e g => exact ⟨rfl, rfl⟩
  | ok h g => exact ⟨congrArg Except.ok h, rfl⟩

/-- Two edits in a row come to the same if both parts do. -/
theorem bind {f' : δ → ε} {e e' : Edit β α} {k k' : α → Edit β δ} {g : Graph β}
    (h : Alike f (e.apply g) (e'.apply g))
    (hk : ∀ a a' g', e.apply g = (.ok a, g') → f a = f a' → Alike f' ((k a).apply g') ((k' a').apply g')) :
    Alike f' ((e >>= k).apply g) ((e' >>= k').apply g) := by
  rw [apply_bind, apply_bind]
  generalize hx : e.apply g = x at h
  generalize e'.apply g = y at h
  cases h with
  | error error g' => exact .error error g'
  | ok h g' => exact hk _ _ g' hx h

end Alike

end Edit

open Edit (Alike)

variable {I : Graph β → Prop} {config : RunConfig} {rules rules' rest rest' : List (Rule β)}
  {rule x y : Rule β} {g : Graph β} {id : Nat} {report report' : Report}

/-- The result of a part of a run without the number of matches. -/
def effectsOf (p : Report × α) : Report × α :=
  (p.1.effects, p.2)

theorem effectsOf_eq_iff {a a' : α} :
    effectsOf (report, a) = effectsOf (report', a') ↔ report.effects = report'.effects ∧ a = a' :=
  Prod.ext_iff

theorem Trial.effects_tally {t : Trial β} (h : report.effects = report'.effects) :
    (t.tally report).effects = (t.tally report').effects := by
  rw [tally, tally]
  rcases t.result with e | _ | _ | nodes
  case ok.applied => rw [Report.effects_record, Report.effects_record, Report.effects_countMatches,
    Report.effects_countMatches, h]
  all_goals exact h

/-! ### One node -/

/-- After the same rule, what is done at a node goes on in the graph that the rule has left behind. -/
theorem alike_visitNode_cons (h : report.effects = report'.effects)
    (hrest : ∀ r r' : Report, r.effects = r'.effects →
      Alike effectsOf ((visitNode config id rest r).apply ((rule.attempt id).apply g).2)
        ((visitNode config id rest' r').apply ((rule.attempt id).apply g).2)) :
    Alike effectsOf ((visitNode config id (rule :: rest) report).apply g)
      ((visitNode config id (rule :: rest') report').apply g) := by
  have htally : ∀ t : Trial β, (t.tally report).effects = (t.tally report').effects :=
    fun _ => Trial.effects_tally h
  rw [apply_visitNode_cons, apply_visitNode_cons]
  dsimp only
  split
  · exact .error _ _
  · exact .ok (effectsOf_eq_iff.2 ⟨htally _, rfl⟩) _
  · exact hrest _ _ (htally _)

/-- Two rules can be exchanged if the second one declines all its matches before and after the first
one. -/
theorem alike_visitNode_swap (hdeclines : y.Declines) (hbefore : y.IdleAt g id)
    (hafter : y.IdleAt ((x.attempt id).apply g).2 id) (h : report.effects = report'.effects)
    (hrest : ∀ r r' : Report, r.effects = r'.effects →
      Alike effectsOf ((visitNode config id rest r).apply ((x.attempt id).apply g).2)
        ((visitNode config id rest' r').apply ((x.attempt id).apply g).2)) :
    Alike effectsOf ((visitNode config id (x :: y :: rest) report).apply g)
      ((visitNode config id (y :: x :: rest') report').apply g) := by
  obtain ⟨j, hj⟩ := exists_visitNode_of_idleAt hbefore hdeclines config (x :: rest')
  obtain ⟨k, hk⟩ := exists_visitNode_of_idleAt hafter hdeclines config rest
  rw [hj]
  refine alike_visitNode_cons (by simpa using h) fun r r' hr => ?_
  rw [hk]
  exact hrest _ _ (by simpa using hr)

/-! ### Rules that exclude one another -/

/-- Where the invariant `I` holds, the rules exclude one another: if one of them does not decline all
its matches at a node, then every other one does, in the graph before and in the graph after.  The
rules and compaction keep the invariant. -/
structure Exclusive (I : Graph β → Prop) (rules : List (Rule β)) : Prop where
  declines : ∀ rule ∈ rules, rule.Declines
  keeps : ∀ rule ∈ rules, ∀ id g, I g → I ((rule.attempt id).apply g).2
  compact : ∀ g : Graph β, I g → I g.compact.2
  excludes : ∀ x ∈ rules, ∀ y ∈ rules, x ≠ y → ∀ id g, I g → ¬ x.IdleAt g id →
    y.IdleAt g id ∧ y.IdleAt ((x.attempt id).apply g).2 id

namespace Exclusive

variable (h : Exclusive I rules)
include h

theorem keeps_final {log : List (Trial β)} (hlog : Trial.Linked g log) (hrules : ∀ t ∈ log, t.rule ∈ rules)
    (hg : I g) : I (Trial.final g log) :=
  hlog.induction (R := fun g g' => I g → I g') (fun _ hg => hg) (fun hgh hhk hg => hhk (hgh hg))
    (fun t ht => h.keeps t.rule (hrules t ht) t.id t.before) hg

theorem keeps_traverse {changed : Bool} {g' : Graph β}
    (hrun : (traverse config rules report).apply g = (.ok (report', changed), g')) (hg : I g) : I g' := by
  obtain ⟨-, -, -, rfl⟩ := apply_traverse_ok_iff.1 hrun
  exact h.keeps_final linked_trialsFrom (fun t ht => (mem_trialsFrom ht).2.2) hg

theorem keeps_settle (config : RunConfig) (hg : I g) : I (config.settle g) := by
  rw [RunConfig.settle]
  split
  · exact h.compact g hg
  · exact hg

/-- Of two rules one declines all its matches, before and after the other one. -/
theorem idleAt_or (hx : x ∈ rules) (hy : y ∈ rules) (hne : x ≠ y) (id : Nat) (hg : I g) :
    (y.IdleAt g id ∧ y.IdleAt ((x.attempt id).apply g).2 id) ∨
      (x.IdleAt g id ∧ x.IdleAt ((y.attempt id).apply g).2 id) := by
  by_cases hxg : x.IdleAt g id
  · by_cases hyg : y.IdleAt g id
    · obtain ⟨outcome, hattempt, -⟩ := hxg.attempt (h.declines x hx)
      exact .inl ⟨hyg, by rwa [hattempt]⟩
    · exact .inr (h.excludes y hy x hx hne.symm id g hg hyg)
  · exact .inl (h.excludes x hx y hy hne id g hg hxg)

/-- What is done at a node does not depend on the order of the rules. -/
theorem alike_visitNode {l l' : List (Rule β)} (hperm : l.Perm l') (hl : l ⊆ rules) (hg : I g)
    (hreport : report.effects = report'.effects) :
    Alike effectsOf ((visitNode config id l report).apply g)
      ((visitNode config id l' report').apply g) := by
  induction hperm using List.Perm.recOnSwap' generalizing g report report' with
  | nil => exact .ok (effectsOf_eq_iff.2 ⟨hreport, rfl⟩) g
  | cons x hperm ih =>
    obtain ⟨hx, hl⟩ := List.cons_subset.1 hl
    exact alike_visitNode_cons hreport fun r r' => ih hl (h.keeps x hx id g hg)
  | swap' x y hperm ih =>
    obtain ⟨hy, hxl⟩ := List.cons_subset.1 hl
    obtain ⟨hx, hrest⟩ := List.cons_subset.1 hxl
    by_cases hne : x = y
    · subst hne
      exact alike_visitNode_cons hreport fun r r' hr => alike_visitNode_cons hr fun r r' =>
        ih hrest (h.keeps x hx id _ (h.keeps x hx id g hg))
    · obtain ⟨hbefore, hafter⟩ | ⟨hbefore, hafter⟩ := h.idleAt_or hx hy hne id hg
      · refine (alike_visitNode_swap (h.declines y hy) hbefore hafter hreport.symm fun r r' hr => ?_).symm
        exact (ih hrest (h.keeps x hx id g hg) hr.symm).symm
      · exact alike_visitNode_swap (h.declines x hx) hbefore hafter hreport fun r r' =>
          ih hrest (h.keeps y hy id g hg)
  | trans hperm hperm' ih ih' =>
    exact (ih hl hg rfl).trans (ih' (fun x hx => hl (hperm.mem_iff.2 hx)) hg hreport)

variable (hperm : rules.Perm rules')
include hperm

/-- What is done in a traversal does not depend on the order of the rules. -/
theorem alike_traverseFrom (ids matched : List Nat) (changed : Bool) (hg : I g)
    (hreport : report.effects = report'.effects) :
    Alike effectsOf ((traverseFrom config rules ids matched report changed).apply g)
      ((traverseFrom config rules' ids matched report' changed).apply g) := by
  induction ids generalizing matched changed g report report' with
  | nil => exact .ok (effectsOf_eq_iff.2 ⟨hreport, rfl⟩) g
  | cons id rest ih =>
    rw [apply_traverseFrom_cons, apply_traverseFrom_cons]
    split
    · exact ih matched changed hg hreport
    · refine (h.alike_visitNode hperm (List.Subset.refl _) hg hreport).bind ?_
      rintro ⟨r, nodes⟩ ⟨r', nodes'⟩ g' hvisit heq
      obtain ⟨hr, rfl⟩ := effectsOf_eq_iff.1 heq
      have hg' : I g' := by
        rw [apply_visitNode_eq_trialsAt] at hvisit
        rw [← (Prod.mk.inj hvisit).2]
        exact h.keeps_final linked_trialsAt (fun t ht => (mem_trialsAt ht).2) hg
      cases nodes with
      | none => exact ih matched changed hg' hr
      | some nodes => exact ih _ true hg' hr

theorem alike_traverse (config : RunConfig) (hg : I g) (hreport : report.effects = report'.effects) :
    Alike effectsOf ((traverse config rules report).apply g)
      ((traverse config rules' report').apply g) := by
  rw [apply_traverse, apply_traverse]
  exact h.alike_traverseFrom hperm g.order [] false hg hreport

theorem alike_runRulesFor (steps : Nat) (hg : I g) (hreport : report.effects = report'.effects) :
    Alike Report.effects ((runRulesFor config rules steps report).apply g)
      ((runRulesFor config rules' steps report').apply g) := by
  induction steps generalizing g report report' with
  | zero => exact .ok hreport g
  | succ steps ih =>
    have hstart : (report.countIterations 1).effects = (report'.countIterations 1).effects := by
      rw [Report.effects_countIterations, Report.effects_countIterations, hreport]
    have htraverse : Alike effectsOf _ _ := h.alike_traverse hperm config hg hstart
    generalize hrun : (traverse config rules _).apply g = x at htraverse
    generalize hrun' : (traverse config rules' _).apply g = y at htraverse
    cases htraverse with
    | error e g' =>
      rw [apply_runRulesFor_of_error hrun, apply_runRulesFor_of_error hrun']
      exact .error e g'
    | @ok a a' heq g' =>
      obtain ⟨r, changed⟩ := a
      obtain ⟨r', _⟩ := a'
      obtain ⟨hr, rfl⟩ := effectsOf_eq_iff.1 heq
      rw [apply_runRulesFor_succ hrun, apply_runRulesFor_succ hrun']
      dsimp only
      split
      · exact ih (h.keeps_settle config (h.keeps_traverse hrun hg)) (by simp [Report.effects_recordElimination, hr])
      · exact .ok (by simp [Report.effects_recordElimination, hr]) _

/-- **The order of rules that exclude one another is irrelevant.** -/
theorem alike_runRules (config : RunConfig) (hg : I g) :
    Alike Report.effects ((runRules config rules).apply g) ((runRules config rules').apply g) :=
  h.alike_runRulesFor hperm config.maxIterations hg rfl

end Exclusive

end Dataflow
