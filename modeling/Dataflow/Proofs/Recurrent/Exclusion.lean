import Dataflow.Proofs.Pass.Reordering
import Dataflow.Proofs.Recurrent.LoopAtomicity
import Dataflow.Proofs.Recurrent.Passes

/-!
# One kind of cell for every loop

A body may hold steps of several kinds of cells next to each other.  A plan for one of them accounts for
every described output of the loop: each is the first output of the node that puts the time axis back,
or an output of the cell.  So the first described output alone tells which cell the loop is about, and
no loop has plans for two kinds.

This depends on the body only, and no conversion changes a body or adds a node that has one.  Therefore
the conversions of iterators over the three kinds exclude one another all along a run, and it does not
matter in which order they are tried.

## Main definitions

* `Body.Productive` : bodies that describe some output.
* `Graph.Productive` : the bodies of all iterators do.
* `Graph.task?` : the operation and the body of a node.

## Main statements

* `LoopPlan.Fits.kind_unique`, `LoopPlan.kind_unique_of_find?` : the plans for one body are for one kind
  of cell.
* `LoopPlan.exclusive_iteratorRules` : the conversions exclude one another.
* `LoopPlan.conversion_order_irrelevant` : they come to the same in any order.
-/

namespace Dataflow

theorem Cell.stepOp_injective : Function.Injective Cell.stepOp := by
  intro kind kind' h
  cases kind <;> cases kind' <;> first | rfl | exact absurd h (by decide)

/-- A body that describes at least one output of its loop node, and whose nodes have the numbers of their
slots. -/
structure Body.Productive (body : Body) : Prop where
  numbered : body.graph.Numbered
  outputs : body.outputs ≠ []

/-! ### Plans for one body -/

/-- Two steps of a body with the same cell are for the same kind. -/
theorem CellStep.Involved.kind_unique {g : Graph Body} {kind kind' : Cell} {step step' : CellStep}
    (hi : step.Involved g kind) (hi' : step'.Involved g kind') (h : step.cell.id = step'.cell.id) :
    kind = kind' := by
  have hcell : step.cell = step'.cell :=
    Option.some.inj (hi.cell.symm.trans ((congrArg g.live? h).trans hi'.cell))
  exact Cell.stepOp_injective (hi.cell_op.symm.trans ((congrArg Node.op hcell).trans hi'.cell_op))

namespace LoopPlan

section Unique

variable {g g' : Graph Body} {id : Nat} {kind kind' : Cell} {plan plan' : LoopPlan}
  {loop loop' : Node Body} {body : Body} {step step' : CellStep} {walk walk' : Walk}

theorem resultValue?_of_concat {r output axis : Nat} {w : Walk} {p : LoopResult × Nat}
    (h : loopResult? kind body step walk axis (.concat r output w) = some p) :
    body.resultValue? r = some (step.unsqueeze.output 0) := by
  obtain ⟨v, hv, h⟩ := Option.bind_eq_some_iff.1 h
  obtain ⟨_, hguard, -⟩ := Option.bind_eq_some_iff.1 h
  rw [Option.guard_eq_some'] at hguard
  exact hguard.1 ▸ hv

theorem resultValue?_of_last {r output axis : Nat} {p : LoopResult × Nat}
    (h : loopResult? kind body step walk axis (.last r output) = some p) :
    ∃ i, body.resultValue? r = some (step.cell.output i) := by
  obtain ⟨v, hv, h⟩ := Option.bind_eq_some_iff.1 h
  dsimp only at h
  split at h
  · next heq => exact ⟨0, heq ▸ hv⟩
  · split at h
    · next heq => exact ⟨1, heq.2 ▸ hv⟩
    · simp at h

/-- The described outputs of a loop tell which kind of cell the loop is about. -/
theorem Fits.kind_unique (hf : plan.Fits g loop body step walk)
    (hf' : plan'.Fits g' loop' body step' walk') (hb : body.Productive) : plan.kind = plan'.kind := by
  have hi := CellStep.involved_of_find? hb.numbered hf.found
  have hi' := CellStep.involved_of_find? hb.numbered hf'.found
  obtain ⟨d, rest, houtputs⟩ := List.exists_cons_of_ne_nil hb.outputs
  have hd : d ∈ body.outputs := houtputs ▸ List.mem_cons_self
  obtain ⟨p, -, hp⟩ := exists_mem_of_forall₂ (mapM_eq_some_iff.1 hf.results) hd
  obtain ⟨p', -, hp'⟩ := exists_mem_of_forall₂ (mapM_eq_some_iff.1 hf'.results) hd
  refine hi.kind_unique hi' ?_
  cases d with
  | concat r output w =>
    -- The node that puts the time axis back is the same, and it reads the cell.
    have hvalue := (resultValue?_of_concat hp).symm.trans (resultValue?_of_concat hp')
    have hid : step.unsqueeze.id = step'.unsqueeze.id := congrArg Value.node (Option.some.inj hvalue)
    have hnode : step.unsqueeze = step'.unsqueeze :=
      Option.some.inj (hi.unsqueeze.symm.trans ((congrArg _ hid).trans hi'.unsqueeze))
    obtain ⟨axes, hin⟩ := hi.unsqueeze_inputs
    obtain ⟨axes', hin'⟩ := hi'.unsqueeze_inputs
    rw [hnode, hin'] at hin
    exact (congrArg Value.node (List.cons.inj hin).1).symm
  | last r output =>
    obtain ⟨i, hi⟩ := resultValue?_of_last hp
    obtain ⟨i', hi'⟩ := resultValue?_of_last hp'
    exact congrArg Value.node (Option.some.inj (hi.symm.trans hi'))

theorem kind_unique_of_find? {n n' : Node Body} (hn : g.node? id = some n)
    (hn' : g'.node? id = some n') (hbody : n.body = n'.body)
    (hb : ∀ body, n.body = some body → body.Productive) (hfind : find? g id kind = some plan)
    (hfind' : find? g' id kind' = some plan') : kind = kind' := by
  obtain ⟨hloop, rfl, loop, body, step, walk, hf⟩ := fits_of_find? hfind
  obtain ⟨hloop', rfl, loop', body', step', walk', hf'⟩ := fits_of_find? hfind'
  obtain rfl : loop = n := Option.some.inj ((hloop ▸ hf.node).symm.trans hn)
  obtain rfl : loop' = n' := Option.some.inj ((hloop' ▸ hf'.node).symm.trans hn')
  obtain rfl : body = body' := Option.some.inj (hf.nested.symm.trans (hbody.trans hf'.nested))
  exact hf.kind_unique hf' (hb body hf.nested)

end Unique

end LoopPlan

/-! ### Operations and bodies -/

namespace Graph

variable {β : Type} {g : Graph β} {id : Nat}

/-- The operation and the body of the stored node with a number. -/
def task? (g : Graph β) (id : Nat) : Option (Op × Option β) :=
  (g.slot? id).map fun s => (s.node.op, s.node.body)

theorem task?_of_node? {n : Node β} (h : g.node? id = some n) : g.task? id = some (n.op, n.body) := by
  obtain ⟨s, hs, rfl⟩ := node?_eq_some.1 h
  rw [task?, hs, Option.map_some]

theorem task?_eq_some {op : Op} {body : Option β} :
    g.task? id = some (op, body) ↔ ∃ n, g.node? id = some n ∧ n.op = op ∧ n.body = body := by
  simp [task?, node?]

theorem task?_push_of_some {spec : NodeSpec β} {t : Op × Option β} (h : g.task? id = some t) :
    (g.push spec).task? id = some t := by
  obtain ⟨s, hs, rfl⟩ := Option.map_eq_some_iff.1 h
  rw [task?, slot?_push_of_slot? spec hs, Option.map_some]

/-- A new node is the only one that a graph gains. -/
theorem task?_push {spec : NodeSpec β} {t : Op × Option β} (h : (g.push spec).task? id = some t) :
    t = (spec.op, spec.body) ∨ g.task? id = some t := by
  rw [task?, slot?_push] at h
  split at h
  · exact .inl (Option.some.inj h).symm
  · exact .inr h

theorem task?_redirect (v w : Value) : (g.redirect v w).2.task? id = g.task? id := by
  by_cases hvw : v = w
  · rw [redirect, if_pos hvw]
  · rw [task?, slot?_redirect_eq v w hvw, slot?_redirectUses, Option.map_map]
    rfl

theorem task?_markEliminated (i : Nat) : (g.markEliminated i).2.task? id = g.task? id := by
  rw [task?, slot?_markEliminated]
  split
  · rw [Option.map_map]
    rfl
  · rfl

theorem task?_of_compact {t : Op × Option β} (h : g.compact.2.task? id = some t) :
    g.task? id = some t := by
  obtain ⟨s, hs, rfl⟩ := Option.map_eq_some_iff.1 h
  rw [slot?_compact, Option.filter_eq_some_iff] at hs
  rw [task?, hs.1, Option.map_some]

end Graph

/-- The bodies of the stored iterators are productive. -/
def Graph.Productive (g : Graph Body) : Prop :=
  ∀ id n body, g.node? id = some n → n.op = .tensorIterator → n.body = some body → body.Productive

namespace LoopPlan

open Edit (Replaceable)

variable {g g' : Graph Body} {id : Nat} {kind kind' : Cell} {plan : LoopPlan}

theorem productive_iff : g.Productive ↔
    ∀ id body, g.task? id = some (.tensorIterator, some body) → body.Productive := by
  simp only [Graph.Productive, Graph.task?_eq_some]
  exact ⟨fun h id body ⟨n, hn, hop, hbody⟩ => h id n body hn hop hbody,
    fun h id n body hn hop hbody => h id body ⟨n, hn, hop, hbody⟩⟩

/-- New nodes have no bodies, and old ones keep theirs. -/
theorem replaceable_productive :
    Replaceable Graph.Productive (fun _ => True) (fun _ => True) fun _ => True where
  push hg hbody _ := by
    rw [productive_iff] at hg ⊢
    intro id body h
    obtain hnew | hold := Graph.task?_push h
    · rw [hbody] at hnew
      simp at hnew
    · exact hg id body hold
  new _ _ := trivial
  weaken _ := trivial
  redirected hg _ _ := by
    simp only [productive_iff, Graph.task?_redirect] at hg ⊢
    exact hg
  eliminated g id hg := by
    simp only [productive_iff, Graph.task?_markEliminated] at hg ⊢
    exact hg

theorem replaceable_task (id : Nat) (t : Op × Option Body) :
    Replaceable (fun g => g.task? id = some t) (fun _ => True) (fun _ => True) fun _ => True where
  push hg _ _ := Graph.task?_push_of_some hg
  new _ _ := trivial
  weaken _ := trivial
  redirected hg _ _ := (Graph.task?_redirect _ _).trans hg
  eliminated _ _ hg := (Graph.task?_markEliminated _).trans hg

/-! ### Conversions that exclude one another -/

theorem iteratorRule_mem_conversions (kind : Cell) : iteratorRule kind ∈ conversions := by
  cases kind <;> simp [conversions]

/-- A conversion keeps what survives all steps of a replacement. -/
theorem keeps_attempt_iteratorRule {Q : Graph Body → Prop}
    (hQ : Replaceable Q (fun _ => True) (fun _ => True) fun _ => True) (kind : Cell) (id : Nat)
    (hg : Q g) : Q (((iteratorRule kind).attempt id).apply g).2 :=
  (Rule.keeps_attempt (fun _ _ hg =>
    ⟨keeps_rewrite (RewritePass.iteratorRule_mem_rewrites kind) hQ hg, fun _ _ => trivial⟩) id g hg).1

/-- Where there is a plan for one kind of cell, the conversions for the other ones decline all their
matches, also in another graph in which the node has the same body. -/
theorem idleAt_of_find? {n : Node Body} (hn : g.node? id = some n)
    (hb : ∀ body, n.body = some body → body.Productive) (hfind : find? g id kind = some plan)
    (hne : kind ≠ kind') (hsame : g'.task? id = g.task? id) : (iteratorRule kind').IdleAt g' id := by
  intro m hm
  rw [apply_iteratorAction, root_of_matchesAt (iteratorRule_mem_conversions kind') hm]
  cases hfind' : find? g' id kind' with
  | none => rfl
  | some plan' =>
    obtain ⟨n', -, hn', -⟩ := hm
    rw [Graph.task?_of_node? hn, Graph.task?_of_node? (Graph.node?_of_live? hn')] at hsame
    have hbody : n.body = n'.body := (Prod.mk.inj (Option.some.inj hsame)).2.symm
    exact absurd (kind_unique_of_find? hn (Graph.node?_of_live? hn') hbody hb hfind hfind') hne

/-- The conversions of iterators exclude one another. -/
theorem exclusive_iteratorRules (kinds : List Cell) :
    Exclusive Graph.Productive (kinds.map iteratorRule) where
  declines rule hrule := by
    obtain ⟨kind, -, rfl⟩ := List.mem_map.1 hrule
    exact declines_conversion (iteratorRule_mem_conversions kind)
  keeps rule hrule id g hg := by
    obtain ⟨kind, -, rfl⟩ := List.mem_map.1 hrule
    exact keeps_attempt_iteratorRule replaceable_productive kind id hg
  compact g hg := productive_iff.2 fun id body h => productive_iff.1 hg id body (Graph.task?_of_compact h)
  excludes x hx y hy hne id g hg hidle := by
    obtain ⟨kind, -, rfl⟩ := List.mem_map.1 hx
    obtain ⟨kind', -, rfl⟩ := List.mem_map.1 hy
    have hkind : kind ≠ kind' := fun heq => hne (congrArg iteratorRule heq)
    obtain ⟨m, hm, hact⟩ : ∃ m, (iteratorRule kind).MatchesAt g id m ∧
        (((iteratorRule kind).action m).apply g).1 ≠ .ok false := by
      simpa [Rule.IdleAt] using hidle
    rw [apply_iteratorAction, root_of_matchesAt (iteratorRule_mem_conversions kind) hm] at hact
    cases hfind : find? g id kind with
    | none => simp [hfind] at hact
    | some plan =>
      obtain ⟨n, i, hn, -, hmatch⟩ := hm
      have hstored : g.node? id = some n := Graph.node?_of_live? hn
      have hb : ∀ body, n.body = some body → body.Productive := fun body =>
        hg id n body hstored (op_of_matchValue_loopPattern hmatch hn).1
      have hkept : (((iteratorRule kind).attempt id).apply g).2.task? id = g.task? id := by
        rw [Graph.task?_of_node? hstored]
        exact keeps_attempt_iteratorRule (replaceable_task id _) kind id (Graph.task?_of_node? hstored)
      exact ⟨idleAt_of_find? hstored hb hfind hkind rfl, idleAt_of_find? hstored hb hfind hkind hkept⟩

/-- **The order of the conversions is irrelevant.**  Let the body of every iterator of a graph describe
at least one output.  Then at most one of the three kinds of cells has a plan at any node, and the
conversions for the three kinds, run together under one configuration, come to the same in any order:
the same graph, and the same error or reports that differ at most in the number of matches. -/
theorem conversion_order_irrelevant (hg : g.Productive) :
    (∀ id n, g.node? id = some n →
      (n.op = .tensorIterator ∨ ∀ body, n.body = some body → body.Productive) →
        ∀ kind kind', (find? g id kind).isSome = true → (find? g id kind').isSome = true →
          kind = kind') ∧
    ∀ (name : String) (config : RunConfig) (kinds kinds' : List Cell),
      kinds.Perm [.lstm, .rnn, .gru] → kinds'.Perm [.lstm, .rnn, .gru] →
        let run := fun kinds : List Cell =>
          ({ name, rules := kinds.map iteratorRule, config } : RuleSet Body).toPass.run.apply g
        (run kinds).2 = (run kinds').2 ∧
          (run kinds).1.map Report.effects = (run kinds').1.map Report.effects := by
  refine ⟨fun id n hn hb kind kind' hfind hfind' => ?_, fun name config kinds kinds' hkinds hkinds' => ?_⟩
  · obtain ⟨plan, hfind⟩ := Option.isSome_iff_exists.1 hfind
    obtain ⟨plan', hfind'⟩ := Option.isSome_iff_exists.1 hfind'
    have hbody : ∀ body, n.body = some body → body.Productive :=
      hb.elim (fun hop body => hg id n body hn hop) fun hb => hb
    exact kind_unique_of_find? hn hn rfl hbody hfind hfind'
  · have hperm : (kinds.map iteratorRule).Perm (kinds'.map iteratorRule) :=
      (hkinds.trans hkinds'.symm).map _
    exact ((exclusive_iteratorRules kinds).alike_runRules hperm config hg).map_eq.symm

/-- The conversion for simple cells is the one that applies, whether it is tried first or second. -/
theorem conversion_order_irrelevant_recurrentLoop :
    let g := recurrentLoop bothOutputs
    let run := fun kinds : List Cell =>
      ({ name := "convert", rules := kinds.map iteratorRule } : RuleSet Body).toPass.run.apply g
    g.Productive ∧ [.rnn, .gru, .lstm].Perm [Cell.lstm, .rnn, .gru] ∧
      (run [.lstm, .rnn, .gru]).1 =
        .ok { matched := 2, applied := 1, eliminated := 1, iterations := 2, nodes := [2] } ∧
      (run [.rnn, .gru, .lstm]).1 =
        .ok { matched := 1, applied := 1, eliminated := 1, iterations := 2, nodes := [2] } ∧
      (run [.lstm, .rnn, .gru]).2 = (run [.rnn, .gru, .lstm]).2 := by
  intro g run
  have hg : g.Productive := by
    rintro (_ | _ | _ | id) n body hn hop hbody
    case succ.succ.zero =>
      obtain rfl := Option.some.inj hn
      obtain rfl := Option.some.inj hbody
      exact ⟨(Graph.ofSpecs_sound _ _ (by rfl) (by rfl)).1.numbered, by decide⟩
    case succ.succ.succ => exact absurd (show none = some n from hn) (by simp)
    all_goals
      obtain rfl := Option.some.inj hn
      exact absurd hop (by decide)
  have hperm : [.rnn, .gru, .lstm].Perm [Cell.lstm, .rnn, .gru] := by decide
  exact ⟨hg, hperm, by decide +kernel, by decide +kernel,
    ((conversion_order_irrelevant hg).2 "convert" {} _ _ (.refl _) hperm).1⟩

end LoopPlan

end Dataflow
