import Dataflow.Proofs.Recurrent.StepRun
import Dataflow.Proofs.Runtime.Iterations

/-!
# What a loop over a cell computes

A loop for which there is a plan runs its cell over the layers of the input along the time axis, one
layer in every iteration, and its outputs are the states in the order of the plan.

## Main definitions

* `Body.Regular` : what the body of a loop has to be.
* `LoopPlan.statesAt` : the states before an iteration.
* `LoopPlan.Runs` : the operands of a loop in a run.
* `LoopResult.Holds` : what an output of the loop node holds.

## Main statements

* `LoopPlan.Runs.cell?_of_iterate?` : the cell makes one step in every iteration.
* `LoopPlan.Runs.holds_of_outputValue?` : the outputs of the loop node.
-/

namespace Dataflow

/-- The parameters of a body are parameter nodes, its reshapes leave at most one dimension open,
and no output of the loop node has two descriptions. -/
structure Body.Regular (body : Body) : Prop where
  wellKept : body.graph.WellKept
  parameters : ∀ id ∈ body.params, ∃ n, body.graph.live? id = some n ∧ n.op = .parameter
  determined : body.graph.Determined
  nodup : (body.outputs.map OutputMap.output).Nodup

/-- What an output of the loop node holds after the given number of steps: a state after the last
step, or the hidden states after all steps, each as a layer at the position of the step. -/
def LoopResult.Holds (plan : LoopPlan) (states : Nat → List Grid) (steps : Nat) (t : Grid) :
    LoopResult → Prop
  | .sequence => ∀ k < steps, ∀ s, (states (k + 1))[0]? = some s →
      t.shape = s.shape.insertIdx plan.timeAxis steps ∧
        ∀ index, List.Forall₂ (· < ·) index s.shape →
          t.entry (index.insertIdx plan.timeAxis (visit plan.reverse steps k)) = s.entry index
  | .hidden => (states steps)[0]? = some t
  | .cell => (states steps)[1]? = some t

namespace LoopPlan

variable {I : Interpretation} {F : StepFunction} {g : Graph Body} {ρ : Environment}
  {plan : LoopPlan} {loop : Node Body} {body : Body} {step : CellStep} {walk : Walk}
  {counter : Option Value} {operands : List Grid}

/-- The operands of a loop in a run.  The counter of the loop is not used, and no tensor is empty. -/
structure Runs (I : Interpretation) (F : StepFunction) (g : Graph Body) (ρ : Environment)
    (plan : LoopPlan) (loop : Node Body) (body : Body) (step : CellStep) (walk : Walk)
    (counter : Option Value) (operands : List Grid) : Prop where
  follows : I.Follows F
  fits : plan.Fits g loop body step walk
  regular : body.Regular
  computes : List.Forall₂ (g.Computes I ρ) loop.inputs operands
  unused : ∀ v, counter = some v → body.graph.isUnused v = true
  nonzero : ∀ t ∈ operands, 0 ∉ t.shape

/-- The layer of the input that iteration number `k` reads. -/
def layerAt (plan : LoopPlan) (x : Grid) (k : Nat) : Grid :=
  x.layer plan.timeAxis (visit plan.reverse (x.lengthAt plan.timeAxis) k)

/-- The states before iteration number `k`. -/
def statesAt (F : StepFunction) (plan : LoopPlan) (x : Grid) (initial : List Grid) :
    (k : Nat) → List Grid
  | 0 => initial
  | k + 1 =>
    (F.cell? plan.kind plan.attributes (plan.layerAt x k) (statesAt F plan x initial k)
      plan.w.grid plan.r.grid plan.b.grid).getD []

namespace Runs

variable (hr : Runs I F g ρ plan loop body step walk counter operands)
include hr

theorem involved : step.Involved body.graph plan.kind :=
  CellStep.involved_of_find? hr.regular.wellKept.numbered hr.fits.found

/-! ### Parameters of the body -/

section Parameters

variable {previous : Option (List Grid)} {k : Nat} {v : Value} {t : Grid}

theorem argument?_of_computes {u : Use} (hread : body.graph.Reads u v) {p : Nat} {m : InputMap}
    (hp : body.paramIndex? v = some p) (hm : body.inputFor? p = some m)
    (h : body.graph.Computes I (body.environment counter operands previous k) v t) :
    Body.argument? operands previous k m = some t := by
  have hunused : counter ≠ some v := fun hc =>
    (hr.regular.wellKept.indexed.isUnused_iff.1 (hr.unused v hc)).2 u hread
  have hp' := hp
  unfold Body.paramIndex? at hp'
  split at hp'
  · next hindex =>
    have hv : v = ⟨v.node, 0⟩ := by rw [← hindex]
    have hmem : v.node ∈ body.params := by
      by_contra hne
      rw [List.idxOf?_eq_none_iff.2 hne] at hp'
      simp at hp'
    obtain ⟨n, hn, hop⟩ := hr.regular.parameters v.node hmem
    obtain ⟨-, henv, -⟩ := (Graph.computes_parameter_iff hn hop).1 h
    rw [Body.environment, ← hv, if_neg hunused, hp, Option.bind_eq_bind, Option.bind_some, hm,
      Option.bind_eq_bind, Option.bind_some] at henv
    exact henv
  · simp at hp'

theorem reads_cell {i : Nat} (hv : step.cell.inputs[i]? = some v) :
    body.graph.Reads ⟨step.cell.id, i⟩ v :=
  ⟨step.cell, hr.involved.cell, hv⟩

theorem exists_operand {input : Nat} {u : Value} (hu : loop.inputs[input]? = some u) :
    ∃ s, operands[input]? = some s ∧ g.Computes I ρ u s :=
  exists_of_forall₂_left hr.computes hu

/-- The weights are the same in every iteration. -/
theorem weight_of_computes {j : Nat}
    (hv : step.cell.inputs[1 + plan.kind.stateCount + j]? = some v)
    (h : body.graph.Computes I (body.environment counter operands previous k) v t) :
    [plan.w.grid, plan.r.grid, plan.b.grid][j]? = some t := by
  have hmap : [plan.w.grid, plan.r.grid, plan.b.grid] = plan.weights.map Tensor.grid := rfl
  rw [hmap, List.getElem?_map]
  cases hj : plan.weights[j]? with
  | none =>
    obtain ⟨i, rest, hin, hrest⟩ := hr.involved.cell_inputs
    have hlt := (List.getElem?_eq_some_iff.1 hv).1
    have hge := List.getElem?_eq_none_iff.1 hj
    rw [hin, List.length_cons, hrest] at hlt
    simp only [weights, List.length_cons, List.length_nil] at hge
    omega
  | some c =>
    obtain ⟨v', hv', hconst⟩ := hr.fits.weights j c hj
    obtain rfl := Option.some.inj (hv.symm.trans hv')
    obtain hc | ⟨p, input, param, u, hp, hm, hu, hc⟩ := loopConstant?_eq_some hconst
    · rw [h.eq_grid hc, Option.map_some]
    · obtain ⟨s, hs, hcomp⟩ := hr.exists_operand hu
      have ht : operands[input]? = some t := hr.argument?_of_computes (hr.reads_cell hv) hp hm h
      obtain rfl := Option.some.inj (hs.symm.trans ht)
      rw [hcomp.eq_grid hc, Option.map_some]

/-- A state is an initial one in the first iteration, and later the result of the cell in the
iteration before. -/
theorem state_of_computes {j : Nat} (hj : j < plan.kind.stateCount)
    (hv : step.cell.inputs[1 + j]? = some v)
    (h : body.graph.Computes I (body.environment counter operands previous k) v t) :
    ∃ (u : Value) (result : Nat), plan.states[j]? = some u ∧
      body.graph.outputs[result]? = some (step.cell.output j) ∧
      match previous with
      | some results => results[result]? = some t
      | none => g.Computes I ρ u t := by
  obtain ⟨u, hu⟩ : ∃ u, plan.states[j]? = some u :=
    ⟨_, List.getElem?_eq_getElem (hr.fits.length_states ▸ hj)⟩
  obtain ⟨v', hv', hinit⟩ := hr.fits.states j u hu
  obtain rfl := Option.some.inj (hv.symm.trans hv')
  obtain ⟨p, input, param, result, hp, hm, hresult, hinput⟩ := initialValue?_eq_some hinit
  refine ⟨u, result, hu, hresult, ?_⟩
  have ht := hr.argument?_of_computes (hr.reads_cell hv) hp hm h
  cases previous with
  | some results => exact ht
  | none =>
    obtain ⟨s, hs, hcomp⟩ := hr.exists_operand hinput
    obtain rfl := Option.some.inj (hs.symm.trans ht)
    exact hcomp

end Parameters

/-! ### The input -/

section Input

variable {x : Grid} (hx : g.Computes I ρ plan.x x)
include hx

theorem length_shape : x.shape.length = 3 := by
  obtain ⟨l, hl, hrank⟩ := hr.fits.layout
  rw [Layout.length_of_admits (hx.admits hl), hrank]

theorem exists_input : ∃ param param' input, body.paramIndex? step.x = some param ∧
    body.inputFor? param = some (.sliced input param' walk) ∧ operands[input]? = some x := by
  obtain ⟨param, param', input, hp, hm, hinput⟩ := hr.fits.x
  obtain ⟨s, hs, hcomp⟩ := hr.exists_operand hinput
  exact ⟨param, param', input, hp, hm, hcomp.unique hx ▸ hs⟩

theorem normalizeAxis_walk :
    (normalizeAxis walk.axis x.shape.length).toOption = some plan.timeAxis := by
  rw [hr.length_shape hx, hr.fits.axis]

/-- There are as many parts as the input has positions along the time axis. -/
theorem partCount?_eq {parts : Option Nat} (h : body.partCount? operands = some parts) :
    parts = some (x.lengthAt plan.timeAxis) := by
  obtain ⟨param, param', input, -, hm, hinput⟩ := hr.exists_input hx
  obtain ⟨t, axis, ht, haxis, hparts⟩ := Body.partCount?_eq_some h (List.mem_of_find?_eq_some hm)
  obtain rfl := Option.some.inj (hinput.symm.trans ht)
  rw [hr.normalizeAxis_walk hx, Option.some.injEq] at haxis
  rw [hparts, Walk.count_of_isFullUnit hr.fits.unit, haxis]

theorem length_layerAt (k : Nat) : (plan.layerAt x k).shape.length = 2 := by
  have hle := hr.fits.axis_le
  have hlen := hr.length_shape hx
  rw [layerAt, Grid.layer, Grid.shape_ofFn, List.length_eraseIdx_of_lt (by omega), hlen]

theorem zero_notMem_layerAt (k : Nat) : 0 ∉ (plan.layerAt x k).shape := by
  obtain ⟨_, _, input, -, -, hinput⟩ := hr.exists_input hx
  exact fun h => hr.nonzero x (List.mem_of_getElem? hinput) (List.mem_of_mem_eraseIdx h)

/-- The cell reads a layer of the input in every iteration. -/
theorem eq_layerAt {previous : Option (List Grid)} {k i : Nat} {t : Grid}
    (hk : k < x.lengthAt plan.timeAxis)
    (h : body.graph.Computes I (body.environment counter operands previous k)
      (step.squeeze.output i) t) : t = plan.layerAt x k := by
  obtain ⟨axes, hin⟩ := hr.involved.squeeze_inputs
  obtain ⟨s, hs, hdrop⟩ := Graph.eq_of_dropsAxis hr.follows hr.regular.determined
    hr.involved.squeeze hin h hr.fits.drops
  obtain ⟨param, param', input, hp, hm, hinput⟩ := hr.exists_input hx
  have hread : body.graph.Reads ⟨step.squeeze.id, 0⟩ step.x :=
    ⟨step.squeeze, hr.involved.squeeze, by simp [hin]⟩
  have harg := hr.argument?_of_computes hread hp hm hs
  have hvisit := @StepFunction.visit_lt (decide (walk.stride < 0)) _ _ hk
  rw [Body.argument?, hinput, Option.bind_eq_bind, Option.bind_some, hr.normalizeAxis_walk hx,
    Option.bind_eq_bind, Option.bind_some, Walk.first_of_isFullUnit hr.fits.unit,
    (Walk.isFullUnit_iff.1 hr.fits.unit).1, show (1 : Int).toNat = 1 from rfl,
    Grid.slice?_one hvisit, ← hr.fits.reverse, Option.some.injEq] at harg
  exact hdrop (plan.layerAt x k) (hr.length_layerAt hx k)
    (Nat.le_trans hr.fits.axis_le (Nat.le_succ 1)) (hr.zero_notMem_layerAt hx k) harg.symm

end Input

/-! ### The states -/

/-- The first state goes round the loop, so that it is computed in every iteration. -/
theorem exists_first_output {bound k : Nat} {results : List Grid}
    (h : body.iterate? (Graph.eval I bound) counter operands k = some results) :
    ∃ o, body.graph.Computes I (body.environment counter operands
      (body.previous? (Graph.eval I bound) counter operands k) k) (step.cell.output 0) o := by
  obtain ⟨u, hu⟩ : ∃ u, plan.states[0]? = some u :=
    ⟨_, List.getElem?_eq_getElem (hr.fits.length_states ▸ StepFunction.stateCount_pos plan.kind)⟩
  obtain ⟨w, -, hw⟩ := hr.fits.states 0 u hu
  obtain ⟨_, _, _, result, -, -, hresult, -⟩ := initialValue?_eq_some hw
  obtain ⟨o, -, ho⟩ := exists_of_forall₂_left (Body.forall₂_of_iterate? h) hresult
  exact ⟨o, ho⟩

/-- One iteration, when the states before it are known. -/
theorem step_of_states {x : Grid} {initial : List Grid} (hx : g.Computes I ρ plan.x x)
    {bound k : Nat} (hlen : (statesAt F plan x initial k).length = plan.kind.stateCount)
    (hk : k < x.lengthAt plan.timeAxis) {results : List Grid}
    (h : body.iterate? (Graph.eval I bound) counter operands k = some results)
    (hstates : ∀ j v t, j < plan.kind.stateCount → step.cell.inputs[1 + j]? = some v →
      body.graph.Computes I (body.environment counter operands
        (body.previous? (Graph.eval I bound) counter operands k) k) v t →
          (statesAt F plan x initial k)[j]? = some t) :
    (statesAt F plan x initial k).length = plan.kind.stateCount ∧
      F.cell? plan.kind plan.attributes (plan.layerAt x k) (statesAt F plan x initial k)
        plan.w.grid plan.r.grid plan.b.grid = some (statesAt F plan x initial (k + 1)) ∧
      ∀ s o, body.graph.Computes I (body.environment counter operands
        (body.previous? (Graph.eval I bound) counter operands k) k) (step.cell.output s) o →
          (statesAt F plan x initial (k + 1))[s]? = some o := by
  have hcell : ∀ s o, body.graph.Computes I (body.environment counter operands
      (body.previous? (Graph.eval I bound) counter operands k) k) (step.cell.output s) o →
      ∃ outs, F.cell? plan.kind plan.attributes (plan.layerAt x k) (statesAt F plan x initial k)
        plan.w.grid plan.r.grid plan.b.grid = some outs ∧ outs[s]? = some o := by
    intro s o ho
    rw [hr.fits.attributes]
    exact CellStep.exists_cell? hr.follows hr.involved (fun i t => hr.eq_layerAt hx hk) hlen hstates
      (fun j v t => hr.weight_of_computes) ho
  obtain ⟨o, ho⟩ := hr.exists_first_output h
  obtain ⟨outs, houts, -⟩ := hcell 0 o ho
  have hnext : statesAt F plan x initial (k + 1) = outs := by rw [statesAt, houts, Option.getD_some]
  refine ⟨hlen, hnext ▸ houts, fun s o ho => ?_⟩
  obtain ⟨outs', houts', hget⟩ := hcell s o ho
  obtain rfl := Option.some.inj (houts.symm.trans houts')
  rw [hnext, hget]

/-- The lengths of the weights are those of tensors at run time. -/
theorem lt_of_mem_weights {bound k : Nat} {results : List Grid}
    (h : body.iterate? (Graph.eval I bound) counter operands k = some results) :
    ∀ c ∈ plan.weights, ∀ n ∈ c.shape, n < 2 ^ 63 := by
  intro c hc n hn
  obtain ⟨j, hj⟩ := List.mem_iff_getElem?.1 hc
  obtain ⟨v, hv, -⟩ := hr.fits.weights j c hj
  obtain ⟨o, ho⟩ := hr.exists_first_output h
  obtain ⟨t, ht⟩ := CellStep.exists_operand hr.involved ho hv
  have hget := hr.weight_of_computes hv ht
  rw [show [plan.w.grid, plan.r.grid, plan.b.grid] = plan.weights.map Tensor.grid from rfl,
    List.getElem?_map, hj, Option.map_some, Option.some.injEq] at hget
  obtain ⟨m, l, -, -, hadmits, -⟩ := Graph.computes_iff.1 ht
  exact Layout.lt_of_admits hadmits (hget ▸ hn)

section States

variable {x : Grid} {initial : List Grid} (hx : g.Computes I ρ plan.x x)
  (hinit : List.Forall₂ (g.Computes I ρ) plan.states initial)
include hx hinit

/-- In every iteration the cell makes one step, from the states that the iterations before have
left. -/
theorem cell?_of_iterate? {bound k : Nat} {results : List Grid}
    (hk : k < x.lengthAt plan.timeAxis)
    (h : body.iterate? (Graph.eval I bound) counter operands k = some results) :
    (statesAt F plan x initial k).length = plan.kind.stateCount ∧
      F.cell? plan.kind plan.attributes (plan.layerAt x k) (statesAt F plan x initial k)
        plan.w.grid plan.r.grid plan.b.grid = some (statesAt F plan x initial (k + 1)) ∧
      ∀ s o, body.graph.Computes I (body.environment counter operands
        (body.previous? (Graph.eval I bound) counter operands k) k) (step.cell.output s) o →
          (statesAt F plan x initial (k + 1))[s]? = some o := by
  induction k generalizing results with
  | zero =>
    refine hr.step_of_states hx (hinit.length_eq.symm.trans hr.fits.length_states) hk h ?_
    intro j v t hj hv ht
    obtain ⟨u, result, hu, -, hcomp⟩ := hr.state_of_computes hj hv ht
    obtain ⟨t', ht', hcomp'⟩ := exists_of_forall₂_left hinit hu
    rw [statesAt, ht', hcomp'.unique hcomp]
  | succ k ih =>
    obtain ⟨before, hbefore⟩ := Body.exists_iterate?_of_le h (Nat.le_succ k)
    obtain ⟨hlen, hcell, hstates⟩ := ih (Nat.lt_of_succ_lt hk) hbefore
    obtain ⟨_, _, _, _, -, -, -, hlen', -⟩ := StepFunction.cell?_eq_some hlen hcell
    refine hr.step_of_states hx hlen' hk h ?_
    intro j v t hj hv ht
    rw [Body.previous?, hbefore] at ht
    obtain ⟨u, result, -, hresult, hget⟩ := hr.state_of_computes hj hv ht
    obtain ⟨t', ht', hcomp⟩ := exists_of_forall₂_left (Body.forall₂_of_iterate? hbefore) hresult
    obtain rfl := Option.some.inj (hget.symm.trans ht')
    exact hstates j t hcomp

/-- The lengths of the input and of the initial states, none of which is zero. -/
theorem exists_shape {bound : Nat} {results : List Grid} (hpos : 0 < x.lengthAt plan.timeAxis)
    (h : body.iterate? (Graph.eval I bound) counter operands 0 = some results) :
    ∃ batch width, x.shape = [batch, width].insertIdx plan.timeAxis (x.lengthAt plan.timeAxis) ∧
      batch ≠ 0 ∧ plan.hidden ≠ 0 ∧ ∀ s ∈ initial, s.shape = [batch, plan.hidden] := by
  obtain ⟨hlen, hcell, -⟩ := hr.cell?_of_iterate? hx hinit hpos h
  obtain ⟨batch, width, gates, hidden, hlayer, hgates, hshape, -⟩ :=
    StepFunction.cell?_eq_some hlen hcell
  obtain ⟨rows, hrows⟩ := hr.fits.hidden
  obtain rfl : plan.hidden = hidden := by
    have hrshape : plan.r.grid.shape = [rows, plan.hidden] := hrows
    exact (by simpa using hrshape.symm.trans hgates : rows = gates ∧ plan.hidden = hidden).2
  have hlayer : x.shape.eraseIdx plan.timeAxis = [batch, width] := hlayer
  refine ⟨batch, width, ?_, ?_⟩
  · rw [← hlayer, insertIdx_eraseIdx_of_getElem? (Grid.getElem?_lengthAt (Nat.ne_of_gt hpos))]
  -- The first initial state is an operand of the loop, and so it is not empty.
  obtain ⟨u, hu⟩ : ∃ u, plan.states[0]? = some u :=
    ⟨_, List.getElem?_eq_getElem (hr.fits.length_states ▸ StepFunction.stateCount_pos plan.kind)⟩
  obtain ⟨v, -, hv⟩ := hr.fits.states 0 u hu
  obtain ⟨_, input, _, _, -, -, -, hinput⟩ := initialValue?_eq_some hv
  obtain ⟨s, hs, hcomp⟩ := hr.exists_operand hinput
  obtain ⟨s', hs', hcomp'⟩ := exists_of_forall₂_left hinit hu
  obtain rfl := hcomp.unique hcomp'
  have hzero := hr.nonzero s (List.mem_of_getElem? hs)
  rw [hshape s (List.mem_of_getElem? hs')] at hzero
  simp only [List.mem_cons, List.not_mem_nil, or_false, not_or] at hzero
  exact ⟨fun h => hzero.1 h.symm, fun h => hzero.2 h.symm, hshape⟩

/-- As many iterations as the input has positions make as many steps of the cell. -/
theorem cells_of_iterate? {bound k : Nat} {results : List Grid}
    (hk : k < x.lengthAt plan.timeAxis)
    (h : body.iterate? (Graph.eval I bound) counter operands k = some results) :
    ∀ j < k + 1, F.cell? plan.kind plan.attributes (plan.layerAt x j) (statesAt F plan x initial j)
      plan.w.grid plan.r.grid plan.b.grid = some (statesAt F plan x initial (j + 1)) := by
  intro j hj
  obtain ⟨before, hbefore⟩ := Body.exists_iterate?_of_le h (Nat.le_of_lt_succ hj)
  exact (hr.cell?_of_iterate? hx hinit (by omega) hbefore).2.1

theorem shape_statesAt {batch bound k : Nat} {results : List Grid}
    (hk : k < x.lengthAt plan.timeAxis)
    (h : body.iterate? (Graph.eval I bound) counter operands k = some results)
    (hshape : ∀ s ∈ initial, s.shape = [batch, plan.hidden]) :
    ∀ s ∈ statesAt F plan x initial (k + 1), s.shape = [batch, plan.hidden] :=
by
  have hcells := hr.cells_of_iterate? hx hinit hk h
  have hlen : (statesAt F plan x initial 0).length = plan.kind.stateCount :=
    hinit.length_eq.symm.trans hr.fits.length_states
  exact (StepFunction.states_of_cells hlen hshape hcells (Nat.le_refl _)).2.1

/-- The result of an iteration behind the node that puts the time axis back. -/
theorem eq_insertAxis_of_iterate? {bound k r : Nat} {results : List Grid} {t : Grid} {batch : Nat}
    (hk : k < x.lengthAt plan.timeAxis)
    (h : body.iterate? (Graph.eval I bound) counter operands k = some results)
    (hv : body.resultValue? r = some (step.unsqueeze.output 0)) (ht : results[r]? = some t)
    (hshape : ∀ s ∈ initial, s.shape = [batch, plan.hidden]) (hbatch : batch ≠ 0)
    (hhidden : plan.hidden ≠ 0) :
    ∃ s, t = s.insertAxis plan.timeAxis ∧ s.shape = [batch, plan.hidden] ∧
      (statesAt F plan x initial (k + 1))[0]? = some s := by
  obtain ⟨-, -, hstates⟩ := hr.cell?_of_iterate? hx hinit hk h
  obtain ⟨t', ht', hcomp⟩ := exists_of_forall₂_left (Body.forall₂_of_iterate? h) hv
  obtain rfl := Option.some.inj (ht'.symm.trans ht)
  obtain ⟨axes, hin⟩ := hr.involved.unsqueeze_inputs
  obtain ⟨s, hs, hinsert⟩ := Graph.eq_of_insertsAxis hr.follows hr.regular.determined
    hr.involved.unsqueeze hin hcomp hr.fits.inserts
  have hs' := hstates 0 s hs
  have hsshape := hr.shape_statesAt hx hinit hk h hshape s (List.mem_of_getElem? hs')
  refine ⟨s, hinsert (by rw [hsshape]; rfl) (Nat.le_trans hr.fits.axis_le (Nat.le_succ 1)) ?_,
    hsshape, hs'⟩
  rw [hsshape]
  simpa using ⟨hbatch.symm, hhidden.symm⟩

/-- The results of all iterations, laid out along the time axis. -/
theorem holds_of_concat? {bound r axis : Nat} {stride : Int} {parts : List Grid} {first t : Grid}
    (hv : body.resultValue? r = some (step.unsqueeze.output 0))
    (hparts : List.Forall₂ (fun k p => (do
      (← body.iterate? (Graph.eval I bound) counter operands k)[r]?) = some p)
      (List.range (x.lengthAt plan.timeAxis)) parts)
    (hfirst : parts.head? = some first)
    (haxis : first.shape.length = 3 → axis = plan.timeAxis) (hstride : stride = walk.stride)
    (ht : Grid.concat? axis (if stride < 0 then parts.reverse else parts) = some t) :
    0 < x.lengthAt plan.timeAxis ∧ LoopResult.sequence.Holds plan (statesAt F plan x initial)
      (x.lengthAt plan.timeAxis) t := by
  set T := x.lengthAt plan.timeAxis with hT
  have hlen : parts.length = T := by rw [← hparts.length_eq, List.length_range]
  have hpos : 0 < T := by
    rw [← hlen]
    exact List.length_pos_of_mem (List.mem_of_head? hfirst)
  have hone : ∀ k < T, ∃ results p, body.iterate? (Graph.eval I bound) counter operands k =
      some results ∧ results[r]? = some p ∧ parts[k]? = some p := by
    intro k hk
    obtain ⟨p, hp, hbind⟩ := exists_of_forall₂_left hparts (List.getElem?_range hk)
    obtain ⟨results, hresults, hget⟩ := Option.bind_eq_some_iff.1 hbind
    exact ⟨results, p, hresults, hget, hp⟩
  obtain ⟨results, _, hresults, -⟩ := hone 0 hpos
  obtain ⟨batch, width, -, hbatch, hhidden, hshape⟩ := hr.exists_shape hx hinit hpos hresults
  -- The hidden states, in the order of the iterations.
  obtain ⟨hidden, hhiddenDef⟩ : ∃ hidden : Nat → Grid, ∀ k s,
      (statesAt F plan x initial (k + 1))[0]? = some s → hidden k = s :=
    ⟨fun k => ((statesAt F plan x initial (k + 1))[0]?).getD x, fun k s hs => by simp [hs]⟩
  have hlayer : ∀ k < T, parts[k]? = some ((hidden k).insertAxis plan.timeAxis) ∧
      (hidden k).shape = [batch, plan.hidden] := by
    intro k hk
    obtain ⟨results, p, hresults, hget, hp⟩ := hone k hk
    obtain ⟨s, rfl, hsshape, hs⟩ := hr.eq_insertAxis_of_iterate? hx hinit hk hresults hv hget hshape
      hbatch hhidden
    rw [hhiddenDef k s hs]
    exact ⟨hp, hsshape⟩
  have hparts' : parts = (List.range T).map fun k => (hidden k).insertAxis plan.timeAxis := by
    refine List.ext_getElem? fun k => ?_
    by_cases hk : k < T
    · rw [(hlayer k hk).1, List.getElem?_map, List.getElem?_range hk]
      rfl
    · rw [List.getElem?_eq_none (by omega), List.getElem?_eq_none (by simp; omega)]
  have hle : plan.timeAxis ≤ 2 := Nat.le_trans hr.fits.axis_le (Nat.le_succ 1)
  have haxis : axis = plan.timeAxis := by
    refine haxis ?_
    rw [List.head?_eq_getElem?, (hlayer 0 hpos).1, Option.some.injEq] at hfirst
    rw [← hfirst, Grid.shape_insertAxis, (hlayer 0 hpos).2]
    exact List.length_insertIdx_of_le_length hle _
  have hreverse : (stride < 0) ↔ plan.reverse = true := by
    rw [hr.fits.reverse, decide_eq_true_eq, hstride]
  simp only [haxis, hparts', hreverse] at ht
  refine ⟨hpos, fun k hk s hs => ?_⟩
  have hs' := hhiddenDef k s hs
  have hlayers := Grid.concat?_layers (fun k hk => (hlayer k hk).2) hle ht hk
  rw [hs'] at hlayers
  rw [← hs', (hlayer k hk).2, hs']
  exact hlayers

/-- What an output of the loop node holds. -/
theorem holds_of_outputValue? {bound output : Nat} {d : OutputMap} {result : LoopResult} {t : Grid}
    (hd : loopResult? plan.kind body step walk plan.timeAxis d = some (result, output))
    (ht : body.outputValue? (Graph.eval I bound) counter operands (x.lengthAt plan.timeAxis) d =
      some t) :
    0 < x.lengthAt plan.timeAxis ∧
      result.Holds plan (statesAt F plan x initial) (x.lengthAt plan.timeAxis) t := by
  obtain ⟨v, hv, hd⟩ := Option.bind_eq_some_iff.1 hd
  cases d with
  | last r output' =>
    obtain ⟨_, hpos, ht⟩ := Option.bind_eq_some_iff.1 ht
    rw [Option.guard_eq_some'] at hpos
    obtain ⟨results, hresults, ht⟩ := Option.bind_eq_some_iff.1 ht
    refine ⟨hpos, ?_⟩
    obtain ⟨-, -, hstates⟩ := hr.cell?_of_iterate? hx hinit (Nat.sub_lt hpos Nat.one_pos) hresults
    obtain ⟨t', ht', hcomp⟩ := exists_of_forall₂_left (Body.forall₂_of_iterate? hresults) hv
    obtain rfl := Option.some.inj (ht'.symm.trans ht)
    rw [Nat.sub_add_cancel hpos] at hstates
    dsimp only at hd
    split at hd
    · next hhidden =>
      obtain ⟨rfl, -⟩ := Prod.mk.inj (Option.some.inj hd)
      exact hstates 0 t' (hhidden ▸ hcomp)
    · split at hd
      · next hcell =>
        obtain ⟨rfl, -⟩ := Prod.mk.inj (Option.some.inj hd)
        exact hstates 1 t' (hcell.2 ▸ hcomp)
      · simp at hd
  | concat r output' w =>
    obtain ⟨_, hw, hresult⟩ := Option.bind_eq_some_iff.1 hd
    rw [Option.guard_eq_some'] at hw
    obtain ⟨hunsqueeze, -, hstride, haxis⟩ := hw
    obtain ⟨rfl, -⟩ := Prod.mk.inj (Option.some.inj hresult)
    obtain ⟨parts, hparts, ht⟩ := Option.bind_eq_some_iff.1 ht
    obtain ⟨first, hfirst, ht⟩ := Option.bind_eq_some_iff.1 ht
    obtain ⟨axis, haxis', ht⟩ := Option.bind_eq_some_iff.1 ht
    exact hr.holds_of_concat? hx hinit (hunsqueeze ▸ hv) (mapM_eq_some_iff.1 hparts) hfirst
      (fun hrank => by rw [hrank, haxis] at haxis'; exact Option.some.inj haxis'.symm) hstride ht

end States

end Runs

/-! ### The loop node -/

/-- A loop as so many steps of its cell, with the states before every step. -/
structure Unrolled (I : Interpretation) (F : StepFunction) (g : Graph Body) (ρ : Environment)
    (plan : LoopPlan) (x : Grid) (states : Nat → List Grid) (batch width steps : Nat) : Prop where
  pos : 0 < steps
  input : g.Computes I ρ plan.x x
  shape_input : x.shape = [batch, width].insertIdx plan.timeAxis steps
  initial : List.Forall₂ (g.Computes I ρ) plan.states (states 0)
  shape_initial : ∀ s ∈ states 0, s.shape = [batch, plan.hidden]
  cells : ∀ k < steps, F.cell? plan.kind plan.attributes (plan.layerAt x k) (states k)
    plan.w.grid plan.r.grid plan.b.grid = some (states (k + 1))
  weights : ∀ c ∈ plan.weights, ∀ n ∈ c.shape, n < 2 ^ 63

/-- The described output of a loop node, after as many iterations as the input has positions. -/
theorem Runs.exists_unrolled (hr : Runs I F g ρ plan loop body step walk counter operands) {x : Grid}
    (hx : g.Computes I ρ plan.x x) {bound i : Nat} {d : OutputMap} {t : Grid}
    (hd : body.outputFor? i = some d)
    (ht : body.outputValue? (Graph.eval I bound) counter operands (x.lengthAt plan.timeAxis) d =
      some t) :
    ∃ states batch width result,
      Unrolled I F g ρ plan x states batch width (x.lengthAt plan.timeAxis) ∧
        (result, i) ∈ plan.results ∧ result.Holds plan states (x.lengthAt plan.timeAxis) t := by
  obtain ⟨initial, hinit⟩ : ∃ initial, List.Forall₂ (g.Computes I ρ) plan.states initial := by
    refine exists_forall₂ fun u hu => ?_
    obtain ⟨j, hj⟩ := List.mem_iff_getElem?.1 hu
    obtain ⟨v, -, hv⟩ := hr.fits.states j u hj
    obtain ⟨_, input, _, _, -, -, -, hinput⟩ := initialValue?_eq_some hv
    obtain ⟨s, -, hs⟩ := hr.exists_operand hinput
    exact ⟨s, hs⟩
  obtain ⟨j, hj⟩ := List.mem_iff_getElem?.1 (List.mem_of_find?_eq_some hd)
  obtain ⟨⟨result, output⟩, hresult, hmatch⟩ :=
    exists_of_forall₂_left (mapM_eq_some_iff.1 hr.fits.results) hj
  have hfound : body.outputs.find? (·.output == i) = some d := hd
  have hindex : d.output = i := beq_iff_eq.1 (List.find?_some hfound :)
  obtain rfl : output = i := (output_of_loopResult? hmatch).trans hindex
  obtain ⟨hpos, last, hlast⟩ := Body.exists_iterate?_of_outputValue? ht
  obtain ⟨first, hfirst⟩ := Body.exists_iterate?_of_le hlast (Nat.zero_le _)
  obtain ⟨batch, width, hshape, -, -, hinitial⟩ := hr.exists_shape hx hinit hpos hfirst
  have hcells := hr.cells_of_iterate? hx hinit (Nat.sub_lt hpos Nat.one_pos) hlast
  rw [Nat.sub_add_cancel hpos] at hcells
  exact ⟨statesAt F plan x initial, batch, width, result,
    ⟨hpos, hx, hshape, hinit, hinitial, hcells, hr.lt_of_mem_weights hlast⟩,
    List.mem_of_getElem? hresult, (hr.holds_of_outputValue? hx hinit hmatch ht).2⟩

/-- A trip count that is unlimited, or that is the length of the input, lets the loop run over the
whole input. -/
theorem Plain.limit_eq {control : LoopControl} {count : Int}
    (hp : Plain g plan loop body control count) {x : Grid} (hx : g.Computes I ρ plan.x x) :
    (if count < 0 then x.lengthAt plan.timeAxis
      else min count.toNat (x.lengthAt plan.timeAxis)) = x.lengthAt plan.timeAxis := by
  obtain rfl | hdim := hp.unlimited
  · rfl
  · obtain ⟨l, hl, hdim⟩ := Option.bind_eq_some_iff.1 hdim
    obtain ⟨n, hn, hadmits⟩ :=
      exists_of_forall₂_left (Layout.admits_iff.1 (hx.admits hl)) hdim
    have hlength : x.lengthAt plan.timeAxis = n := by
      rw [Grid.lengthAt, List.getD_eq_getElem?_getD, hn]
      rfl
    have hcount := (Dim.admits_iff.1 hadmits).2 _ rfl
    unfold Word.unsigned at hcount
    rw [hlength]
    split
    · rfl
    · omega

/-- **A loop is as many steps of its cell as its input has positions.** -/
theorem Fits.exists_unrolled (hI : I.Follows F) (hf : plan.Fits g loop body step walk)
    (hb : body.Regular) (hn : g.live? plan.loop = some loop)
    (hop : loop.op = .tensorIterator ∨ loop.op = .loop ∧ plan.isPlain g = true)
    (hzero : ∀ v ∈ loop.inputs, ∀ s, g.Computes I ρ v s → 0 ∉ s.shape) {i : Nat} {t : Grid}
    (h : g.Computes I ρ ⟨plan.loop, i⟩ t) :
    ∃ x states batch width steps result, Unrolled I F g ρ plan x states batch width steps ∧
      (result, i) ∈ plan.results ∧ result.Holds plan states steps t := by
  obtain ⟨operands, bound, hoperands, hvalue⟩ :=
    h.exists_loopValue? hn (hop.imp_right fun h => h.1) fun ts =>
      hI.loop _ _ ts (hop.imp_right fun h => h.1)
  have hnonzero : ∀ s ∈ operands, 0 ∉ s.shape := by
    intro s hs
    obtain ⟨j, hj⟩ := List.mem_iff_getElem?.1 hs
    obtain ⟨v, hv, hcomp⟩ := exists_of_forall₂_right hoperands hj
    exact hzero v (List.mem_of_getElem? hv) s hcomp
  obtain ⟨_, _, input, -, -, hinput⟩ := hf.x
  obtain ⟨x, -, hx⟩ := exists_of_forall₂_left hoperands hinput
  rw [Node.loopValue?, hf.nested, Option.bind_eq_bind, Option.bind_some] at hvalue
  obtain ⟨d, hd, hvalue⟩ := Option.bind_eq_some_iff.1 hvalue
  obtain hop | ⟨hop, hplain⟩ := hop
  · have hr : Runs I F g ρ plan loop body step walk none operands :=
      ⟨hI, hf, hb, hoperands, fun v hv => by simp at hv, hnonzero⟩
    rw [if_neg (by rw [hop]; decide)] at hvalue
    obtain ⟨steps, hsteps, hvalue⟩ := Option.bind_eq_some_iff.1 hvalue
    have hsteps' := hr.partCount?_eq hx (Option.join_eq_some_iff.1 hsteps)
    rw [Option.some.inj hsteps'] at hvalue
    obtain ⟨states, batch, width, result, hunrolled, hresult⟩ := hr.exists_unrolled hx hd hvalue
    exact ⟨x, states, batch, width, _, result, hunrolled, hresult⟩
  · obtain ⟨control, count, hp⟩ := plain_of_isPlain hf.node hf.nested hplain
    rw [if_pos hop, hp.controlled, Option.bind_eq_bind, Option.bind_some] at hvalue
    obtain ⟨limit, hlimit, hvalue⟩ := Option.bind_eq_some_iff.1 hvalue
    obtain ⟨steps, hsteps, hvalue⟩ := Option.bind_eq_some_iff.1 hvalue
    have hr : Runs I F g ρ plan loop body step walk (control.counter.bind body.paramValue?)
        operands :=
      ⟨hI, hf, hb, hoperands, hp.counter, hnonzero⟩
    obtain ⟨v, hv, htrip⟩ := hp.trip
    obtain ⟨trip, htripOperand, htripComp⟩ := exists_of_forall₂_left hoperands hv
    obtain ⟨v', hv', hstart⟩ := hp.start
    obtain ⟨start, hstartOperand, hstartComp⟩ := exists_of_forall₂_left hoperands hv'
    obtain ⟨c, hc, hcondition⟩ := hp.condition
    have hlimit' := Body.limit?_eq_some hlimit htripOperand hstartOperand (htripComp.ints?_eq htrip)
      (hstartComp.ints?_eq hstart) fun p hp => hr.partCount?_eq hx hp
    rw [hp.limit_eq hx] at hlimit'
    have hsteps' := Body.eq_of_stepsFrom? (fun k results hresults => ?_) hsteps
    · obtain rfl := Option.some.inj (hlimit'.symm.trans hsteps')
      obtain ⟨states, batch, width, result, hunrolled, hresult⟩ := hr.exists_unrolled hx hd hvalue
      exact ⟨x, states, batch, width, _, result, hunrolled, hresult⟩
    · obtain ⟨flag, hflag, hcomp⟩ := exists_of_forall₂_left (Body.forall₂_of_iterate? hresults) hc
      exact ⟨flag, hflag, hcomp.ints?_eq hcondition⟩

end LoopPlan

end Dataflow
