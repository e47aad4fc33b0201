import Dataflow.Proofs.Recurrent.LoopAtomicity
import Dataflow.Proofs.Recurrent.LoopReaders

/-!
# The layouts after a loop has been replaced

The sequence node works on batch-major sequences with an axis for the directions.  Its results lose
this axis, and a sequence of hidden states gets the axis order of the input back.  What the readers of
the loop node come to hold so has the shape that they expect: the shape of the input with the hidden
size as the last dimension, or one hidden state for every entry of the batch.

## Main definitions

* `LoopPlan.portLayout` : the layout of what takes the place of a described output.
* `LoopPlan.Relaid` : the readers of the loop node hold values with these layouts.
* `LoopPlan.HoldsWeights` : a sequence node with the weights of the cell as constants.

## Main statements

* `LoopPlan.Assembly.Ready.presented` : the layouts of the outputs of the sequence node, as presented.
* `LoopPlan.Assembly.Ready.holdsWeights` : the weights that the sequence node reads.
* `LoopPlan.layouts_convert` : what a conversion leaves to the readers, and its sequence node.
* `LoopPlan.exists_not_layouts_convert` : weights without rows.
-/

namespace Dataflow

namespace LoopPlan

open Dataflow.Graph (KeepsNode)

variable {g g' : Graph Body} {plan : LoopPlan} {a : Assembly} {σ : Value → Value} {l : Layout}
  {loop : Node Body} {body : Body} {step : CellStep} {walk : Walk} {d : OutputMap}
  {result : LoopResult} {batch : Dim} {i : Nat}

/-- The layout of what takes the place of a described output: the layout of the input with the hidden
size as the last dimension, or a hidden state for every entry of the batch. -/
def portLayout (plan : LoopPlan) (l : Layout) (batch : Dim) : OutputMap → Layout
  | .concat .. => .planar (l.shape.setDim 2 (.known plan.hidden)) l.elementType
  | .last .. => .planar ⟨[batch, .known plan.hidden]⟩ l.elementType

/-- The listed readers of every value hold the value in its place, and what takes the place of the
described outputs of the loop node has the layouts of these outputs. -/
structure Relaid (g : Graph Body) (plan : LoopPlan) (body : Body) (σ : Value → Value)
    (g' : Graph Body) : Prop where
  fixes : ∀ v, v.node ≠ plan.loop → σ v = v
  outputs : g'.outputs = g.outputs.map σ
  readers : ∀ v, ∀ u ∈ g.uses v, g'.input? u = some (σ v)
  ports : ∃ l batch, g.layout? plan.x = some l ∧ l.shape.rank = 3 ∧
    l.shape.dim? (1 - plan.timeAxis) = some batch ∧
      ∀ d ∈ body.outputs, g.slots.length ≤ (σ ⟨plan.loop, d.output⟩).node ∧
        g'.Declares (σ ⟨plan.loop, d.output⟩) (plan.portLayout l batch d)

/-- The node is a new sequence node, and its last operands are new constants that hold the elements of
the weights, in shapes with an axis for the directions. -/
structure HoldsWeights (g : Graph Body) (plan : LoopPlan) (sequence : Nat) (g' : Graph Body) :
    Prop where
  sized : ∃ l width, g.layout? plan.x = some l ∧ l.shape.dim? 2 = some width ∧
    Sized plan.kind plan.w plan.r plan.b plan.hidden width
  new : g.slots.length ≤ sequence
  live : ∃ n, g'.live? sequence = some n ∧ n.op = plan.kind.sequenceOp
  weights : ∀ i t, plan.weights[i]? = some t → ∃ v u,
    g'.input? ⟨sequence, plan.kind.stateCount + 2 + i⟩ = some v ∧ g.slots.length ≤ v.node ∧
      g'.HoldsConstant v u ∧ u.shape = 1 :: t.shape ∧ u.elements = t.elements

/-! ### The sequence node -/

/-- The sequence is in batch-major order, and keeps its element type. -/
theorem Assembly.Ready.layout_eq (ha : a.Ready g plan) (hf : plan.Fits g loop body step walk)
    (hl : g.layout? plan.x = some l) (hrank : l.shape.rank = 3) :
    l.shape.dim? (1 - plan.timeAxis) = some a.batch ∧ l.shape.dim? plan.timeAxis = some a.time ∧
      a.layout.elementType = l.elementType := by
  have hlayout := ha.layout_x
  have hbatch := ha.dim_batch
  have htime := ha.dim_time
  obtain ⟨⟨dims⟩, type, format⟩ := l
  match dims, hrank with
  | [p, q, k], _ =>
    obtain ⟨haxis, htranspose⟩ | ⟨haxis, hx, hfirst⟩ := apply_batchMajor_ok ha.apply_x
    · obtain ⟨m, l', hm, hl', -, hx, hfirst⟩ := Edit.apply_transpose_ok_iff.1 htranspose
      obtain rfl := Option.some.inj (hl.symm.trans hm)
      obtain rfl : Layout.planar ⟨[q, p, k]⟩ type = l' := Except.ok.inj hl'
      rw [hx, hfirst, Graph.declares_pushWithInts.layout?] at hlayout
      rw [← Option.some.inj hlayout] at hbatch htime ⊢
      rw [haxis]
      exact ⟨hbatch, htime, rfl⟩
    · rw [← hx, ← hfirst, hl] at hlayout
      rw [← Option.some.inj hlayout] at hbatch htime ⊢
      rw [show plan.timeAxis = 1 from Nat.le_antisymm hf.axis_le (Nat.pos_of_ne_zero haxis)]
      exact ⟨hbatch, htime, rfl⟩

/-- The layout of the output of the sequence node that holds a result. -/
def Assembly.resultLayout (a : Assembly) (plan : LoopPlan) : LoopResult → Layout
  | .sequence => .planar ⟨[a.batch, .known 1, a.time, .known plan.hidden]⟩ a.layout.elementType
  | .hidden | .cell => .planar ⟨[a.batch, .known 1, .known plan.hidden]⟩ a.layout.elementType

theorem Assembly.declares_spec (a : Assembly) (hle : result.output ≤ plan.kind.stateCount) :
    ((a.weighted plan).push (a.spec plan)).Declares ⟨(a.weighted plan).slots.length, result.output⟩
      (a.resultLayout plan result) := by
  refine Graph.declares_push_new ?_
  cases result with
  | sequence => rfl
  | hidden | cell =>
    simp only [spec, sequenceSpec, LoopResult.output, List.getElem?_cons_succ,
      List.getElem?_replicate]
    exact if_pos hle

/-- The sequence node has the results of the loop as outputs. -/
theorem Fits.output_le_stateCount (hf : plan.Fits g loop body step walk)
    (hmem : (result, i) ∈ plan.results) : result.output ≤ plan.kind.stateCount := by
  have hone : 1 ≤ plan.kind.stateCount := by
    unfold Cell.stateCount
    split <;> decide
  cases result with
  | sequence => exact Nat.zero_le _
  | hidden => exact hone
  | cell =>
    exact (hf.stateCount_of_cell (List.ne_nil_of_mem (mem_outputsOf.2 hmem))).ge

/-- A description of an output, and the result that the output holds. -/
theorem Fits.exists_result (hf : plan.Fits g loop body step walk) (hd : d ∈ body.outputs) :
    ∃ result, (result, d.output) ∈ plan.results ∧
      loopResult? plan.kind body step walk plan.timeAxis d = some (result, d.output) := by
  obtain ⟨i, hi⟩ := List.mem_iff_getElem?.1 hd
  obtain ⟨⟨result, o⟩, hr, hresult⟩ :=
    exists_of_forall₂_left (mapM_eq_some_iff.1 hf.results) hi
  obtain rfl := output_of_loopResult? hresult
  exact ⟨result, List.mem_of_getElem? hr, hresult⟩

/-- All positions together are the sequence, and the last one is a state. -/
theorem result_of_loopResult? {kind : Cell} {axis : Nat}
    (h : loopResult? kind body step walk axis d = some (result, i)) :
    match d with
    | .concat .. => result = .sequence
    | .last .. => result ≠ .sequence := by
  obtain ⟨v, -, h⟩ := Option.bind_eq_some_iff.1 h
  cases d with
  | concat r o w =>
    obtain ⟨_, -, h⟩ := Option.bind_eq_some_iff.1 h
    exact (Prod.mk.inj (Option.some.inj h)).1.symm
  | last r o =>
    dsimp only at h ⊢
    split at h
    · exact (Prod.mk.inj (Option.some.inj h)).1 ▸ by decide
    · split at h
      · exact (Prod.mk.inj (Option.some.inj h)).1 ▸ by decide
      · simp at h

/-- The result of the sequence node that takes the place of a described output has, as it is presented,
the layout of this output. -/
theorem Assembly.Ready.presented (ha : a.Ready g plan) (hf : plan.Fits g loop body step walk)
    (hl : g.layout? plan.x = some l) (hrank : l.shape.rank = 3)
    (hd : loopResult? plan.kind body step walk plan.timeAxis d = some (result, i)) :
    (a.resultLayout plan result).presented (plan.swaps result) =
      .ok (plan.portLayout l a.batch d) := by
  obtain ⟨hbatch, htime, htype⟩ := ha.layout_eq hf hl hrank
  have hresult := result_of_loopResult? hd
  cases d with
  | concat r o w =>
    obtain rfl : result = .sequence := hresult
    obtain ⟨⟨dims⟩, type, format⟩ := l
    match dims, hrank with
    | [p, q, k], _ =>
      obtain haxis | haxis := Nat.le_one_iff_eq_zero_or_eq_one.1 hf.axis_le
      · rw [haxis] at hbatch htime
        obtain rfl : q = a.batch := Option.some.inj hbatch
        obtain rfl : p = a.time := Option.some.inj htime
        have hswaps : plan.swaps .sequence = true := by simp [swaps, haxis]
        rw [hswaps, resultLayout, htype]
        rfl
      · rw [haxis] at hbatch htime
        obtain rfl : p = a.batch := Option.some.inj hbatch
        obtain rfl : q = a.time := Option.some.inj htime
        have hswaps : plan.swaps .sequence = false := by simp [swaps, haxis]
        rw [hswaps, resultLayout, htype]
        rfl
  | last r o =>
    have hswaps : plan.swaps result = false := by simp [swaps, hresult]
    have hlayout : a.resultLayout plan result =
        .planar ⟨[a.batch, .known 1, .known plan.hidden]⟩ a.layout.elementType := by
      cases result with
      | sequence => exact absurd rfl hresult
      | hidden | cell => rfl
    rw [hswaps, hlayout, htype]
    rfl

/-! ### The weights -/

theorem Unsqueezed.length_eq {vs ws : List Value} (h : Unsqueezed g vs g' ws) :
    ws.length = vs.length := by
  induction h with
  | nil => rfl
  | cons _ _ ih => simp [ih]

/-- The weights with an axis for the directions. -/
def Assembly.weights (a : Assembly) : List Tensor :=
  [a.w, a.r, a.b]

/-- The constants keep the elements of the weights of the cell. -/
theorem Assembly.Ready.exists_weight (ha : a.Ready g plan) {t : Tensor}
    (ht : plan.weights[i]? = some t) :
    ∃ u, a.weights[i]? = some u ∧ u.shape = 1 :: t.shape ∧ u.elements = t.elements := by
  match i, ht with
  | 0, ht =>
    obtain rfl := Option.some.inj ht
    exact ⟨a.w, rfl, Tensor.insertAxis_zero ha.insertAxis_w⟩
  | 1, ht =>
    obtain rfl := Option.some.inj ht
    exact ⟨a.r, rfl, Tensor.insertAxis_zero ha.insertAxis_r⟩
  | 2, ht =>
    obtain rfl := Option.some.inj ht
    exact ⟨a.b, rfl, Tensor.insertAxis_zero ha.insertAxis_b⟩
  | i + 3, ht => simp [LoopPlan.weights] at ht

/-- The weights are the last operands of the sequence node. -/
theorem Assembly.Ready.getElem?_operands (ha : a.Ready g plan)
    (hf : plan.Fits g loop body step walk) (hi : i < 3) :
    a.operands[plan.kind.stateCount + 2 + i]? = some ⟨a.third.slots.length + i, 0⟩ := by
  have hlen : a.states.length = plan.kind.stateCount :=
    ha.unsqueezed.length_eq.trans hf.length_states
  have hplace : plan.kind.stateCount + 2 + i = (a.x :: a.states).length + (i + 1) := by
    rw [List.length_cons, hlen]
    omega
  rw [operands, hplace, List.getElem?_append_right (Nat.le_add_right _ _), Nat.add_sub_cancel_left]
  obtain rfl | rfl | rfl : i = 0 ∨ i = 1 ∨ i = 2 := by omega
  all_goals rfl

/-- The weights are constants of the graph that the sequence node is added to. -/
theorem Assembly.holdsConstant_weighted (a : Assembly) (plan : LoopPlan) {u : Tensor}
    (hu : a.weights[i]? = some u) :
    (a.weighted plan).HoldsConstant ⟨a.third.slots.length + i, 0⟩ u := by
  match i, hu with
  | 0, hu =>
    obtain rfl := Option.some.inj hu
    exact ((Graph.holdsConstant_addConstant a.third (plan.part "W") a.w).push _).push _
  | 1, hu =>
    obtain rfl := Option.some.inj hu
    have hr := Graph.holdsConstant_addConstant
      (a.third.push (Graph.constantSpec (plan.part "W") a.w)) (plan.part "R") a.r
    simp only [Graph.addConstant, Graph.length_slots_push] at hr
    exact hr.push _
  | 2, hu =>
    obtain rfl := Option.some.inj hu
    have hb := Graph.holdsConstant_addConstant ((a.third.push
      (Graph.constantSpec (plan.part "W") a.w)).push (Graph.constantSpec (plan.part "R") a.r))
      (plan.part "B") a.b
    simp only [Graph.addConstant, Graph.length_slots_push, Nat.add_assoc, Nat.reduceAdd] at hb
    exact hb
  | i + 3, hu => simp [weights] at hu

/-- The use that the sequence node makes of a weight is listed. -/
theorem Assembly.Ready.mem_uses (ha : a.Ready g plan) (hf : plan.Fits g loop body step walk)
    (hi : i < 3) : (⟨(a.weighted plan).slots.length, plan.kind.stateCount + 2 + i⟩ : Use) ∈
      ((a.weighted plan).push (a.spec plan)).uses ⟨a.third.slots.length + i, 0⟩ := by
  rw [Graph.uses_push, List.mem_append]
  refine .inr (List.mem_map.2 ⟨(_, _), List.mem_filter.2 ⟨?_, decide_eq_true rfl⟩, rfl⟩)
  exact Graph.mem_reads_iff.2 ⟨rfl, ha.getElem?_operands hf hi⟩

/-- The sequence node and its weights are still there after the clean-up. -/
theorem Assembly.Ready.holdsWeights {g₃ : Graph Body} {values : List Value} {ids : List Nat}
    (ha : a.Ready g plan) (hf : plan.Fits g loop body step walk) (hlt : plan.loop < g.slots.length)
    (hr : ((a.weighted plan).push (a.spec plan)).Relisted σ g₃)
    (hfix : ∀ v, v.node ≠ plan.loop → σ v = v)
    (hp : Graph.Pruned values (Graph.eliminateAll [plan.loop] g₃).2 ids g') :
    HoldsWeights g plan (a.weighted plan).slots.length g' := by
  have hthird : g.slots.length ≤ a.third.slots.length :=
    (ha.grows_third (S := fun _ => True) trivial (fun _ _ => trivial) fun _ _ => trivial).1.length_le
  have hweighted : a.third.Grows (fun _ => True) (a.weighted plan) := a.grows_weighted
  have hle := Nat.le_trans hthird hweighted.length_le
  have hspared : ∀ {id}, g.slots.length ≤ id → id ∉ [plan.loop] := fun hid hmem =>
    Nat.not_le_of_lt hlt (List.mem_singleton.1 hmem ▸ hid)
  obtain ⟨inputs, hn⟩ := hr.keeps (a.weighted plan).slots.length
    ((a.spec plan).build (a.weighted plan).slots.length) (by rw [Graph.live?_push, if_pos rfl])
  have hop : plan.kind.sequenceOp ≠ .constant := by
    cases plan.kind <;> decide
  obtain ⟨hnotMem, hkeeps⟩ := hp.keepsNode_of_live hn hop (hspared hle)
  obtain ⟨inputs, hn⟩ := hkeeps _ hn
  obtain ⟨l, hl, -⟩ := hf.layout
  obtain ⟨width, hwidth, hsized⟩ := hf.sized l hl
  refine ⟨⟨l, width, hl, hwidth, hsized⟩, hle, ⟨_, hn, rfl⟩, fun i t hi => ?_⟩
  obtain ⟨u, hu, hshape, helements⟩ := ha.exists_weight hi
  have hlt3 : i < 3 := (List.getElem?_eq_some_iff.1 hi).1
  have hnew : g.slots.length ≤ a.third.slots.length + i := Nat.le_add_right_of_le hthird
  have hfixed := hfix ⟨a.third.slots.length + i, 0⟩ (Nat.lt_of_lt_of_le hlt hnew).ne'
  have hread := ha.mem_uses hf hlt3
  have huse := hr.uses _ _ hread
  rw [hfixed] at huse
  refine ⟨_, u, (hr.input? hp.without_eliminateAll hread).trans (congrArg some hfixed), hnew, ?_, hshape,
    helements⟩
  have hconstant := (hr.keeps _).holdsConstant ((a.holdsConstant_weighted plan hu).push (a.spec plan))
  exact hp.holdsConstant_of_uses hr.traceable hconstant (hspared hnew) huse (hspared hle) hnotMem

/-! ### Conversions -/

/-- **The readers of a converted loop keep their layouts.**  Every listed reader of a described output
of the loop node, and every output of the graph that has been one, is moved to a value with the shape
of the input and the hidden size as its last dimension, or to a state with one row for every entry of
the batch; the element type is that of the input.  The new sequence node reads constants with the
elements of the weights of the cell.  These have the hidden size once for every gate as the number of
their rows, multiplied as words. -/
theorem layouts_convert (ht : g.Traceable) {rule : Rule Body} (hrule : rule ∈ conversions) {id : Nat}
    {nodes : List Nat} (h : (rule.attempt id).apply g = (.ok (.applied nodes), g'))
    (hports : ∀ loop body, g.live? id = some loop → loop.body = some body →
      (body.outputs.map OutputMap.output).Nodup) :
    ∃ (plan : LoopPlan) (loop : Node Body) (body : Body) (step : CellStep) (walk : Walk)
      (σ : Value → Value) (sequence : Nat), plan.loop = id ∧ g.live? id = some loop ∧
        plan.Fits g loop body step walk ∧ Relaid g plan body σ g' ∧
          HoldsWeights g plan sequence g' := by
  obtain ⟨plan, loop, body, step, walk, rfl, hf, hloop, -, hbuild⟩ :=
    exists_plan_of_applied hrule h
  have hlt : plan.loop < g.slots.length := Graph.lt_length_of_live? hloop
  obtain ⟨a, g₃, σ, hready, hr, hfix, hresults, rfl⟩ := exists_relisted_build hbuild ht hlt
  obtain ⟨ids, hp⟩ := Graph.exists_pruned_eliminateUnusedConstants
    (((g₃.node? plan.loop).map Node.inputs).getD []) (hr.traceable.eliminateAll [plan.loop])
  have hwithout := hp.without_eliminateAll
  have hgrows := hready.grows (S := fun _ => True) trivial (fun _ _ => trivial) fun _ _ => trivial
  have hlisted := ((Graph.Relisted.refl ht).grows hgrows).uses
  obtain ⟨l, hl, hrank⟩ := hf.layout
  refine ⟨plan, loop, body, step, walk, σ, (a.weighted plan).slots.length, rfl, hloop, hf, ?_, ?_⟩
  · refine ⟨hfix, ?_, fun v u hu => hr.input? hwithout (hlisted v u hu), l, a.batch, hl, hrank,
      (hready.layout_eq hf hl hrank).1, fun d hd => ?_⟩
    · rw [hwithout.outputs, hr.outputs, hgrows.outputs]
    · obtain ⟨result, hmem, hresult⟩ := hf.exists_result hd
      obtain ⟨hnew, hshown⟩ := hresults result d.output hmem fun r' hr' =>
        hf.result_unique (hports loop body hloop hf.nested) hr' hmem
      have hshown := hshown _ (a.declares_spec (hf.output_le_stateCount hmem))
      obtain ⟨n, hn, hop⟩ := hshown.exists_node
      obtain ⟨-, hkeeps⟩ := hp.keepsNode_of_live hn hop fun hmem =>
        Nat.not_le_of_lt hlt (List.mem_singleton.1 hmem ▸ hnew)
      obtain ⟨l', hl', hdeclares⟩ := hshown.declares
      obtain rfl := Except.ok.inj ((hready.presented hf hl hrank hresult).symm.trans hl')
      exact ⟨hnew, hkeeps.declares hdeclares⟩
  · exact hready.holdsWeights hf hlt hr hfix hp

/-- The outputs of the backward loop over two positions become the two hidden states, in one tensor with
the axes of the input, and the last one of them. -/
theorem layouts_convert_recurrentLoop :
    let convert := ((iteratorRule .rnn).attempt 2).apply (recurrentLoop bothOutputs)
    (recurrentLoop bothOutputs).Traceable ∧ iteratorRule .rnn ∈ conversions ∧
      convert.1 = .ok (.applied [2]) ∧
      (∀ loop body, (recurrentLoop bothOutputs).live? 2 = some loop → loop.body = some body →
        (body.outputs.map OutputMap.output).Nodup) ∧
      convert.2.outputs.map convert.2.layout? = [some (.planar (.ofLengths [1, 2, 1]) .f32),
        some (.planar (.ofLengths [1, 1]) .f32)] ∧
      ∃ plan body σ sequence, plan.loop = 2 ∧
        Relaid (recurrentLoop bothOutputs) plan body σ convert.2 ∧
          HoldsWeights (recurrentLoop bothOutputs) plan sequence convert.2 := by
  intro convert
  have ht := (recurrentLoop_sound bothOutputs).1.traceable
  have hrule : iteratorRule .rnn ∈ conversions := by
    simp [conversions]
  have happlied : convert.1 = .ok (.applied [2]) := by
    decide +kernel
  have hports : ∀ loop body, (recurrentLoop bothOutputs).live? 2 = some loop →
      loop.body = some body → (body.outputs.map OutputMap.output).Nodup := by
    rintro loop body hloop hbody
    obtain rfl := Option.some.inj hloop
    obtain rfl := Option.some.inj hbody
    decide
  obtain ⟨plan, -, body, -, -, σ, sequence, hid, -, -, hrelaid, hweights⟩ :=
    layouts_convert ht hrule (Prod.ext happlied rfl : convert = (.ok (.applied [2]), convert.2)) hports
  exact ⟨ht, hrule, happlied, hports, by decide +kernel, plan, body, σ, sequence, hid, hrelaid,
    hweights⟩

/-- A constant without elements. -/
def hollowSpec (shape : List Nat) (h : numel shape = 0) : NodeSpec Body :=
  Graph.constantSpec "hollow" ⟨shape, .f32 [], h.symm⟩

/-- An iterator over four positions whose long short-term memory has `2 ^ 62` hidden units, and
weights without rows. -/
def hollowLoop : Graph Body :=
  .ofSpecs [
    { op := .parameter, outputs := [.planar (.ofLengths [1, 4, 3]) .f32] },
    { op := .parameter, outputs := [.planar (.ofLengths [1, 0x4000_0000_0000_0000]) .f32] },
    { op := .parameter, outputs := [.planar (.ofLengths [1, 0x4000_0000_0000_0000]) .f32] },
    { op := .tensorIterator
      inputs := [⟨0, 0⟩, ⟨1, 0⟩, ⟨2, 0⟩]
      outputs := [.planar (.ofLengths [1, 4, 0x4000_0000_0000_0000]) .f32]
      body := some {
        graph := .ofSpecs [
          { op := .parameter, outputs := [.planar (.ofLengths [1, 1, 3]) .f32] },
          { op := .parameter, outputs := [.planar (.ofLengths [1, 0x4000_0000_0000_0000]) .f32] },
          { op := .parameter, outputs := [.planar (.ofLengths [1, 0x4000_0000_0000_0000]) .f32] },
          hollowSpec [0, 3] rfl, hollowSpec [0, 0x4000_0000_0000_0000] (Nat.zero_mul _),
          hollowSpec [0] rfl, Graph.constantSpec "axes" (.vector [1]),
          { op := .squeeze
            inputs := [⟨0, 0⟩, ⟨6, 0⟩]
            outputs := [.planar (.ofLengths [1, 3]) .f32] },
          { op := .lstmCell
            inputs := [⟨7, 0⟩, ⟨1, 0⟩, ⟨2, 0⟩, ⟨3, 0⟩, ⟨4, 0⟩, ⟨5, 0⟩]
            outputs := List.replicate 2 (.planar (.ofLengths [1, 0x4000_0000_0000_0000]) .f32) },
          { op := .unsqueeze
            inputs := [⟨8, 0⟩, ⟨6, 0⟩]
            outputs := [.planar (.ofLengths [1, 1, 0x4000_0000_0000_0000]) .f32] }]
          [⟨9, 0⟩, ⟨8, 0⟩, ⟨8, 1⟩]
        params := [0, 1, 2]
        inputs := [.sliced 0 0 (.full 1 1), .merged 1 1 1, .merged 2 2 2]
        outputs := [.concat 0 0 (.full 1 1)]
        control := none } }] [⟨3, 0⟩]

/-- Four gates of `2 ^ 62` rows make no rows as a word, so the weights without rows are taken for
those of the cell, and the sequence node reads them. -/
theorem exists_not_layouts_convert :
    let convert := ((iteratorRule .lstm).attempt 3).apply hollowLoop
    hollowLoop.NoDangling ∧ (∀ loop body, hollowLoop.live? 3 = some loop → loop.body = some body →
      (body.outputs.map OutputMap.output).Nodup) ∧ convert.1 = .ok (.applied [3]) ∧
      convert.2.outputs.map convert.2.layout? =
        [some (.planar (.ofLengths [1, 4, 0x4000_0000_0000_0000]) .f32)] ∧
      (convert.2.live? 12).map Node.op = some Cell.lstm.sequenceOp ∧
      ((convert.2.input? ⟨12, 4⟩).bind convert.2.constant?).map Tensor.shape = some [1, 0, 3] ∧
      [1, 0, 3] ≠ [1, Cell.lstm.gates * 0x4000_0000_0000_0000, 3] := by
  intro convert
  have hd : hollowLoop.NoDangling :=
    (Graph.ofSpecs_sound _ _ (by decide +kernel) (by decide +kernel)).2.2
  have hports : ∀ loop body, hollowLoop.live? 3 = some loop → loop.body = some body →
      (body.outputs.map OutputMap.output).Nodup := by
    rintro loop body hloop hbody
    obtain rfl := Option.some.inj hloop
    obtain rfl := Option.some.inj hbody
    decide
  exact ⟨hd, hports, by decide +kernel, by decide +kernel, by decide +kernel, by decide +kernel,
    by decide⟩

end LoopPlan

end Dataflow
