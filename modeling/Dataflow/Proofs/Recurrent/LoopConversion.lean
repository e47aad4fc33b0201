import Dataflow.Proofs.Build
import Dataflow.Proofs.Graph.Specs
import Dataflow.Proofs.Recurrent.LoopPlan
import Dataflow.Proofs.Rule
import Dataflow.Recurrent.LoopConversion

/-!
# The replacement of a loop, step by step

The replacement adds the sequence node with its operands, puts the axes of its results in order, and
lets the readers of the described outputs of the loop node read these results.  Then the loop node is
taken out, together with the constants that only it has read.

## Main definitions

* `LoopPlan.Unsqueezed` : the initial states with an axis for the directions.
* `LoopPlan.Assembly` : the operands of the sequence node.
* `LoopPlan.Connected` : the results that take the place of some outputs of the loop node.
* `LoopPlan.conversions` : the rules that replace loops.
* `LoopPlan.recurrentLoop`, `LoopPlan.constantLoop` : graphs of a loop over two positions.

## Main statements

* `LoopPlan.apply_addSequence_ok`, `LoopPlan.apply_build_ok` : the steps of a replacement.
* `LoopPlan.exists_plan_of_applied` : what a rule has found where it has replaced a loop.
-/

namespace Dataflow

/-- A new leading axis keeps the elements. -/
theorem Tensor.insertAxis_zero {t u : Tensor} (h : t.insertAxis 0 = .ok u) :
    u.shape = 1 :: t.shape ∧ u.elements = t.elements := by
  rw [insertAxis, if_pos (Nat.zero_le _)] at h
  obtain rfl := Except.ok.inj h
  exact ⟨rfl, rfl⟩

namespace LoopPlan

variable {g g' : Graph Body} {plan : LoopPlan} {sequence : Nat} {v w : Value}
  {outputs : List Nat} {result : LoopResult} {suffix : String}

/-! ### The sequence node -/

/-- The values, each with an axis for the directions, are added one after the other. -/
inductive Unsqueezed : Graph Body → List Value → Graph Body → List Value → Prop
  | nil {g : Graph Body} : Unsqueezed g [] g []
  | cons {g g₁ g₂ : Graph Body} {v w : Value} {vs ws : List Value} {name : String}
      (hv : (Edit.unsqueeze name v 1).apply g = (.ok w, g₁)) (hvs : Unsqueezed g₁ vs g₂ ws) :
      Unsqueezed g (v :: vs) g₂ (w :: ws)

/-- The sequence in batch-major order. -/
def batchMajor (plan : LoopPlan) : Edit Body Value :=
  if plan.timeAxis = 0 then Edit.transpose (plan.part "x_batch_major") plan.x [1, 0, 2]
  else pure plan.x

/-- What has been made ready for the sequence node: its operands and their sizes, and the graphs
left behind by the sequence, the states and the lengths. -/
structure Assembly where
  x : Value
  layout : Layout
  batch : Dim
  time : Dim
  states : List Value
  lengths : Value
  w : Tensor
  r : Tensor
  b : Tensor
  first : Graph Body
  second : Graph Body
  third : Graph Body

namespace Assembly

/-- The graph with the weights as constants. -/
def weighted (a : Assembly) (plan : LoopPlan) : Graph Body :=
  ((a.third.push (Graph.constantSpec (plan.part "W") a.w)).push
    (Graph.constantSpec (plan.part "R") a.r)).push (Graph.constantSpec (plan.part "B") a.b)

/-- The operands of the sequence node. -/
def operands (a : Assembly) : List Value :=
  a.x :: a.states ++ [a.lengths, ⟨a.third.slots.length, 0⟩, ⟨a.third.slots.length + 1, 0⟩,
    ⟨a.third.slots.length + 2, 0⟩]

/-- The sequence node. -/
def spec (a : Assembly) (plan : LoopPlan) : NodeSpec Body :=
  plan.sequenceSpec a.operands a.batch a.time a.layout.elementType

/-- The operands have been added to `g` one after the other. -/
structure Ready (a : Assembly) (g : Graph Body) (plan : LoopPlan) : Prop where
  apply_x : plan.batchMajor.apply g = (.ok a.x, a.first)
  layout_x : a.first.layout? a.x = some a.layout
  dim_batch : a.layout.shape.dim? 0 = some a.batch
  dim_time : a.layout.shape.dim? 1 = some a.time
  unsqueezed : Unsqueezed a.first plan.states a.second a.states
  apply_lengths : (Edit.sequenceLengths (plan.part "seq_len") a.x).apply a.second =
    (.ok a.lengths, a.third)
  insertAxis_w : plan.w.insertAxis 0 = .ok a.w
  insertAxis_r : plan.r.insertAxis 0 = .ok a.r
  insertAxis_b : plan.b.insertAxis 0 = .ok a.b
  hasValue : ∀ v ∈ a.operands, (a.weighted plan).hasValue v = true

end Assembly

theorem dim_eq_ok {s : Shape} {axis : Nat} {d : Dim} (h : s.dim axis = .ok d) :
    s.dim? axis = some d := by
  unfold Shape.dim at h
  split at h
  · next d' hd => rw [hd, Except.ok.inj h]
  · simp at h

theorem apply_addWeight_ok {t : Tensor}
    (h : (plan.addWeight suffix t).apply g = (.ok v, g')) :
    ∃ u, t.insertAxis 0 = .ok u ∧ v = ⟨g.slots.length, 0⟩ ∧
      g' = g.push (Graph.constantSpec (plan.part suffix) u) := by
  simp only [addWeight, Edit.apply_bind_ok_iff, Edit.apply_pureExcept_ok_iff,
    Edit.apply_addConstant, Prod.mk.injEq, Except.ok.injEq, Graph.addConstant] at h
  obtain ⟨u, _, ⟨hu, rfl⟩, rfl, rfl⟩ := h
  exact ⟨u, hu, rfl, rfl⟩

/-- The last part of making a sequence node ready: the lengths, the weights, and the node itself. -/
private theorem exists_assembly {x : Value} {layout : Layout} {batch time : Dim}
    {states : List Value} {g₁ g₂ : Graph Body} (hx : plan.batchMajor.apply g = (.ok x, g₁))
    (hlayout : g₁.layout? x = some layout) (hbatch : layout.shape.dim? 0 = some batch)
    (htime : layout.shape.dim? 1 = some time) (hstates : Unsqueezed g₁ plan.states g₂ states)
    (h : (do
      let lengths ← Edit.sequenceLengths (plan.part "seq_len") x
      let w ← plan.addWeight "W" plan.w
      let r ← plan.addWeight "R" plan.r
      let b ← plan.addWeight "B" plan.b
      Edit.addNode (plan.sequenceSpec (x :: states ++ [lengths, w, r, b]) batch time
        layout.elementType)).apply g₂ = (.ok sequence, g')) :
    ∃ a : Assembly, a.Ready g plan ∧ sequence = (a.weighted plan).slots.length ∧
      g' = (a.weighted plan).push (a.spec plan) := by
  obtain ⟨lengths, g₃, hlengths, h⟩ := Edit.apply_bind_ok_iff.1 h
  obtain ⟨_, _, hadd, h⟩ := Edit.apply_bind_ok_iff.1 h
  obtain ⟨w, hw, rfl, rfl⟩ := apply_addWeight_ok hadd
  obtain ⟨_, _, hadd, h⟩ := Edit.apply_bind_ok_iff.1 h
  obtain ⟨r, hr, rfl, rfl⟩ := apply_addWeight_ok hadd
  obtain ⟨_, _, hadd, h⟩ := Edit.apply_bind_ok_iff.1 h
  obtain ⟨b, hb, rfl, rfl⟩ := apply_addWeight_ok hadd
  rw [Edit.apply_addNode_ok_iff] at h
  simp only [Graph.length_slots_push, Nat.add_assoc] at h
  refine ⟨⟨x, layout, batch, time, states, lengths, w, r, b, g₁, g₂, g₃⟩, ?_, ?_⟩
  · exact ⟨hx, hlayout, hbatch, htime, hstates, hlengths, hw, hr, hb, h.1⟩
  · simpa only [Assembly.weighted, Assembly.spec, Assembly.operands, Graph.length_slots_push,
      Nat.add_assoc, Nat.reduceAdd] using h.2

theorem apply_addSequence_ok (h : plan.addSequence.apply g = (.ok sequence, g')) :
    ∃ a : Assembly, a.Ready g plan ∧ sequence = (a.weighted plan).slots.length ∧
      g' = (a.weighted plan).push (a.spec plan) := by
  unfold addSequence at h
  dsimp only at h
  rw [Edit.ite_bind] at h
  obtain ⟨x, g₁, hx, h⟩ := Edit.apply_bind_ok_iff.1 h
  obtain ⟨layout, _, hask, h⟩ := Edit.apply_bind_ok_iff.1 h
  obtain ⟨hlayout, rfl⟩ := Edit.apply_layoutOf_ok_iff.1 hask
  obtain ⟨batch, _, hask, h⟩ := Edit.apply_bind_ok_iff.1 h
  obtain ⟨hbatch, rfl⟩ := Edit.apply_pureExcept_ok_iff.1 hask
  obtain ⟨time, _, hask, h⟩ := Edit.apply_bind_ok_iff.1 h
  obtain ⟨htime, rfl⟩ := Edit.apply_pureExcept_ok_iff.1 hask
  obtain ⟨hidden, g₂, hhidden, h⟩ := Edit.apply_bind_ok_iff.1 h
  have hbatch := dim_eq_ok hbatch
  have htime := dim_eq_ok htime
  split at h
  · next c hc =>
    obtain ⟨cell, g₃, hcell, h⟩ := Edit.apply_bind_ok_iff.1 h
    have hstates : Unsqueezed g₁ plan.states g₃ [hidden, cell] := by
      rw [states, hc]
      exact .cons hhidden (.cons hcell .nil)
    exact exists_assembly hx hlayout hbatch htime hstates h
  · next hc =>
    have hstates : Unsqueezed g₁ plan.states g₂ [hidden] := by
      rw [states, hc]
      exact .cons hhidden .nil
    exact exists_assembly hx hlayout hbatch htime hstates h

/-- The sequence is transposed if time comes first, and else left as it is. -/
theorem apply_batchMajor_ok (h : plan.batchMajor.apply g = (.ok w, g')) :
    plan.timeAxis = 0 ∧
      (Edit.transpose (plan.part "x_batch_major") plan.x [1, 0, 2]).apply g = (.ok w, g') ∨
    plan.timeAxis ≠ 0 ∧ plan.x = w ∧ g = g' := by
  unfold batchMajor at h
  split at h
  · next haxis => exact .inl ⟨haxis, h⟩
  · next haxis =>
    simp only [Edit.apply_pure, Prod.mk.injEq, Except.ok.injEq] at h
    exact .inr ⟨haxis, h⟩

section Growing

variable {S : Value → Prop} {a : Assembly}

theorem grows_batchMajor (h : plan.batchMajor.apply g = (.ok w, g')) (hx : S plan.x)
    (hnew : ∀ u, g.slots.length ≤ u.node → S u) : g.Grows S g' ∧ S w := by
  obtain ⟨-, htranspose⟩ | ⟨-, rfl, rfl⟩ := apply_batchMajor_ok h
  · have hbuilt : Edit.Built S g g' w := .transpose htranspose hx hnew
    exact ⟨hbuilt.grows, hnew w hbuilt.new⟩
  · exact ⟨.refl, hx⟩

theorem Unsqueezed.grows {vs ws : List Value} (h : Unsqueezed g vs g' ws) (hvs : ∀ v ∈ vs, S v)
    (hnew : ∀ u, g.slots.length ≤ u.node → S u) : g.Grows S g' ∧ ∀ w ∈ ws, S w := by
  induction h with
  | nil => exact ⟨.refl, by simp⟩
  | cons hv _ ih =>
    have hbuilt : Edit.Built S _ _ _ := .unsqueeze hv (hvs _ List.mem_cons_self) hnew
    obtain ⟨hgrows, hws⟩ := ih (fun v hv => hvs v (List.mem_cons_of_mem _ hv))
      fun u hu => hnew u (Nat.le_trans hbuilt.grows.length_le hu)
    refine ⟨hbuilt.grows.trans hgrows, fun w hw => ?_⟩
    obtain rfl | hw := List.mem_cons.1 hw
    · exact hnew _ hbuilt.new
    · exact hws w hw

theorem Assembly.grows_weighted : a.third.Grows S (a.weighted plan) :=
  .push _ (.push _ (.push _ .refl (by simp [Graph.constantSpec])) (by simp [Graph.constantSpec]))
    (by simp [Graph.constantSpec])

/-- The operands other than the weights are new, or what the loop reads. -/
theorem Assembly.Ready.grows_third (ha : a.Ready g plan) (hx : S plan.x)
    (hstates : ∀ v ∈ plan.states, S v) (hnew : ∀ u, g.slots.length ≤ u.node → S u) :
    g.Grows S a.third ∧ ∀ v ∈ a.x :: a.states ++ [a.lengths], S v := by
  have hlate : ∀ {h : Graph Body}, g.Grows S h → ∀ u, h.slots.length ≤ u.node → S u :=
    fun hg u hu => hnew u (Nat.le_trans hg.length_le hu)
  obtain ⟨hfirst, hx⟩ := grows_batchMajor ha.apply_x hx hnew
  obtain ⟨hsecond, hstates⟩ := ha.unsqueezed.grows hstates (hlate hfirst)
  have hsecond := hfirst.trans hsecond
  have hlengths : Edit.Built S a.second a.third a.lengths :=
    .sequenceLengths ha.apply_lengths hx (hlate hsecond)
  refine ⟨hsecond.trans hlengths.grows, fun v hv => ?_⟩
  obtain hv | hv := List.mem_append.1 hv
  · obtain rfl | hv := List.mem_cons.1 hv
    · exact hx
    · exact hstates v hv
  · obtain rfl := List.mem_singleton.1 hv
    exact hlate hsecond _ hlengths.new

/-- The operands are new, or what the loop reads. -/
theorem Assembly.Ready.grows_operands (ha : a.Ready g plan) (hx : S plan.x)
    (hstates : ∀ v ∈ plan.states, S v) (hnew : ∀ u, g.slots.length ≤ u.node → S u) :
    g.Grows S (a.weighted plan) ∧ ∀ v ∈ a.operands, S v := by
  obtain ⟨hthird, hfirst⟩ := ha.grows_third hx hstates hnew
  have hlate : ∀ u : Value, a.third.slots.length ≤ u.node → S u :=
    fun u hu => hnew u (Nat.le_trans hthird.length_le hu)
  refine ⟨hthird.trans a.grows_weighted, fun v hv => ?_⟩
  obtain hv | hv := List.mem_append.1 (show v ∈ a.x :: a.states ++ _ from hv)
  · exact hfirst v (List.mem_append_left _ hv)
  · simp only [List.mem_cons, List.not_mem_nil, or_false] at hv
    obtain rfl | rfl | rfl | rfl := hv
    · exact hfirst _ (List.mem_append_right _ List.mem_cons_self)
    · exact hlate _ (Nat.le_refl _)
    · exact hlate _ (Nat.le_succ _)
    · exact hlate _ (Nat.le_add_right _ 2)

/-- The sequence node and its operands are new, and read only what the loop reads. -/
theorem Assembly.Ready.grows (ha : a.Ready g plan) (hx : S plan.x)
    (hstates : ∀ v ∈ plan.states, S v) (hnew : ∀ u, g.slots.length ≤ u.node → S u) :
    g.Grows S ((a.weighted plan).push (a.spec plan)) := by
  obtain ⟨hgrows, hoperands⟩ := ha.grows_operands hx hstates hnew
  exact .push _ hgrows fun v hv => ⟨ha.hasValue v hv, hoperands v hv⟩

end Growing

/-! ### The outputs of the loop node -/

/-- The readers of some outputs of the loop node read a value instead. -/
def redirected (loop : Nat) (v : Value) : List Nat → Graph Body → Graph Body
  | [], g => g
  | i :: rest, g => redirected loop v rest (g.redirect ⟨loop, i⟩ v).2

theorem apply_redirectOutputs_ok :
    (plan.redirectOutputs v outputs).apply g = (.ok (), g') ↔
      g' = redirected plan.loop v outputs g := by
  induction outputs generalizing g with
  | nil => simp [redirectOutputs, redirected, eq_comm]
  | cons i rest ih =>
    simp only [redirectOutputs, redirected, Edit.apply_bind_ok_iff, Edit.apply_redirect,
      Prod.mk.injEq, Except.ok.injEq]
    constructor
    · rintro ⟨_, _, ⟨rfl, rfl⟩, h⟩
      exact ih.1 h
    · exact fun h => ⟨_, _, ⟨rfl, rfl⟩, ih.2 h⟩

/-- A result is made ready for the readers of the loop node. -/
def present (plan : LoopPlan) (suffix : String) (transposed : Bool) (v : Value) :
    Edit Body Value := do
  let y ← Edit.squeeze (plan.part suffix) v 1
  if transposed then Edit.transpose (plan.part "y_time_major") y [1, 0, 2] else pure y

/-- A result loses its direction axis, and is then transposed or left as it is. -/
theorem apply_present_ok {transposed : Bool}
    (h : (present plan suffix transposed v).apply g = (.ok w, g')) :
    ∃ y g₁, (Edit.squeeze (plan.part suffix) v 1).apply g = (.ok y, g₁) ∧
      (transposed = true ∧
          (Edit.transpose (plan.part "y_time_major") y [1, 0, 2]).apply g₁ = (.ok w, g') ∨
        transposed ≠ true ∧ y = w ∧ g₁ = g') := by
  obtain ⟨y, g₁, hsqueeze, h⟩ := Edit.apply_bind_ok_iff.1 h
  refine ⟨y, g₁, hsqueeze, ?_⟩
  split at h
  · next htransposed => exact .inl ⟨htransposed, h⟩
  · next htransposed =>
    simp only [Edit.apply_pure, Prod.mk.injEq, Except.ok.injEq] at h
    exact .inr ⟨htransposed, h⟩

/-- A result that is ready is new, and its node is no constant. -/
theorem built_present {S : Value → Prop} {transposed : Bool}
    (h : (present plan suffix transposed v).apply g = (.ok w, g')) (hv : S v)
    (hnew : ∀ u, g.slots.length ≤ u.node → S u) :
    Edit.Built S g g' w ∧ ∃ n, g'.live? w.node = some n ∧ n.op ≠ .constant := by
  obtain ⟨y, g₁, hsqueeze, ⟨-, htranspose⟩ | ⟨-, rfl, rfl⟩⟩ := apply_present_ok h
  · have hy : Edit.Built S g g₁ y := .squeeze hsqueeze hv hnew
    have hw : Edit.Built S g₁ g' w := .transpose htranspose (hnew y hy.new) fun u hu =>
      hnew u (Nat.le_trans hy.grows.length_le hu)
    obtain ⟨l, l', -, -, -, rfl, rfl⟩ := Edit.apply_transpose_ok_iff.1 htranspose
    obtain ⟨n, hn, hop⟩ := Graph.exists_live?_pushWithInts
    exact ⟨hy.trans hw, n, hn, by rw [hop]; decide⟩
  · have hy : Edit.Built S g g₁ y := .squeeze hsqueeze hv hnew
    obtain ⟨l, l', -, -, -, rfl, rfl⟩ := Edit.apply_squeeze_ok_iff.1 hsqueeze
    obtain ⟨n, hn, hop⟩ := Graph.exists_live?_pushWithInts
    exact ⟨hy, n, hn, by rw [hop]; decide⟩

/-- The outputs of the loop node that hold a result are connected, if there are any. -/
structure Connected (plan : LoopPlan) (result : LoopResult) (transposed : Bool) (v : Value)
    (g g' : Graph Body) : Prop where
  unused : plan.outputsOf result = [] → g' = g
  connected : plan.outputsOf result ≠ [] → ∃ suffix y g₁,
    (present plan suffix transposed v).apply g = (.ok y, g₁) ∧
      g' = redirected plan.loop y (plan.outputsOf result) g₁

theorem connected_of_connectSequence
    (h : (plan.connectSequence sequence).apply g = (.ok (), g')) :
    Connected plan .sequence (decide (plan.timeAxis = 0)) ⟨sequence, 0⟩ g g' := by
  unfold connectSequence at h
  dsimp only at h
  split at h
  · next hsome =>
    refine ⟨fun hnil => by simp [hnil] at hsome, fun _ => ?_⟩
    obtain ⟨y, g₁, hy, h⟩ := Edit.apply_bind_ok_iff.1 h
    rw [Edit.ite_bind] at h
    obtain ⟨z, g₂, hz, h⟩ := Edit.apply_bind_ok_iff.1 h
    refine ⟨"y", z, g₂, Edit.apply_bind_ok_iff.2 ⟨y, g₁, hy, ?_⟩, apply_redirectOutputs_ok.1 h⟩
    simpa only [decide_eq_true_eq] using hz
  · next hnone =>
    simp only [Edit.apply_pure, Prod.mk.injEq, true_and] at h
    exact ⟨fun _ => h.symm, fun hne => absurd (by simpa using hnone) hne⟩

theorem connected_of_connectState
    (h : (plan.connectState result suffix v).apply g = (.ok (), g')) :
    Connected plan result false v g g' := by
  unfold connectState at h
  dsimp only at h
  split at h
  · next hsome =>
    refine ⟨fun hnil => by simp [hnil] at hsome, fun _ => ?_⟩
    obtain ⟨y, g₁, hy, h⟩ := Edit.apply_bind_ok_iff.1 h
    exact ⟨suffix, y, g₁, Edit.apply_bind_ok_iff.2 ⟨y, g₁, hy, rfl⟩, apply_redirectOutputs_ok.1 h⟩
  · next hnone =>
    simp only [Edit.apply_pure, Prod.mk.injEq, true_and] at h
    exact ⟨fun _ => h.symm, fun hne => absurd (by simpa using hnone) hne⟩

/-- **The steps of a replacement.** -/
theorem apply_build_ok {done : Bool} (h : plan.build.apply g = (.ok done, g')) :
    ∃ (a : Assembly) (g₁ g₂ g₃ : Graph Body), a.Ready g plan ∧
      Connected plan .sequence (decide (plan.timeAxis = 0)) ⟨(a.weighted plan).slots.length, 0⟩
        ((a.weighted plan).push (a.spec plan)) g₁ ∧
      Connected plan .hidden false ⟨(a.weighted plan).slots.length, 1⟩ g₁ g₂ ∧
      Connected plan .cell false ⟨(a.weighted plan).slots.length, 2⟩ g₂ g₃ ∧ done = true ∧
      g' = (Graph.eliminateUnusedConstants (((g₃.node? plan.loop).map Node.inputs).getD [])
        (g₃.markEliminated plan.loop).2).2 := by
  unfold build at h
  obtain ⟨sequence, g₀, hadd, h⟩ := Edit.apply_bind_ok_iff.1 h
  obtain ⟨a, ha, rfl, rfl⟩ := apply_addSequence_ok hadd
  obtain ⟨_, g₁, h₁, h⟩ := Edit.apply_bind_ok_iff.1 h
  obtain ⟨_, g₂, h₂, h⟩ := Edit.apply_bind_ok_iff.1 h
  obtain ⟨_, g₃, h₃, h⟩ := Edit.apply_bind_ok_iff.1 h
  simp only [Edit.apply_bind_ok_iff, Edit.apply_get, Edit.apply_markEliminated, Edit.apply_always,
    Edit.apply_pure, Prod.mk.injEq, Except.ok.injEq] at h
  obtain ⟨_, _, ⟨rfl, rfl⟩, _, _, ⟨-, rfl⟩, _, _, ⟨-, rfl⟩, rfl, rfl⟩ := h
  exact ⟨a, g₁, g₂, g₃, ha, connected_of_connectSequence h₁, connected_of_connectState h₂,
    connected_of_connectState h₃, rfl, rfl⟩

theorem mem_outputsOf {i : Nat} : i ∈ plan.outputsOf result ↔ (result, i) ∈ plan.results := by
  simp only [outputsOf, List.mem_map, List.mem_filter, beq_iff_eq]
  constructor
  · rintro ⟨⟨r, j⟩, ⟨hmem, rfl⟩, rfl⟩
    exact hmem
  · exact fun h => ⟨(result, i), ⟨h, rfl⟩, rfl⟩

section Fits

variable {loop : Node Body} {body : Body} {step : CellStep} {walk : Walk}

/-- An output of the loop node has a result in its place when the body describes it. -/
theorem Fits.exists_result_iff (hf : plan.Fits g loop body step walk) {i : Nat} :
    (∃ result, i ∈ plan.outputsOf result) ↔ (body.outputFor? i).isSome = true := by
  have hmem : (∃ result, i ∈ plan.outputsOf result) ↔ i ∈ body.outputs.map OutputMap.output := by
    rw [← hf.map_snd_results, List.mem_map]
    simp only [mem_outputsOf]
    exact ⟨fun ⟨r, h⟩ => ⟨(r, i), h, rfl⟩, fun ⟨p, h, hp⟩ => ⟨p.1, hp ▸ h⟩⟩
  rw [hmem, Body.outputFor?, List.find?_isSome, List.mem_map]
  simp only [beq_iff_eq]

end Fits

/-! ### The rules -/

/-- The rules that replace a loop: by cells over a sequence, and by loops with a trip count. -/
def conversions : List (Rule Body) :=
  loopRule :: [.lstm, .rnn, .gru].map iteratorRule

theorem apply_iteratorAction (kind : Cell) (m : Match) (g : Graph Body) :
    ((iteratorRule kind).action m).apply g =
      match find? g m.root.node kind with
      | some plan => plan.build.apply g
      | none => (.ok false, g) := by
  have hact : (iteratorRule kind).action m = (do
      match find? (← get) m.root.node kind with
      | some plan => plan.build
      | none => return false) := rfl
  rw [hact, Edit.apply_bind, Edit.apply_get]
  cases h : find? g m.root.node kind <;> simp only [h]
  rfl

theorem apply_loopAction (m : Match) (g : Graph Body) :
    (loopRule.action m).apply g =
      match find? g m.root.node .lstm with
      | some plan => if plan.isPlain g = true then plan.build.apply g else (.ok false, g)
      | none => (.ok false, g) := by
  have hact : loopRule.action m = (do
      let g ← get
      match find? g m.root.node .lstm with
      | some plan => if plan.isPlain g then plan.build else return false
      | none => return false) := rfl
  rw [hact, Edit.apply_bind, Edit.apply_get]
  cases h : find? g m.root.node .lstm with
  | none => simp only [h]; rfl
  | some plan =>
    simp only [h]
    split <;> rfl

theorem declines_conversion {rule : Rule Body} (hrule : rule ∈ conversions) : rule.Declines := by
  intro m g g' h
  have hbuild : ∀ plan : LoopPlan, plan.build.apply g ≠ (.ok false, g') := fun plan h => by
    obtain ⟨_, _, _, _, -, -, -, -, hdone, -⟩ := apply_build_ok h
    exact absurd hdone (by simp)
  obtain rfl | hrule := List.mem_cons.1 hrule
  · rw [apply_loopAction] at h
    split at h
    · split at h
      · exact absurd h (hbuild _)
      · exact (Prod.mk.inj h).2.symm
    · exact (Prod.mk.inj h).2.symm
  · obtain ⟨kind, -, rfl⟩ := List.mem_map.1 hrule
    rw [apply_iteratorAction] at h
    split at h
    · exact absurd h (hbuild _)
    · exact (Prod.mk.inj h).2.symm

/-- A match of the pattern of a loop is at a loop. -/
theorem op_of_matchValue_loopPattern {op : Op} {m : Match} {v : Value} {n : Node Body}
    (hm : (loopPattern op).matchValue g v = some m) (hn : g.live? v.node = some n) :
    n.op = op ∧ m.root = v := by
  have hp : (loopPattern op : Pattern Body).WellFormed :=
    .of_refersBack (List.cons_ne_nil _ _) rfl
  obtain ⟨hroot, -⟩ := Pattern.agrees_of_matchValue hp hm
  obtain ⟨n', hn', -, hop, -⟩ := (Pattern.isEmbedding_of_matchValue hp hm).op
    (Pattern.stepsClosed_reaches _ g _ v) rfl rfl .refl
  obtain rfl := Option.some.inj ((Graph.source?_eq_some.1 hn').1.symm.trans hn)
  exact ⟨List.mem_singleton.1 hop, hroot⟩

/-- A plan for a live loop node. -/
theorem exists_fits_of_find? {id : Nat} {kind : Cell} {n : Node Body}
    (hn : g.live? id = some n) (h : find? g id kind = some plan) :
    plan.loop = id ∧ ∃ body step walk, plan.Fits g n body step walk := by
  obtain ⟨rfl, -, loop, body, step, walk, hf⟩ := fits_of_find? h
  obtain rfl := Option.some.inj ((Graph.node?_of_live? hn).symm.trans hf.node)
  exact ⟨rfl, body, step, walk, hf⟩

/-- Where a rule has replaced a loop, there was a plan for it. -/
theorem exists_plan_of_applied {rule : Rule Body} (hrule : rule ∈ conversions) {id : Nat}
    {nodes : List Nat} (h : (rule.attempt id).apply g = (.ok (.applied nodes), g')) :
    ∃ (plan : LoopPlan) (loop : Node Body) (body : Body) (step : CellStep) (walk : Walk),
      plan.loop = id ∧ plan.Fits g loop body step walk ∧ g.live? id = some loop ∧
        (loop.op = .tensorIterator ∨ (loop.op = .loop ∧ plan.isPlain g = true)) ∧
          plan.build.apply g = (.ok true, g') := by
  obtain ⟨n, i, m, hn, -, hm, -, hact⟩ :=
    Rule.exists_match_of_applied (declines_conversion hrule) h
  obtain rfl | hrule := List.mem_cons.1 hrule
  · obtain ⟨hop, hroot⟩ := op_of_matchValue_loopPattern hm hn
    rw [apply_loopAction, hroot] at hact
    split at hact
    · next plan hplan =>
      obtain ⟨hid, body, step, walk, hf⟩ := exists_fits_of_find? hn hplan
      split at hact
      · next hplain => exact ⟨plan, n, body, step, walk, hid, hf, hn, .inr ⟨hop, hplain⟩, hact⟩
      · simp at hact
    · simp at hact
  · obtain ⟨kind, -, rfl⟩ := List.mem_map.1 hrule
    obtain ⟨hop, hroot⟩ := op_of_matchValue_loopPattern hm hn
    rw [apply_iteratorAction, hroot] at hact
    split at hact
    · next plan hplan =>
      obtain ⟨hid, body, step, walk, hf⟩ := exists_fits_of_find? hn hplan
      exact ⟨plan, n, body, step, walk, hid, hf, hn, .inl hop, hact⟩
    · simp at hact

/-! ### A loop over two positions -/

/-- A constant with the one element 1. -/
def unitSpec (shape : List Nat) (h : numel shape = 1) : NodeSpec Body where
  op := .constant
  outputs := [.planar (.ofLengths shape) .f32]
  attributes := Attributes.empty.insert "value"
    (.tensor ⟨shape, .f32 [⟨0x3f800000⟩], by rw [Elements.length, h]; rfl⟩)

/-- The body of a recurrent loop: the part loses its time axis, goes through the cell, and gets the
axis back. -/
def stepSpecs : List (NodeSpec Body) :=
  [{ op := .parameter, outputs := [.planar (.ofLengths [1, 1, 1]) .f32] },
    { op := .parameter, outputs := [.planar (.ofLengths [1, 1]) .f32] },
    unitSpec [1, 1] rfl, unitSpec [1, 1] rfl, unitSpec [1] rfl,
    Graph.constantSpec "axes" (.vector [1]),
    { op := .squeeze, inputs := [⟨0, 0⟩, ⟨5, 0⟩], outputs := [.planar (.ofLengths [1, 1]) .f32] },
    { op := .rnnCell
      inputs := [⟨6, 0⟩, ⟨1, 0⟩, ⟨2, 0⟩, ⟨3, 0⟩, ⟨4, 0⟩]
      outputs := [.planar (.ofLengths [1, 1]) .f32] },
    { op := .unsqueeze
      inputs := [⟨7, 0⟩, ⟨5, 0⟩]
      outputs := [.planar (.ofLengths [1, 1, 1]) .f32] }]

/-- An iterator that walks over two positions, whose initial state is a constant, and so are the weights
that it hands to its body. -/
def constantLoop : Graph Body :=
  .ofSpecs [
    { op := .parameter, outputs := [.planar (.ofLengths [1, 2, 1]) .f32] },
    unitSpec [1, 1] rfl,
    unitSpec [1, 1] rfl,
    { op := .tensorIterator
      inputs := [⟨0, 0⟩, ⟨1, 0⟩, ⟨2, 0⟩]
      outputs := [.planar (.ofLengths [1, 2, 1]) .f32, .planar (.ofLengths [1, 1]) .f32]
      body := some {
        graph := .ofSpecs (stepSpecs.set 2
          { op := .parameter, outputs := [.planar (.ofLengths [1, 1]) .f32] }) [⟨8, 0⟩, ⟨7, 0⟩]
        params := [0, 1, 2]
        inputs := [.sliced 0 0 (.full 1 (-1)), .merged 1 1 1, .invariant 2 2]
        outputs := [.concat 0 0 (.full 1 (-1)), .last 1 1]
        control := none } }] [⟨3, 0⟩, ⟨3, 1⟩]

/-- An iterator that walks backward over two positions, with the given descriptions of its two
outputs. -/
def iteratorSpecs (descriptions : List OutputMap) : List (NodeSpec Body) :=
  [{ op := .parameter, outputs := [.planar (.ofLengths [1, 2, 1]) .f32] },
    { op := .parameter, outputs := [.planar (.ofLengths [1, 1]) .f32] },
    { op := .tensorIterator
      inputs := [⟨0, 0⟩, ⟨1, 0⟩]
      outputs := [.planar (.ofLengths [1, 2, 1]) .f32, .planar (.ofLengths [1, 1]) .f32]
      body := some {
        graph := .ofSpecs stepSpecs [⟨8, 0⟩, ⟨7, 0⟩]
        params := [0, 1]
        inputs := [.sliced 0 0 (.full 1 (-1)), .merged 1 1 1]
        outputs := descriptions
        control := none } }]

/-- The graph of the iterator, both of whose outputs are outputs of the graph. -/
def recurrentLoop (descriptions : List OutputMap) : Graph Body :=
  .ofSpecs (iteratorSpecs descriptions) [⟨2, 0⟩, ⟨2, 1⟩]

theorem recurrentLoop_sound (descriptions : List OutputMap) :
    (recurrentLoop descriptions).WellKept ∧ (recurrentLoop descriptions).Acyclic ∧
      (recurrentLoop descriptions).NoDangling :=
  Graph.ofSpecs_sound _ _ (by rfl) (by rfl)

/-- The descriptions of both outputs. -/
def bothOutputs : List OutputMap :=
  [.concat 0 0 (.full 1 (-1)), .last 1 1]

end LoopPlan

end Dataflow
