import Dataflow.Proofs.Reads.Matching
import Dataflow.Proofs.Recurrent.Replacements
import Dataflow.Proofs.Success

/-!
# Converting loops with direct reads

The search for a plan reads the operands of the nodes of a body directly, and the lengths of the
weights and of the sequence.  The pattern of the body gives the nodes as many operands as are read,
and the ranks are looked at first.

## Main definitions

* `LoopPlan.findDirect?`, `LoopPlan.isPlainDirect` : the searches with direct reads.
* `iteratorRuleDirect`, `loopRuleDirect` : the rules with these searches.

## Main statements

* `LoopPlan.finds_find?`, `LoopPlan.finds_isPlain` : the searches find the same.
* `LoopPlan.inRange_build` : the replacement does not read past the end of a list either.
* `apply_iteratorRuleDirect`, `apply_loopRuleDirect` : the actions of the rules.
-/

namespace Dataflow

variable {β : Type}

/-! ### The body -/

/-- Whether the second input of a node is a constant list of the given axis of a tensor of rank
three. -/
def listsAxisDirect (g : Graph β) (n : Node β) (axis : Nat) : Direct Bool := do
  match g.constantInts? (← .entry n.inputs 1) with
  | some [a] => return (normalizeAxis a 3).toOption == some axis
  | _ => return false

/-- Whether a node drops the given axis, of length one, from a part of rank three. -/
def dropsAxisDirect (g : Graph β) (n : Node β) (axis : Nat) : Direct Bool :=
  match n.op with
  | .squeeze => listsAxisDirect g n axis
  | .reshape => do
    match g.layout? (← .entry n.inputs 0), n.outputs[0]? with
    | some input, some output =>
      return input.shape.dim? axis == some (.known 1) && output.shape == input.shape.dropAxis axis
    | _, _ => return false
  | _ => return false

/-- Whether a node inserts the given axis, of length one, to make a part of rank three. -/
def insertsAxisDirect (g : Graph β) (n : Node β) (axis : Nat) : Direct Bool :=
  match n.op with
  | .unsqueeze => listsAxisDirect g n axis
  | .reshape => do
    match g.layout? (← .entry n.inputs 0), n.outputs[0]? with
    | some input, some output => return output.shape == input.shape.insertAxis axis (.known 1)
    | _, _ => return false
  | _ => return false

section Axis

variable {g : Graph β} {n : Node β} {a b : Value} (hin : n.inputs = [a, b]) (axis : Nat)
include hin

theorem finds_listsAxis : (listsAxisDirect g n axis).Finds (some (listsAxis g n axis)) := by
  unfold listsAxisDirect
  rw [hin]
  refine .entry_bind rfl ?_
  have hlists : listsAxis g n axis = match g.constantInts? b with
      | some [a] => (normalizeAxis a 3).toOption == some axis
      | _ => false := by
    rw [listsAxis, hin]
    rfl
  rw [hlists]
  cases g.constantInts? b with
  | none => exact .pure
  | some ints =>
    match ints with
    | [] => exact .pure
    | [_] => exact .pure
    | _ :: _ :: _ => exact .pure

theorem finds_dropsAxis : (dropsAxisDirect g n axis).Finds (some (dropsAxis g n axis)) := by
  unfold dropsAxis
  split
  · next hop =>
    rw [dropsAxisDirect, hop]
    exact finds_listsAxis hin axis
  · next hop =>
    rw [dropsAxisDirect, hop, hin]
    refine .entry_bind rfl ?_
    simp only [List.getElem?_cons_zero, Option.bind_some]
    cases g.layout? a <;> cases n.outputs[0]? <;> exact .pure
  · next hsqueeze hreshape =>
    unfold dropsAxisDirect
    split
    · next hop => exact absurd hop hsqueeze
    · next hop => exact absurd hop hreshape
    · exact .pure

theorem finds_insertsAxis : (insertsAxisDirect g n axis).Finds (some (insertsAxis g n axis)) := by
  unfold insertsAxis
  split
  · next hop =>
    rw [insertsAxisDirect, hop]
    exact finds_listsAxis hin axis
  · next hop =>
    rw [insertsAxisDirect, hop, hin]
    refine .entry_bind rfl ?_
    simp only [List.getElem?_cons_zero, Option.bind_some]
    cases g.layout? a <;> cases n.outputs[0]? <;> exact .pure
  · next hunsqueeze hreshape =>
    unfold insertsAxisDirect
    split
    · next hop => exact absurd hop hunsqueeze
    · next hop => exact absurd hop hreshape
    · exact .pure

end Axis

namespace CellStep

variable {body : Body} {kind : Cell} {step : CellStep}

/-- The one cell step of a body. -/
def findDirect? (body : Body) (kind : Cell) : Direct CellStep := do
  let (pattern, nodes) := stepPattern kind
  let [m] ← pattern.findAllDirect body.graph | failure
  let cell ← .ofOption (m.get? nodes.cell)
  guard (cell.index = 0)
  return {
    x := ← .ofOption (m.get? nodes.x)
    squeeze := ← .ofOption do body.graph.node? (← m.get? nodes.squeeze).node
    cell := ← .ofOption (body.graph.node? cell.node)
    unsqueeze := ← .ofOption (body.graph.node? m.root.node) }

theorem finds_find? (body : Body) (kind : Cell) :
    (findDirect? body kind).Finds (find? body kind) := by
  unfold findDirect? find?
  generalize stepPattern kind = p
  obtain ⟨pattern, nodes⟩ := p
  refine .bind_some (pattern.finds_findAll body.graph) ?_
  dsimp only
  match pattern.findAll body.graph with
  | [] => exact .failure
  | _ :: _ :: _ => exact .failure
  | [m] =>
    refine .bind .ofOption fun cell _ => ?_
    refine .guard_bind fun _ => ?_
    refine .bind .ofOption fun x _ => ?_
    cases hsqueeze : m.get? nodes.squeeze with
    | none => exact .bind_none .ofOption
    | some squeeze =>
      refine .bind .ofOption fun sn _ => ?_
      refine .bind .ofOption fun cn _ => ?_
      exact .bind .ofOption fun un _ => .pure

/-- The nodes of a step have the operands that are read. -/
theorem length_inputs_of_find? (h : find? body kind = some step) :
    step.squeeze.inputs.length = 2 ∧ step.unsqueeze.inputs.length = 2 ∧
      step.cell.inputs.length = kind.stateCount + 4 := by
  obtain ⟨v, m, cell, squeeze, hm, -, hsqueeze, hsn, hcell, -, hcn, hun⟩ := find?_eq_some h
  have hp := isStep_stepPattern (β := Body) kind
  generalize stepPattern kind = p at hm hsqueeze hcell hp
  obtain ⟨p, nodes⟩ := p
  dsimp only at hm hsqueeze hcell hp
  obtain ⟨hroot, hagrees⟩ := Pattern.agrees_of_matchValue hp.wellFormed hm
  have hR := Pattern.isEmbedding_of_matchValue hp.wellFormed hm
  rw [hagrees.get?] at hsqueeze hcell
  obtain ⟨_, hsqueezeNode⟩ := hp.squeeze
  obtain ⟨rest, hrest, hcellNode⟩ := hp.cell
  obtain ⟨_, hrootNode⟩ := hp.unsqueeze
  refine ⟨hR.length_inputs hsqueezeNode rfl (by simp) hsqueeze hsn,
    hR.length_inputs hrootNode rfl (by simp) .refl (hroot ▸ hun), ?_⟩
  rw [hR.length_inputs hcellNode rfl (by simp) hcell hcn, List.length_cons, hrest]

end CellStep

/-! ### The loop -/

namespace LoopPlan

variable {g : Graph Body} {id : Nat} {kind : Cell} {plan : LoopPlan}

/-- The number of entries of the hidden state that the shapes of the weights agree on, for an input
of the given shape. -/
def hiddenSizeDirect? (kind : Cell) (w r b : Tensor) (shape : Shape) : Direct Nat := do
  guard (w.shape.length = 2 ∧ r.shape.length = 2 ∧ b.shape.length = 1)
  let hidden ← .entry r.shape 1
  let length ← .entry b.shape 0
  let rows ← .entry w.shape 0
  let rows' ← .entry r.shape 0
  guard (rows = kind.rows hidden ∧ rows' = kind.rows hidden ∧ kind.fitsBias hidden length)
  match ← .entry shape.dims 2 with
  | .unknown => return hidden
  | .known width => do
    guard (width = (← .entry w.shape 1))
    return hidden

/-- The plan for a loop node whose body runs a cell of the given kind. -/
def findDirect? (g : Graph Body) (id : Nat) (kind : Cell) : Direct LoopPlan := do
  let loop ← .ofOption (g.node? id)
  let body ← .ofOption loop.body
  let step ← CellStep.findDirect? body kind
  let param ← .ofOption (body.paramIndex? step.x)
  let .sliced input _ walk ← .ofOption (body.inputFor? param) | failure
  guard walk.isFullUnit
  let x ← .ofOption loop.inputs[input]?
  let shape := (← .ofOption (g.layout? x)).shape
  guard (shape.rank = 3)
  let axis ← .ofOption (normalizeAxis walk.axis 3).toOption
  guard (axis ≤ 1)
  guard (← dropsAxisDirect body.graph step.squeeze axis <&&>
    insertsAxisDirect body.graph step.unsqueeze axis)
  let h ← .ofOption (initialValue? loop body (← .entry step.cell.inputs 1) (step.cell.output 0))
  let c ←
    if kind.hasCellState then do
      let v ← .entry step.cell.inputs 2
      pure (some (← .ofOption (initialValue? loop body v (step.cell.output 1))))
    else pure none
  let weight (i : Nat) : Direct Tensor := do
    .ofOption (loopConstant? g loop body (← .entry step.cell.inputs (1 + kind.stateCount + i)))
  let w ← weight 0
  let r ← weight 1
  let b ← weight 2
  let hidden ← hiddenSizeDirect? kind w r b shape
  guard ((step.cell.int? "hidden_size").all (· == (hidden : Int)))
  let results ← .ofOption (body.outputs.mapM (loopResult? kind body step walk axis))
  return {
    kind, loop := id, name := loop.name, x, timeAxis := axis, reverse := decide (walk.stride < 0),
    h, c, w, r, b, hidden, attributes := step.cell.attributes, results }

/-- Whether a loop with a trip count and a condition runs over the whole sequence. -/
def isPlainDirect (g : Graph Body) (plan : LoopPlan) : Direct Bool := do
  let found ← Direct.toOption do
    let loop ← .ofOption (g.node? plan.loop)
    let body ← .ofOption loop.body
    let control ← .ofOption body.control
    guard (2 ≤ loop.inputs.length)
    let time ← match g.layout? plan.x with
      | some l => do pure (some (← .entry l.shape.dims plan.timeAxis))
      | none => pure none
    let trip ← .entry loop.inputs 0
    let start ← .entry loop.inputs 1
    let [count] ← .ofOption (g.constantInts? trip) | failure
    guard (count = -1 ∨ time = some (.known (Word.unsigned count)))
    guard (g.constantInts? start = some [1])
    guard ((body.resultValue? control.condition).bind body.graph.constantInts? = some [1])
    guard ((control.counter.bind body.paramValue?).all body.graph.isUnused)
  return found.isSome

theorem finds_hiddenSize? (kind : Cell) (w r b : Tensor) {shape : Shape} {width : Dim}
    (hwidth : shape.dim? 2 = some width) :
    (hiddenSizeDirect? kind w r b shape).Finds (hiddenSize? kind w r b width) := by
  unfold hiddenSizeDirect? hiddenSize?
  by_cases hlen : w.shape.length = 2 ∧ r.shape.length = 2 ∧ b.shape.length = 1
  · obtain ⟨rows, columns, hw⟩ := List.length_eq_two.1 hlen.1
    obtain ⟨rows', hidden, hr⟩ := List.length_eq_two.1 hlen.2.1
    obtain ⟨length, hb⟩ := List.length_eq_one_iff.1 hlen.2.2
    refine .bind_some (.require hlen) ?_
    rw [hw, hr, hb]
    refine .entry_bind rfl (.entry_bind rfl (.entry_bind rfl (.entry_bind rfl ?_)))
    by_cases hfits : rows = kind.rows hidden ∧ rows' = kind.rows hidden ∧
        kind.fitsBias hidden length = true
    · refine .bind_some (.require hfits) (.entry_bind hwidth ?_)
      cases width with
      | unknown => simpa [hfits] using Direct.Finds.pure
      | known width =>
        refine .entry_bind rfl ?_
        by_cases hwide : width = columns
        · simpa [hfits, hwide] using Direct.Finds.pure
        · simpa [hfits, hwide] using Direct.Finds.failure
    · have hnone : ¬ (rows = kind.rows hidden ∧ rows' = kind.rows hidden ∧
          kind.fitsBias hidden length = true ∧ (width = .unknown ∨ width = .known columns)) :=
        fun h => hfits ⟨h.1, h.2.1, h.2.2.1⟩
      simp only [if_neg hnone]
      exact .bind_none (.refuse hfits)
  · refine (Direct.Finds.bind_none (.refuse hlen)).trans ?_
    split
    · next hw hr hb => exact absurd ⟨by rw [hw]; rfl, by rw [hr]; rfl, by rw [hb]; rfl⟩ hlen
    · rfl

/-- A result that is looked for only under a condition, before the search goes on. -/
private theorem finds_optional {α γ δ : Type} {c : Prop} [Decidable c] {x : Direct α} {x' : Option α}
    {f : α → Direct γ} {f' : α → Option γ} {rest : Option γ → Direct δ}
    {rest' : Option γ → Option δ} (hx : c → x.Finds x') (hf : ∀ a, (f a).Finds (f' a))
    (hrest : ∀ o, (rest o).Finds (rest' o)) :
    Direct.Finds
      (if c then do let a ← x; let b ← f a; let o ← pure (some b); rest o
        else do let o ← pure none; rest o)
      (if c then do let a ← x'; let b ← f' a; let o ← pure (some b); rest' o
        else do let o ← pure none; rest' o) := by
  refine .ite (fun hc => ?_) fun _ => hrest none
  exact .bind (hx hc) fun a _ => .bind (hf a) fun b _ => hrest (some b)

theorem finds_find? (g : Graph Body) (id : Nat) (kind : Cell) :
    (findDirect? g id kind).Finds (find? g id kind) := by
  unfold findDirect? find?
  refine .bind .ofOption fun loop _ => ?_
  refine .bind .ofOption fun body _ => ?_
  refine .bind (CellStep.finds_find? body kind) fun step hstep => ?_
  obtain ⟨hsqueeze, hunsqueeze, hcell⟩ := CellStep.length_inputs_of_find? hstep
  refine .bind .ofOption fun param _ => ?_
  refine .bind .ofOption fun m _ => ?_
  cases m with
  | merged _ _ _ => exact .failure
  | invariant _ _ => exact .failure
  | sliced input _ walk =>
    refine .guard_bind fun _ => ?_
    refine .bind .ofOption fun x _ => ?_
    refine .bind .ofOption fun l _ => ?_
    refine .guard_bind fun hrank => ?_
    refine .bind .ofOption fun axis _ => ?_
    refine .guard_bind fun _ => ?_
    obtain ⟨_, _, hsqueeze⟩ := List.length_eq_two.1 hsqueeze
    obtain ⟨_, _, hunsqueeze⟩ := List.length_eq_two.1 hunsqueeze
    refine .bind_some ((finds_dropsAxis hsqueeze axis).andM (finds_insertsAxis hunsqueeze axis)) ?_
    refine .guard_bind fun _ => ?_
    have hread (i : Nat) (hi : i < kind.stateCount + 4) : i < step.cell.inputs.length := hcell ▸ hi
    refine .bind (.read (hread 1 (by omega))) fun v _ => ?_
    refine .bind .ofOption fun h _ => ?_
    have hweight (i : Nat) (hi : i < 3) :
        (do Direct.ofOption (loopConstant? g loop body
          (← .entry step.cell.inputs (1 + kind.stateCount + i))) : Direct Tensor).Finds
          (do loopConstant? g loop body (← step.cell.inputs[1 + kind.stateCount + i]?)) :=
      .bind (.read (hread _ (by omega))) fun _ _ => .ofOption
    refine finds_optional (fun hstate => .read (hread 2 ?_)) (fun _ => .ofOption) fun c => ?_
    · have hstates : kind.stateCount = 2 := if_pos hstate
      omega
    · refine .bind (hweight 0 (by decide)) fun w _ => ?_
      refine .bind (hweight 1 (by decide)) fun r _ => ?_
      refine .bind (hweight 2 (by decide)) fun b _ => ?_
      cases hwidth : l.shape.dim? 2 with
      | none => exact absurd (List.getElem?_eq_none_iff.1 hwidth) (by rw [← Shape.rank]; omega)
      | some width =>
        refine .bind (finds_hiddenSize? kind w r b hwidth) fun hidden _ => ?_
        refine .guard_bind fun _ => ?_
        exact .bind .ofOption fun results _ => .pure

theorem finds_isPlain (h : find? g id kind = some plan) :
    (plan.isPlainDirect g).Finds (some (plan.isPlain g)) := by
  obtain ⟨-, -, _, _, _, _, hf⟩ := fits_of_find? h
  obtain ⟨l, hl, hrank⟩ := hf.layout
  have haxis : plan.timeAxis < l.shape.dims.length := by
    have hle := hf.axis_le
    rw [← Shape.rank]
    omega
  unfold isPlainDirect isPlain
  refine .bind_some (.toOption ?_) .pure
  refine .bind .ofOption fun loop _ => ?_
  refine .bind .ofOption fun body _ => ?_
  refine .bind .ofOption fun control _ => ?_
  by_cases hlen : 2 ≤ loop.inputs.length
  · refine .bind_some (.require hlen) ?_
    have htime : (l.shape.dims[plan.timeAxis]?) = some l.shape.dims[plan.timeAxis] :=
      List.getElem?_eq_getElem haxis
    simp only [hl]
    refine .entry_bind htime (.bind_some .pure ?_)
    refine .bind (.read (by omega)) fun trip _ => ?_
    refine .bind (.read hlen) fun start _ => ?_
    refine .bind .ofOption fun counts _ => ?_
    rcases counts with _ | ⟨count, _ | _⟩
    · exact .failure
    · rw [Option.bind_some, Shape.dim?, htime]
      exact .guard_bind fun _ => .guard_bind fun _ => .guard_bind fun _ => .guarded
    · exact .failure
  · have hnone : loop.inputs[1]? = none := List.getElem?_eq_none (by omega)
    refine (Direct.Finds.bind_none (.refuse hlen)).trans ?_
    simp [hnone]

/-! ### The replacement -/

/-- In batch-major order the sequence still has three axes. -/
theorem exists_layout?_of_batchMajor {l : Layout} (hl : g.layout? plan.x = some l)
    (hrank : l.shape.rank = 3) {x : Value} {k : Graph Body}
    (h : plan.batchMajor.apply g = (.ok x, k)) :
    ∃ l', k.layout? x = some l' ∧ l'.shape.rank = 3 := by
  obtain ⟨-, htranspose⟩ | ⟨-, rfl, rfl⟩ := apply_batchMajor_ok h
  · obtain ⟨l₀, l', hl₀, hl', -, rfl, rfl⟩ := Edit.apply_transpose_ok_iff.1 htranspose
    obtain rfl := Option.some.inj (hl.symm.trans hl₀)
    refine ⟨l', Graph.declares_pushWithInts.layout?, ?_⟩
    obtain ⟨⟨dims⟩, type, format⟩ := l
    match dims, hrank with
    | [a, b, c], _ =>
      obtain rfl := Except.ok.inj hl'
      rfl
  · exact ⟨l, hl, hrank⟩

theorem inRange_addWeight (suffix : String) (t : Tensor) :
    (plan.addWeight suffix t : Edit Body Value).InRange g := by
  refine (Edit.InRange.pureExcept ?_).bind fun _ _ _ => .always _
  unfold Tensor.insertAxis
  split <;> simp

theorem inRange_addLast {x : Value} {l : Layout} {batch time : Dim} {states : List Value} :
    (plan.addLast x l batch time states).InRange g :=
  Edit.inRange_sequenceLengths.bind fun _ _ _ => (inRange_addWeight _ _).bind fun _ _ _ =>
    (inRange_addWeight _ _).bind fun _ _ _ => (inRange_addWeight _ _).bind fun _ _ _ => .addNode _

theorem inRange_addFrom {x : Value} {l : Layout} (hl : g.layout? x = some l)
    (hrank : l.shape.rank = 3) : (plan.addFrom x).InRange g := by
  have hdim (axis : Nat) (haxis : axis < 3) : l.shape.dim axis ≠ .error .outOfRange := by
    have hlt : axis < l.shape.dims.length := Nat.lt_of_lt_of_eq haxis hrank.symm
    rw [Shape.dim, Shape.dim?, List.getElem?_eq_getElem hlt]
    simp
  refine Edit.InRange.layoutOf.bind fun l' k h => ?_
  obtain ⟨hl', rfl⟩ := Edit.apply_layoutOf_ok_iff.1 h
  obtain rfl := Option.some.inj (hl.symm.trans hl')
  refine (Edit.InRange.pureExcept (hdim 0 (by decide))).bind fun _ _ _ => ?_
  refine (Edit.InRange.pureExcept (hdim 1 (by decide))).bind fun _ _ _ => ?_
  refine Edit.inRange_unsqueeze.bind fun _ _ _ => ?_
  unfold addRest
  split
  · exact Edit.inRange_unsqueeze.bind fun _ _ _ => inRange_addLast
  · exact inRange_addLast

theorem inRange_redirectOutputs (v : Value) (outputs : List Nat) :
    (plan.redirectOutputs v outputs : Edit Body Unit).InRange g := by
  induction outputs generalizing g with
  | nil => exact .pure ()
  | cons i rest ih => exact (Edit.InRange.always _).bind fun _ _ _ => ih

theorem inRange_connectSequence {sequence : Nat} :
    (plan.connectSequence sequence : Edit Body Unit).InRange g := by
  unfold connectSequence
  dsimp only
  split
  · refine Edit.inRange_squeeze.bind fun y _ _ => ?_
    rw [Edit.ite_bind]
    exact (Edit.InRange.ite (fun _ => Edit.inRange_transpose) fun _ => .pure y).bind fun y _ _ =>
      inRange_redirectOutputs y _
  · exact .pure ()

theorem inRange_connectState {result : LoopResult} {suffix : String} {v : Value} :
    (plan.connectState result suffix v : Edit Body Unit).InRange g := by
  unfold connectState
  dsimp only
  split
  · exact Edit.inRange_squeeze.bind fun y _ _ => inRange_redirectOutputs y _
  · exact .pure ()

theorem inRange_build (h : find? g id kind = some plan) : plan.build.InRange g := by
  obtain ⟨-, -, _, _, _, _, hf⟩ := fits_of_find? h
  obtain ⟨l, hl, hrank⟩ := hf.layout
  rw [build_eq, addSequence_eq]
  refine Edit.InRange.bind (Edit.InRange.bind ?_ fun x k hx => ?_) fun sequence _ _ => ?_
  · exact .ite (fun _ => Edit.inRange_transpose) fun _ => .pure _
  · obtain ⟨l', hl', hrank'⟩ := exists_layout?_of_batchMajor hl hrank hx
    exact inRange_addFrom hl' hrank'
  · exact inRange_connectSequence.bind fun _ _ _ => inRange_connectState.bind fun _ _ _ =>
      inRange_connectState.bind fun _ _ _ => Edit.InRange.get.bind fun _ _ _ =>
        (Edit.InRange.always _).bind fun _ _ _ => (Edit.InRange.always _).bind fun _ _ _ => .pure _

end LoopPlan

/-! ### The rules -/

/-- The conversion of iterators with direct reads. -/
def iteratorRuleDirect (kind : Cell) : Rule Body where
  name := kind.conversionName
  pattern := loopPattern .tensorIterator
  action m := do
    match ← Edit.askDirect (LoopPlan.findDirect? · m.root.node kind) with
    | some plan => plan.build
    | none => return false

/-- The conversion of loops with direct reads. -/
def loopRuleDirect : Rule Body where
  name := "convert_loop_to_lstm_sequence"
  pattern := loopPattern .loop
  action m := do
    match ← Edit.askDirect (LoopPlan.findDirect? · m.root.node .lstm) with
    | some plan =>
      if (← Edit.askDirect plan.isPlainDirect) = some true then plan.build else return false
    | none => return false

/-- The action with direct reads does the same, and neither reads past the end of a list. -/
theorem apply_iteratorRuleDirect (kind : Cell) (m : Match) (g : Graph Body) :
    ((iteratorRuleDirect kind).action m).apply g = ((iteratorRule kind).action m).apply g ∧
      ((iteratorRule kind).action m).InRange g := by
  have hact : (iteratorRuleDirect kind).action m = (do
      match ← Edit.askDirect (LoopPlan.findDirect? · m.root.node kind) with
      | some plan => plan.build
      | none => return false) := rfl
  have hfind := LoopPlan.finds_find? g m.root.node kind
  rw [hact, Edit.apply_bind_of_ok (Edit.apply_askDirect hfind), Edit.InRange,
    LoopPlan.apply_iteratorAction]
  cases h : LoopPlan.find? g m.root.node kind with
  | none => exact ⟨rfl, by simp⟩
  | some plan => exact ⟨rfl, LoopPlan.inRange_build h⟩

/-- The action with direct reads does the same, and neither reads past the end of a list. -/
theorem apply_loopRuleDirect (m : Match) (g : Graph Body) :
    (loopRuleDirect.action m).apply g = (loopRule.action m).apply g ∧
      (loopRule.action m).InRange g := by
  have hact : loopRuleDirect.action m = (do
      match ← Edit.askDirect (LoopPlan.findDirect? · m.root.node .lstm) with
      | some plan =>
        if (← Edit.askDirect plan.isPlainDirect) = some true then plan.build else return false
      | none => return false) := rfl
  have hfind := LoopPlan.finds_find? g m.root.node .lstm
  rw [hact, Edit.apply_bind_of_ok (Edit.apply_askDirect hfind), Edit.InRange,
    LoopPlan.apply_loopAction]
  cases h : LoopPlan.find? g m.root.node .lstm with
  | none => exact ⟨rfl, by simp⟩
  | some plan =>
    dsimp only
    rw [Edit.apply_bind_of_ok (Edit.apply_askDirect (LoopPlan.finds_isPlain h))]
    cases hplain : plan.isPlain g with
    | false => exact ⟨rfl, by simp⟩
    | true => exact ⟨rfl, LoopPlan.inRange_build h⟩

end Dataflow
