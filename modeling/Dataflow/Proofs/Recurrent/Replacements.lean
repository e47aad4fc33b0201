import Dataflow.Proofs.Invariant
import Dataflow.Proofs.Recurrent.BidirectionalFusion
import Dataflow.Proofs.Recurrent.LoopConversion
import Dataflow.Proofs.Recurrent.ReversalFusion

/-!
# What replacements keep

A replacement pushes nodes that read operands of the nodes that it replaces, lets readers of replaced
nodes read the new ones, and eliminates nodes.  An invariant that survives these steps holds after the
whole replacement, even where it fails on the way.

## Main definitions

* `LoopPlan.connect`, `BidirectionalPlan.connect` : a replacement once the new node is there.
* `LoopPlan.addFrom`, `BidirectionalPlan.addAfter` : the new node once its first operand is there.
* `LoopPlan.addRest`, `LoopPlan.addLast` : the new node once one or all of its states are there.

## Main statements

* `LoopPlan.keeps_build`, `ReversalPlan.keeps_fuse`, `BidirectionalPlan.keeps_fuse` : the three
  replacements keep replaceable invariants.
-/

namespace Dataflow

open Edit (Keeps Extensible Replaceable)

/-! ### Loops -/

namespace LoopPlan

variable {Q : Graph Body → Prop} {N S : Value → Prop} {D : Nat → Prop} {plan : LoopPlan}

/-- The rest of the sequence node, once the initial states have an axis for the directions. -/
def addLast (plan : LoopPlan) (x : Value) (layout : Layout) (batch time : Dim)
    (states : List Value) : Edit Body Nat := do
  let lengths ← Edit.sequenceLengths (plan.part "seq_len") x
  let w ← plan.addWeight "W" plan.w
  let r ← plan.addWeight "R" plan.r
  let b ← plan.addWeight "B" plan.b
  Edit.addNode (plan.sequenceSpec ([x] ++ states ++ [lengths, w, r, b]) batch time layout.elementType)

/-- The rest of the sequence node, once the initial hidden state has an axis for the directions. -/
def addRest (plan : LoopPlan) (x : Value) (layout : Layout) (batch time : Dim) (h : Value) :
    Edit Body Nat :=
  match plan.c with
  | some c => do
    let c ← Edit.unsqueeze (plan.part "c_init") c 1
    plan.addLast x layout batch time [h, c]
  | none => plan.addLast x layout batch time [h]

/-- The sequence node over a batch-major sequence. -/
def addFrom (plan : LoopPlan) (x : Value) : Edit Body Nat := do
  let layout ← Edit.layoutOf x
  let batch ← Edit.pureExcept (layout.shape.dim 0)
  let time ← Edit.pureExcept (layout.shape.dim 1)
  let h ← Edit.unsqueeze (plan.part "h_init") plan.h 1
  plan.addRest x layout batch time h

theorem addSequence_eq (plan : LoopPlan) : plan.addSequence = plan.batchMajor >>= plan.addFrom := by
  unfold addSequence batchMajor addFrom addRest
  dsimp only
  rw [Edit.ite_bind]
  cases plan.c <;> rfl

/-- The sequence node takes the place of the loop node. -/
def connect (plan : LoopPlan) (sequence : Nat) : Edit Body Bool := do
  plan.connectSequence sequence
  plan.connectState .hidden "ho" ⟨sequence, 1⟩
  plan.connectState .cell "co" ⟨sequence, 2⟩
  let inputs := (((← get).node? plan.loop).map Node.inputs).getD []
  let _ ← Edit.markEliminated plan.loop
  let _ ← Edit.always (Graph.eliminateUnusedConstants inputs)
  return true

theorem build_eq (plan : LoopPlan) : plan.build = plan.addSequence >>= plan.connect :=
  rfl

section Extensible

variable (hQ : Extensible Q N S)
include hQ

theorem keeps_addWeight (suffix : String) (t : Tensor) : Keeps Q N (plan.addWeight suffix t) :=
  (Keeps.pureExcept _).bind fun _ _ => hQ.addConstant _

theorem keeps_batchMajor (hx : S plan.x) : Keeps Q S plan.batchMajor :=
  .ite (fun _ => (hQ.transpose hx).mono fun _ h => hQ.weaken h) fun _ => .pure hx

theorem keeps_addLast {x : Value} {layout : Layout} {batch time : Dim} {states : List Value} (hx : S x)
    (hstates : ∀ v ∈ states, N v) :
    Keeps Q (fun id => ∀ i, N ⟨id, i⟩) (plan.addLast x layout batch time states) := by
  refine (hQ.sequenceLengths hx).bind fun lengths hlengths =>
    (keeps_addWeight hQ _ _).bind fun w hw => (keeps_addWeight hQ _ _).bind fun r hr =>
      (keeps_addWeight hQ _ _).bind fun b hb => hQ.addNode rfl fun v hv => ?_
  simp only [sequenceSpec, List.mem_append, List.mem_cons, List.not_mem_nil, or_false] at hv
  obtain (rfl | hv) | rfl | rfl | rfl | rfl := hv
  · exact hx
  · exact hQ.weaken (hstates v hv)
  · exact hQ.weaken hlengths
  · exact hQ.weaken hw
  · exact hQ.weaken hr
  · exact hQ.weaken hb

theorem keeps_addRest {x h : Value} {layout : Layout} {batch time : Dim} (hx : S x) (hh : N h)
    (hc : ∀ v ∈ plan.c, S v) :
    Keeps Q (fun id => ∀ i, N ⟨id, i⟩) (plan.addRest x layout batch time h) := by
  unfold addRest
  split
  · next c hplan =>
    exact (hQ.unsqueeze (hc c hplan)).bind fun c hc =>
      keeps_addLast hQ hx (by simpa using ⟨hh, hc⟩)
  · exact keeps_addLast hQ hx (by simpa using hh)

theorem keeps_addFrom {x : Value} (hx : S x) (hstates : ∀ v ∈ plan.states, S v) :
    Keeps Q (fun id => ∀ i, N ⟨id, i⟩) (plan.addFrom x) :=
  (Keeps.layoutOf x).bind fun _ _ => (Keeps.pureExcept _).bind fun _ _ =>
    (Keeps.pureExcept _).bind fun _ _ => (hQ.unsqueeze (hstates _ List.mem_cons_self)).bind
      fun _ hh => keeps_addRest hQ hx hh fun v hv =>
        hstates v (List.mem_cons_of_mem _ (Option.mem_toList.2 hv))

theorem keeps_addSequence (hx : S plan.x) (hstates : ∀ v ∈ plan.states, S v) :
    Keeps Q (fun id => ∀ i, N ⟨id, i⟩) plan.addSequence := by
  rw [addSequence_eq]
  exact (keeps_batchMajor hQ hx).bind fun x hx => keeps_addFrom hQ hx hstates

end Extensible

section Replaceable

variable (hQ : Replaceable Q N S D) (hloop : D plan.loop)
include hQ hloop

theorem keeps_redirectOutputs {v : Value} (hv : N v) (outputs : List Nat) :
    Keeps Q (fun _ => True) (plan.redirectOutputs v outputs) := by
  induction outputs with
  | nil => exact .pure trivial
  | cons i rest ih => exact (hQ.redirect hloop hv).bind fun _ _ => ih

theorem keeps_connectSequence {sequence : Nat} (hnew : N ⟨sequence, 0⟩) :
    Keeps Q (fun _ => True) (plan.connectSequence sequence) := by
  unfold connectSequence
  dsimp only
  split
  · refine (hQ.squeeze (hQ.weaken hnew)).bind fun y hy => ?_
    rw [Edit.ite_bind]
    exact (Keeps.ite (fun _ => hQ.transpose (hQ.weaken hy)) fun _ => .pure hy).bind fun y hy =>
      keeps_redirectOutputs hQ hloop hy _
  · exact .pure trivial

theorem keeps_connectState {result : LoopResult} {suffix : String} {v : Value} (hnew : N v) :
    Keeps Q (fun _ => True) (plan.connectState result suffix v) := by
  unfold connectState
  dsimp only
  split
  · exact (hQ.squeeze (hQ.weaken hnew)).bind fun y hy => keeps_redirectOutputs hQ hloop hy _
  · exact .pure trivial

theorem keeps_connect {sequence : Nat} (hnew : ∀ i, N ⟨sequence, i⟩) :
    Keeps Q (fun _ => True) (plan.connect sequence) :=
  (keeps_connectSequence hQ hloop (hnew 0)).bind fun _ _ =>
    (keeps_connectState hQ hloop (hnew 1)).bind fun _ _ =>
      (keeps_connectState hQ hloop (hnew 2)).bind fun _ _ => Keeps.get.bind fun _ _ =>
        (hQ.markEliminated _).bind fun _ _ => (hQ.eliminateUnusedConstants _).bind fun _ _ =>
          .pure trivial

/-- The replacement of a loop keeps every replaceable invariant. -/
theorem keeps_build (hx : S plan.x) (hstates : ∀ v ∈ plan.states, S v) :
    Keeps Q (fun _ => True) plan.build := by
  rw [build_eq]
  exact (keeps_addSequence hQ.toExtensible hx hstates).bind fun _ hnew => keeps_connect hQ hloop hnew

end Replaceable

end LoopPlan

/-! ### Reversals -/

namespace ReversalPlan

variable {β : Type} {Q : Graph β → Prop} {N S : Value → Prop} {D : Nat → Prop} {g : Graph β}
  {plan : ReversalPlan} {first lstm second : Node β} {data x l a : Value}

theorem keeps_redirectFrom (hQ : Replaceable Q N S D) {old new : Nat} (hold : D old)
    (hnew : ∀ i, N ⟨new, i⟩) (outputs : List Nat) :
    Keeps Q (fun _ => True) (redirectFrom old new outputs) := by
  induction outputs with
  | nil => exact .pure trivial
  | cons i rest ih => exact (hQ.redirect hold (hnew i)).bind fun _ _ => ih

/-- The replacement of two reversals and the sequence node between them keeps every replaceable
invariant. -/
theorem keeps_fuse (hlstm : g.node? plan.lstm = some lstm)
    (hdata : (g.node? plan.first).bind (·.inputs[0]?) = some data) (hQ : Replaceable Q N S D)
    (hS : ∀ v ∈ (plan.spec lstm data).inputs, S v) (hD : ∀ id ∈ plan.replaced, D id) (hg : Q g) :
    Q (plan.fuse.apply g).2 := by
  rw [fuse, Edit.apply_bind, Edit.apply_get]
  simp only [hlstm, hdata]
  refine ((?_ : Keeps Q (fun _ => True) _) g hg).1
  refine (hQ.addNode rfl hS).bind fun new hnew => ?_
  have hresult : Keeps Q N (plan.result lstm new) :=
    .ite (fun _ => hQ.squeeze (hQ.weaken (hnew 0))) fun _ => .pure (hnew 0)
  have hend : Keeps Q (fun _ => True) (do
      let _ ← Edit.markEliminated plan.lstm
      let _ ← Edit.always (·.eliminateIfUnused plan.first)
      return true) :=
    (hQ.markEliminated _).bind fun _ _ => (hQ.eliminateIfUnused _).bind fun _ _ => .pure trivial
  rw [Edit.ite_bind]
  refine hresult.bind fun y hy => (hQ.redirect (hD _ (mem_replaced.2 (.inl rfl))) hy).bind
    fun _ _ => (keeps_redirectFrom hQ (hD _ (mem_replaced.2 (.inr (.inr rfl)))) hnew _).bind
      fun _ _ => (hQ.markEliminated _).bind fun _ _ => ?_
  split
  · exact (hQ.markEliminated _).bind fun _ _ => hend
  · exact hend

theorem Involved.keeps_fuse (hi : Involved g plan first lstm second data x l a)
    (hQ : Replaceable Q N S D) (hS : ∀ v ∈ (plan.spec lstm data).inputs, S v)
    (hD : ∀ id ∈ plan.replaced, D id) (hg : Q g) : Q (plan.fuse.apply g).2 := by
  have hdata : (g.node? plan.first).bind (·.inputs[0]?) = some data := by
    rw [Graph.node?_of_live? hi.first_node, Option.bind_some, hi.first_inputs]
    rfl
  exact ReversalPlan.keeps_fuse (Graph.node?_of_live? hi.lstm_node) hdata hQ hS hD hg

end ReversalPlan

/-! ### Two directions -/

namespace BidirectionalPlan

variable {β : Type} {Q : Graph β → Prop} {N S : Value → Prop} {D : Nat → Prop} {g : Graph β}
  {plan : BidirectionalPlan} {forward backward : Node β} {v w : Value} {name : String}

/-- The rest of the bidirectional node, once the initial hidden states are laid end to end. -/
def addAfter (forward backward : Node β) (h : Value) : Edit β Nat := do
  let name := forward.name
  let (c, c') ← operands forward backward 2
  let c ← Edit.concat (name ++ "/c_init") [c, c'] 1
  let (w, w') ← operands forward backward 4
  let w ← join (name ++ "/W") w w' 0
  let (r, r') ← operands forward backward 5
  let r ← join (name ++ "/R") r r' 0
  let (b, b') ← operands forward backward 6
  let b ← join (name ++ "/B") b b' 0
  let y ← Edit.layoutOf (forward.output 0)
  let state ← Edit.layoutOf (forward.output 1)
  let (x, _) ← operands forward backward 0
  let (lengths, _) ← operands forward backward 3
  Edit.addNode (spec forward [x, h, c, lengths, w, r, b] y state)

theorem addBoth_eq (forward backward : Node β) : addBoth forward backward = (do
    let (h, h') ← operands forward backward 1
    let h ← Edit.concat (forward.name ++ "/h_init") [h, h'] 1
    addAfter forward backward h) :=
  rfl

/-- The bidirectional node takes the place of the two directions and of the concatenation. -/
def connect (plan : BidirectionalPlan) (forward backward : Node β) (fused : Nat) : Edit β Bool := do
  let y ← joined plan.joint forward.name fused
  let _ ← Edit.redirect ⟨plan.concat, 0⟩ y
  plan.connectState forward.name fused 1
  plan.connectState forward.name fused 2
  let g ← get
  let squeezed := plan.squeezes.flatMap fun id => ((g.node? id).map Node.inputs).getD []
  eliminateNodes (plan.concat :: plan.squeezes ++ [plan.forward, plan.backward])
  let _ ← Edit.always
    (Graph.eliminateUnusedConstants (forward.inputs ++ backward.inputs ++ squeezed))
  return true

theorem apply_fuse (hforward : g.node? plan.forward = some forward)
    (hbackward : g.node? plan.backward = some backward) :
    plan.fuse.apply g = (addBoth forward backward >>= plan.connect forward backward).apply g := by
  rw [fuse, Edit.apply_bind, Edit.apply_get]
  simp only [hforward, hbackward]
  rfl

section Extensible

variable (hQ : Extensible Q N S)
include hQ

omit hQ in
theorem keeps_operands (hS : ∀ v ∈ forward.inputs ++ backward.inputs, S v) (i : Nat) :
    Keeps Q (fun p => S p.1 ∧ S p.2) (operands forward backward i) := by
  unfold operands
  split
  · next v w hv hw =>
    exact .pure ⟨hS v (List.mem_append_left _ (List.mem_of_getElem? hv)),
      hS w (List.mem_append_right _ (List.mem_of_getElem? hw))⟩
  · exact .throw _

theorem keeps_join {axis : Nat} (hv : S v) (hw : S w) : Keeps Q N (join name v w axis) := by
  refine Keeps.get.bind fun g _ => ?_
  split
  · exact (Keeps.pureExcept _).bind fun _ _ => hQ.addConstant _
  · exact hQ.concat (by simpa using ⟨hv, hw⟩)

theorem keeps_addAfter (hS : ∀ v ∈ forward.inputs ++ backward.inputs, S v) {h : Value} (hh : N h) :
    Keeps Q (fun id => ∀ i, N ⟨id, i⟩) (addAfter forward backward h) := by
  have hin := keeps_operands (Q := Q) hS
  refine (hin 2).bind fun _ h₂ => (hQ.concat (by simpa using h₂)).bind fun c hc =>
    (hin 4).bind fun _ h₄ => (keeps_join hQ h₄.1 h₄.2).bind fun w hw =>
    (hin 5).bind fun _ h₅ => (keeps_join hQ h₅.1 h₅.2).bind fun r hr =>
    (hin 6).bind fun _ h₆ => (keeps_join hQ h₆.1 h₆.2).bind fun b hb =>
    (Keeps.layoutOf _).bind fun y _ => (Keeps.layoutOf _).bind fun state _ =>
    (hin 0).bind fun _ h₀ => (hin 3).bind fun _ h₃ => hQ.addNode rfl ?_
  simpa [spec] using
    ⟨h₀.1, hQ.weaken hh, hQ.weaken hc, h₃.1, hQ.weaken hw, hQ.weaken hr, hQ.weaken hb⟩

theorem keeps_addBoth (hS : ∀ v ∈ forward.inputs ++ backward.inputs, S v) :
    Keeps Q (fun id => ∀ i, N ⟨id, i⟩) (addBoth forward backward) := by
  rw [addBoth_eq]
  exact (keeps_operands hS 1).bind fun _ h₁ => (hQ.concat (by simpa using h₁)).bind fun _ hh =>
    keeps_addAfter hQ hS hh

theorem keeps_joined {joint : Joint} {fused : Nat} (hfused : N ⟨fused, 0⟩) :
    Keeps Q N (joined joint name fused) := by
  cases joint with
  | direction => exact .pure hfused
  | feature =>
    exact (hQ.transpose (hQ.weaken hfused)).bind fun _ ht => hQ.reshape (hQ.weaken ht)

end Extensible

section Replaceable

variable (hQ : Replaceable Q N S D) (hD : ∀ id ∈ plan.replaced, D id)
include hQ

theorem keeps_eliminateNodes (ids : List Nat) : Keeps Q (fun _ => True) (eliminateNodes ids) := by
  induction ids with
  | nil => exact .pure trivial
  | cons id rest ih => exact (hQ.markEliminated id).bind fun _ _ => ih

include hD

theorem keeps_connectState {fused : Nat} (hnew : ∀ i, N ⟨fused, i⟩) (i : Nat) :
    Keeps Q (fun _ => True) (plan.connectState name fused i) := by
  refine Keeps.get.bind fun h _ => ?_
  split
  · refine (hQ.split (hQ.weaken (hnew i))).bind fun parts hparts => ?_
    split
    · exact (hQ.redirect (hD _ (mem_replaced.2 (.inr (.inr (.inl rfl))))) (hparts _ (by simp))).bind
        fun _ _ => (hQ.redirect (hD _ (mem_replaced.2 (.inr (.inr (.inr rfl)))))
          (hparts _ (by simp))).bind fun _ _ => .pure trivial
    · exact .throw _
  · exact .pure trivial

theorem keeps_connect {fused : Nat} (hnew : ∀ i, N ⟨fused, i⟩) :
    Keeps Q (fun _ => True) (plan.connect forward backward fused) :=
  (keeps_joined hQ.toExtensible (hnew 0)).bind fun _ hy =>
    (hQ.redirect (hD _ (mem_replaced.2 (.inl rfl))) hy).bind fun _ _ =>
      (keeps_connectState hQ hD hnew 1).bind fun _ _ => (keeps_connectState hQ hD hnew 2).bind
        fun _ _ => Keeps.get.bind fun _ _ => (keeps_eliminateNodes hQ _).bind fun _ _ =>
          (hQ.eliminateUnusedConstants _).bind fun _ _ => .pure trivial

/-- The replacement of two directions keeps every replaceable invariant. -/
theorem keeps_fuse (hforward : g.node? plan.forward = some forward)
    (hbackward : g.node? plan.backward = some backward)
    (hS : ∀ v ∈ forward.inputs ++ backward.inputs, S v) (hg : Q g) : Q (plan.fuse.apply g).2 := by
  rw [apply_fuse hforward hbackward]
  exact ((keeps_addBoth hQ.toExtensible hS).bind fun _ hnew => keeps_connect hQ hD hnew) g hg |>.1

end Replaceable

end BidirectionalPlan

end Dataflow
