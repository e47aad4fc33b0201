import Dataflow.Build
import Dataflow.Graph.Prune
import Dataflow.Graph.Reach
import Dataflow.Pass
import Dataflow.Recurrent.Direction
import Dataflow.Tensor.Concat

/-!
# Two directions in one sequence node

A forward and a backward sequence node over the same sequence, whose results are laid end to end,
become one bidirectional node.  The results are put together either on the axis for the directions
or, after that axis has been dropped, on the axis of the features.

## Main definitions

* `bidirectionalPattern` : the pattern.
* `Joint` : the axis on which the results are put together.
* `BidirectionalPlan.find?` : the nodes that are involved, if they fit together.
* `BidirectionalPlan.fuse` : the replacement.
* `fuseBidirectional` : the pass.
-/

namespace Dataflow

variable {β : Type}

/-- The numbers of the nodes in the pattern. -/
structure BidirectionalPattern where
  forward : Nat
  backward : Nat
  forwardSqueeze : Nat
  backwardSqueeze : Nat

/-- The pattern of a sequence node over the given sequence and lengths.  Its result has one use. -/
def directionPattern (data lengths : Nat) : PatternBuilder β Nat := do
  let h ← .any
  let c ← .any
  let w ← .any
  let r ← .any
  let b ← .any
  .opWith [.lstmSequence] [data, h, c, lengths, w, r, b] (Condition.useCount 1)

/-- The pattern of two sequence nodes whose results are laid end to end. -/
def bidirectionalPattern : Pattern β × BidirectionalPattern :=
  PatternBuilder.build do
    let data ← .any
    let lengths ← .any
    let forward ← directionPattern data lengths
    let backward ← directionPattern data lengths
    let forwardSqueeze ← .optional .squeeze forward (Condition.useCount 1)
    let backwardSqueeze ← .optional .squeeze backward (Condition.useCount 1)
    let _ ← .op [.concat] [forwardSqueeze, backwardSqueeze]
    return { forward, backward, forwardSqueeze, backwardSqueeze }

/-- The axis on which the results of the two directions are put together. -/
inductive Joint
  /-- The axis for the directions. -/
  | direction
  /-- The last axis, once the axis for the directions has been dropped. -/
  | feature
deriving DecidableEq

/-- The nodes of two directions that can become one node. -/
structure BidirectionalPlan where
  concat : Nat
  forward : Nat
  backward : Nat
  squeezes : List Nat
  joint : Joint

namespace BidirectionalPlan

/-- The attributes that both directions have to share. -/
def sharedAttributes : List String :=
  ["hidden_size", "activations", "activations_alpha", "activations_beta", "clip"]

/-- The operands that differ between the directions, each with its rank: the two initial states,
the two matrices of weights, and the bias. -/
def operandRanks : List (Nat × Nat) :=
  [(1, 3), (2, 3), (4, 3), (5, 3), (6, 2)]

/-- Whether an operand of the two directions has the given rank and equal layouts.  If both values
are constant, their tensors have the same shape and element type, too. -/
def operandsAgree (g : Graph β) (forward backward : Node β) (i rank : Nat) : Bool :=
  match forward.inputs[i]?, backward.inputs[i]? with
  | some v, some w =>
    (match g.layout? v, g.layout? w with
      | some a, some b => a == b && a.shape.rank == rank
      | _, _ => false) &&
    (match g.constant? v, g.constant? w with
      | some x, some y => x.shape == y.shape && x.rank == rank && x.elementType == y.elementType
      | _, _ => true)
  | _, _ => false

/-- Whether a sequence node declares the outputs of a single direction: the hidden states of all
positions, and the two last states, with an axis of length one for the direction. -/
def declaresOneDirection (n : Node β) : Bool :=
  match n.outputs with
  | [y, h, c] =>
    y.shape.rank == 4 && y.shape.dim? 1 == some (.known 1) && h.shape.rank == 3 &&
      h.shape.dim? 1 == some (.known 1) && c == h
  | _ => false

/-- Whether the two directions have operands and outputs of the same layouts. -/
def compatible (g : Graph β) (forward backward : Node β) : Bool :=
  operandRanks.all (fun p => operandsAgree g forward backward p.1 p.2) &&
    forward.outputs == backward.outputs && declaresOneDirection forward

/-- The node that drops the axis for the directions from a result: `some none` if there is none,
and `none` if there is one that drops another axis. -/
def squeeze? (g : Graph β) (lstm squeeze : Value) : Option (Option Nat) :=
  if squeeze = lstm then some none
  else do
    let n ← g.node? squeeze.node
    let [a] ← g.constantInts? (← n.inputs[1]?) | none
    guard ((normalizeAxis a 4).toOption = some 1)
    return some n.id

/-- The joint of two results, and the nodes that drop the axis for the directions, for a
concatenation of the given rank and axis. -/
def joint? (forward backward : Option Nat) (rank axis : Nat) : Option (Joint × List Nat) :=
  match forward, backward with
  | some a, some b => if rank = 3 ∧ axis = 2 then some (.feature, [a, b]) else none
  | none, none => if rank = 4 ∧ axis = 1 then some (.direction, []) else none
  | _, _ => none

/-- The plan for a match of `bidirectionalPattern`, if the two nodes run in opposite directions,
neither depends on the other, and they agree in everything but the direction. -/
def find? (g : Graph β) (p : BidirectionalPattern) (m : Match) : Option BidirectionalPlan := do
  let concat ← g.node? m.root.node
  let y ← m.get? p.forward
  let z ← m.get? p.backward
  guard (y.index = 0 ∧ z.index = 0)
  let forward ← g.producer? y
  let backward ← g.producer? z
  guard (forward.direction = "forward" ∧ backward.direction = "reverse")
  guard (sharedAttributes.all fun a =>
    Attribute.sameOption (forward.attribute? a) (backward.attribute? a))
  guard (!g.hasPath forward.id backward.id && !g.hasPath backward.id forward.id)
  guard (compatible g forward backward)
  let forwardSqueeze ← squeeze? g y (← m.get? p.forwardSqueeze)
  let backwardSqueeze ← squeeze? g z (← m.get? p.backwardSqueeze)
  let rank := (← concat.outputs[0]?).shape.rank
  let axis ← (normalizeAxis (← concat.int? "axis") rank).toOption
  let (joint, squeezes) ← joint? forwardSqueeze backwardSqueeze rank axis
  return { concat := concat.id, forward := forward.id, backward := backward.id, squeezes, joint }

/-- Two operands laid end to end along an axis.  Constants are joined at once. -/
def join (name : String) (v w : Value) (axis : Nat) : Edit β Value := do
  let g ← get
  match g.constant? v, g.constant? w with
  | some a, some b =>
    let t ← Edit.pureExcept (Tensor.concat [a, b] axis)
    Edit.addConstant name t
  | _, _ => Edit.concat name [v, w] axis

/-- The operands of the two directions at one input. -/
def operands (forward backward : Node β) (i : Nat) : Edit β (Value × Value) :=
  match forward.inputs[i]?, backward.inputs[i]? with
  | some v, some w => return (v, w)
  | _, _ => throw .outOfRange

/-- The layout with both directions on the second axis. -/
def bothDirections (l : Layout) : Layout :=
  .planar (l.shape.setDim 1 (.known 2)) l.elementType

/-- The bidirectional node, together with its operands. -/
def addBoth (forward backward : Node β) : Edit β Nat := do
  let name := forward.name
  let (h, h') ← operands forward backward 1
  let h ← Edit.concat (name ++ "/h_init") [h, h'] 1
  let (c, c') ← operands forward backward 2
  let c ← Edit.concat (name ++ "/c_init") [c, c'] 1
  let (w, w') ← operands forward backward 4
  let w ← join (name ++ "/W") w w' 0
  let (r, r') ← operands forward backward 5
  let r ← join (name ++ "/R") r r' 0
  let (b, b') ← operands forward backward 6
  let b ← join (name ++ "/B") b b' 0
  let y ← Edit.layoutOf (forward.output 0)
  let state ← Edit.layoutOf (forward.output 1)
  let (x, _) ← operands forward backward 0
  let (lengths, _) ← operands forward backward 3
  Edit.addNode
    { op := .lstmSequence
      name := some (name ++ "/bidirectional")
      inputs := [x, h, c, lengths, w, r, b]
      outputs := [bothDirections y, bothDirections state, bothDirections state]
      attributes := forward.attributes.withDirection "bidirectional" }

/-- The results of both directions put together as the readers expect them. -/
def joined (joint : Joint) (name : String) (fused : Nat) : Edit β Value := do
  match joint with
  | .direction => return ⟨fused, 0⟩
  | .feature =>
    let t ← Edit.transpose (name ++ "/y_transpose") ⟨fused, 0⟩ [0, 2, 1, 3]
    Edit.reshape (name ++ "/y_reshape") t [0, 0, -1]

/-- The readers of a state of either direction read its part of the state of both.  Nothing is
added for a state that has no readers. -/
def connectState (plan : BidirectionalPlan) (name : String) (fused i : Nat) : Edit β Unit := do
  let v : Value := ⟨plan.forward, i⟩
  let w : Value := ⟨plan.backward, i⟩
  let g ← get
  if !(g.isUnused v && g.isUnused w) then
    match ← Edit.split (name ++ "/split_" ++ Nat.repr i) ⟨fused, i⟩ 1 2 with
    | [first, second] =>
      let _ ← Edit.redirect v first
      let _ ← Edit.redirect w second
    | _ => throw .outOfRange

/-- The listed nodes are marked as eliminated. -/
def eliminateNodes : List Nat → Edit β Unit
  | [] => return ()
  | id :: rest => do
    let _ ← Edit.markEliminated id
    eliminateNodes rest

/-- The two directions and the concatenation are replaced by one bidirectional node, and the
constants that only they have read are removed. -/
def fuse (plan : BidirectionalPlan) : Edit β Bool := do
  let g ← get
  match g.node? plan.forward, g.node? plan.backward with
  | some forward, some backward =>
    let name := forward.name
    let fused ← addBoth forward backward
    let y ← joined plan.joint name fused
    let _ ← Edit.redirect ⟨plan.concat, 0⟩ y
    plan.connectState name fused 1
    plan.connectState name fused 2
    let g ← get
    let squeezed := plan.squeezes.flatMap fun id => ((g.node? id).map Node.inputs).getD []
    eliminateNodes (plan.concat :: plan.squeezes ++ [plan.forward, plan.backward])
    let _ ← Edit.always
      (Graph.eliminateUnusedConstants (forward.inputs ++ backward.inputs ++ squeezed))
    return true
  | _, _ => return false

end BidirectionalPlan

/-- Two directions whose results are laid end to end become one node. -/
def bidirectionalRule : Rule β :=
  let (pattern, nodes) := bidirectionalPattern
  { name := "fuse_bidirectional_lstm_sequence"
    pattern
    action := fun m => do
      match BidirectionalPlan.find? (← get) nodes m with
      | some plan => plan.fuse
      | none => return false }

/-- The pass that puts two directions into one node. -/
def fuseBidirectional (config : RunConfig := {}) : Pass β :=
  { { bidirectionalRule with config }.toPass with
    applicable := fun g => decide (2 ≤ (g.findOps [.lstmSequence]).length) }

end Dataflow
