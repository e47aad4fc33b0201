import Dataflow.Build
import Dataflow.Graph.Prune
import Dataflow.Pass
import Dataflow.Recurrent.Direction

/-!
# Reversals taken into a sequence node

A sequence that is reversed, run through a forward sequence node and reversed again can be run
backward instead.  Between the sequence node and the second reversal the axis for the directions
may have been dropped.

## Main definitions

* `reversalPattern` : the pattern.
* `ReversalPlan.find?` : the nodes that are involved, if they fit together.
* `ReversalPlan.fuse` : the replacement.
* `fuseReversal` : the pass.
-/

namespace Dataflow

variable {β : Type}

/-- The numbers of the nodes in the pattern. -/
structure ReversalPattern where
  first : Nat
  lengths : Nat
  lstm : Nat
  squeeze : Nat

/-- The pattern of a sequence node between two reversals with the same lengths.  Its first output
has no other use. -/
def reversalPattern : Pattern β × ReversalPattern :=
  PatternBuilder.build do
    let data ← .anyWith (Condition.rank 3)
    let lengths ← .any
    let first ← .op [.reverseSequence] [data, lengths]
    let others ← (List.replicate 6 PatternBuilder.any).mapM id
    let lstm ← .opWith [.lstmSequence] (first :: others) (Condition.useCount 1)
    let squeeze ← .optional .squeeze lstm (Condition.useCount 1)
    let _ ← .op [.reverseSequence] [squeeze, lengths]
    return { first, lengths, lstm, squeeze }

/-- The batch axis and the time axis of a reversal of a tensor of the given rank. -/
def reversalAxes? (n : Node β) (rank : Nat) : Option (Nat × Nat) := do
  let batch ← (normalizeAxis ((n.int? "batch_axis").getD 0) rank).toOption
  let time ← (normalizeAxis ((n.int? "seq_axis").getD 1) rank).toOption
  return (batch, time)

/-- The nodes of two reversals that can be taken into the sequence node between them. -/
structure ReversalPlan where
  first : Nat
  second : Nat
  lstm : Nat
  squeeze : Option Nat
  lengths : Value

namespace ReversalPlan

/-- Whether the list of axes of a squeeze node names the direction axis of a tensor of rank four.
A squeeze node has to have a second input. -/
def dropsDirection (g : Graph β) (squeeze : Node β) : Except Error Bool :=
  match squeeze.inputs[1]? with
  | none => .error .outOfRange
  | some axes =>
    match g.constantInts? axes with
    | some [a] => .ok ((normalizeAxis a 4).toOption == some 1)
    | _ => .ok false

/-- The squeeze node between the sequence node and the second reversal: `some none` if there is
none, and `none` if there is one that does not fit. -/
def squeeze? (g : Graph β) (lstm squeeze : Value) : Except Error (Option (Option Nat)) :=
  if squeeze = lstm then .ok (some none)
  else
    match g.node? squeeze.node with
    | none => .ok none
    | some n => do
      if (← dropsDirection g n) && !g.isOutputValue squeeze then return some (some n.id)
      else return none

/-- Whether two values hold the same lengths: they are equal, or constants with equal entries. -/
def sameLengths (g : Graph β) (v w : Value) : Bool :=
  v == w ||
    match g.constantInts? v, g.constantInts? w with
    | some a, some b => a == b
    | _, _ => false

/-- The plan for the nodes of a match, given the squeeze node. -/
def complete? (g : Graph β) (first second lstm : Node β) (lengths : Value)
    (squeeze : Option Nat) : Option ReversalPlan := do
  guard ((← reversalAxes? first 3) = (0, 1))
  let rank := (← g.layout? (← second.inputs[0]?)).shape.rank
  guard ((← reversalAxes? second rank) = if squeeze.isSome then (0, 1) else (0, 2))
  guard (sameLengths g (← lstm.inputs[3]?) lengths)
  return { first := first.id, second := second.id, lstm := lstm.id, squeeze, lengths }

/-- The plan for a match of `reversalPattern`, if the reversals are on the right axes, all lengths
agree, and the values in between are not outputs of the graph. -/
def find? (g : Graph β) (p : ReversalPattern) (m : Match) : Except Error (Option ReversalPlan) :=
  match g.node? m.root.node, (m.get? p.first).bind g.producer?, m.get? p.lstm,
      (m.get? p.lstm).bind g.producer?, m.get? p.lengths, m.get? p.squeeze with
  | some second, some first, some y, some lstm, some lengths, some squeeze =>
    if y.index = 0 ∧ lstm.direction = "forward" ∧ g.isOutputValue y = false then do
      match ← squeeze? g y squeeze with
      | some squeeze => return complete? g first second lstm lengths squeeze
      | none => return none
    else .ok none
  | _, _, _, _, _, _ => .ok none

/-- The readers of the outputs of one node, from a number on, read those of another. -/
def redirectFrom (old new : Nat) : List Nat → Edit β Unit
  | [] => return ()
  | i :: rest => do
    let _ ← Edit.redirect ⟨old, i⟩ ⟨new, i⟩
    redirectFrom old new rest

/-- The two reversals and the sequence node between them are replaced by a backward sequence
node. -/
def fuse (plan : ReversalPlan) : Edit β Bool := do
  let g ← get
  match g.node? plan.lstm, (g.node? plan.first).bind (·.inputs[0]?) with
  | some old, some data =>
    let new ← Edit.addNode
      { op := .lstmSequence
        name := some (old.name ++ "/reverse")
        inputs := (old.inputs.set 0 data).set 3 plan.lengths
        outputs := old.outputs
        attributes := old.attributes.withDirection "reverse" }
    let y ←
      if plan.squeeze.isSome then Edit.squeeze (old.name ++ "/y") ⟨new, 0⟩ 1 else pure ⟨new, 0⟩
    let _ ← Edit.redirect ⟨plan.second, 0⟩ y
    redirectFrom plan.lstm new ((List.range old.outputs.length).drop 1)
    let _ ← Edit.markEliminated plan.second
    if let some squeeze := plan.squeeze then
      let _ ← Edit.markEliminated squeeze
    let _ ← Edit.markEliminated plan.lstm
    let _ ← Edit.always (·.eliminateIfUnused plan.first)
    return true
  | _, _ => return false

end ReversalPlan

/-- Two reversals around a forward sequence node become a backward one. -/
def reversalRule : Rule β :=
  let (pattern, nodes) := reversalPattern
  { name := "fuse_reverse_lstm_sequence"
    pattern
    action := fun m => do
      match ← Edit.ask fun g => ReversalPlan.find? g nodes m with
      | some plan => plan.fuse
      | none => return false }

/-- The pass that takes reversals into sequence nodes. -/
def fuseReversal (config : RunConfig := {}) : Pass β :=
  { { reversalRule with config }.toPass with
    applicable := fun g => !(g.findOps [.reverseSequence]).isEmpty }

end Dataflow
