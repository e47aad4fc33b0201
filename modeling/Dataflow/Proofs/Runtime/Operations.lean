import Dataflow.Proofs.Runtime.Evaluation
import Dataflow.Proofs.Runtime.Recurrence

/-!
# What the operations do

The operations that a loop over a recurrent cell and its replacement are made of have their usual
meaning: axes of length one come and go, elements are moved, and cells run step by step.  All other
operations may do anything.

## Main definitions

* `Interpretation.Squeezes` and its companions : the usual meaning of a single operation.
* `Interpretation.Follows` : an interpretation of the operations that runs the given steps.
* `Interpretation.ReadsLengths` : the part of it that is about lengths.
* `StepFunction.interpretation` : one that gives no meaning to other operations.
-/

namespace Dataflow

/-- The value of the axis attribute, counted from the front; the first axis by default. -/
def axisOf? (a : Attributes) (rank : Nat) : Option Nat :=
  match a.get? "axis" with
  | some (.int axis) => (normalizeAxis axis rank).toOption
  | _ => (normalizeAxis 0 rank).toOption

namespace Interpretation

/-- Squeezing drops the axes that the second operand lists. -/
def Squeezes (I : Interpretation) : Prop :=
  ∀ a t l rest, I .squeeze a (t :: l :: rest) = do return [← t.squeeze? (← l.ints?)]

/-- Unsqueezing inserts the axes that the second operand lists. -/
def Unsqueezes (I : Interpretation) : Prop :=
  ∀ a t l, I .unsqueeze a [t, l] = do return [← t.unsqueeze? (← l.ints?)]

/-- Reshaping keeps the elements, and the second operand lists the lengths. -/
def Reshapes (I : Interpretation) : Prop :=
  ∀ a t l, I .reshape a [t, l] = do return [← t.reshape? (← l.ints?)]

/-- Transposing puts the axes into the order that the second operand lists. -/
def Transposes (I : Interpretation) : Prop :=
  ∀ a t l, I .transpose a [t, l] = do return [← t.transpose? (← l.ints?)]

/-- The operation of a sequence runs the given steps. -/
def RunsSequence (I : Interpretation) (F : StepFunction) (kind : Cell) : Prop :=
  ∀ a x states lengths w r b, states.length = kind.stateCount →
    I kind.sequenceOp a (x :: states ++ [lengths, w, r, b]) =
      F.sequence? kind a x states lengths w r b

/-- The operations on tensors have their usual meaning, recurrent cells run the given steps, and
loops run their bodies. -/
structure Follows (I : Interpretation) (F : StepFunction) : Prop where
  squeeze : I.Squeezes
  unsqueeze : I.Unsqueezes
  reshape : I.Reshapes
  transpose : I.Transposes
  shapeOf : ∀ a t, I .shapeOf a [t] = some [.vector (t.shape.map Int.ofNat)]
  gather : ∀ a t l, I .gather a [t, l] = (do
    return [← t.select? (← axisOf? a t.shape.length) (← Grid.naturals? (← l.ints?))])
  broadcast : ∀ a t l, I .broadcast a [t, l] = (do
    return [← t.broadcast? (← Grid.naturals? (← l.ints?))])
  cell : ∀ kind a x states w r b, states.length = kind.stateCount →
    I kind.stepOp a (x :: states ++ [w, r, b]) = F.cell? kind a x states w r b
  sequence : ∀ kind, I.RunsSequence F kind
  loop : ∀ op a ts, op = .tensorIterator ∨ op = .loop → I op a ts = none

/-- The operations that read lengths off tensors and repeat tensors have their usual meaning. -/
structure ReadsLengths (I : Interpretation) : Prop where
  shapeOf : ∀ a t, I .shapeOf a [t] = some [.vector (t.shape.map Int.ofNat)]
  gather : ∀ a t l, I .gather a [t, l] = (do
    return [← t.select? (← axisOf? a t.shape.length) (← Grid.naturals? (← l.ints?))])
  broadcast : ∀ a t l, I .broadcast a [t, l] = (do
    return [← t.broadcast? (← Grid.naturals? (← l.ints?))])

variable {I : Interpretation}

theorem Follows.readsLengths {F : StepFunction} (hI : I.Follows F) : I.ReadsLengths :=
  ⟨hI.shapeOf, hI.gather, hI.broadcast⟩

/-- One entry of a vector is gathered along its only axis. -/
theorem ReadsLengths.gather_vector (hI : I.ReadsLengths) {words : List Int} {p : Nat} {n : Int}
    (hp : words[p]? = some n) : I .gather (Attributes.empty.insert "axis" (.int 0))
      [.vector words, .vector [(p : Int)]] = some [.vector [n]] := by
  have haxis : axisOf? (Attributes.empty.insert "axis" (.int 0)) 1 = some 0 := by
    rw [axisOf?, Attributes.get?_insert, if_pos rfl]
    rfl
  rw [hI.gather, show (Grid.vector words).shape.length = 1 from rfl, haxis, Grid.ints?_vector,
    show [(p : Int)] = [p].map Int.ofNat from rfl]
  simp only [Option.bind_eq_bind, Option.bind_some, Grid.naturals?_map, Grid.select?_vector hp]
  rfl

/-- A number is repeated as often as the second operand says. -/
theorem ReadsLengths.broadcast_vector (hI : I.ReadsLengths) (a : Attributes) (n : Int)
    (count : Nat) : I .broadcast a [.vector [n], .vector [(count : Int)]] =
      some [.vector (List.replicate count n)] := by
  rw [hI.broadcast, Grid.ints?_vector, show [(count : Int)] = [count].map Int.ofNat from rfl]
  simp only [Option.bind_eq_bind, Option.bind_some, Grid.naturals?_map, Grid.broadcast?_vector]
  rfl

end Interpretation

namespace StepFunction

/-- The cell among the operands of a node. -/
def cellNode? (F : StepFunction) (kind : Cell) (a : Attributes) :
    List Grid → Option (List Grid)
  | x :: rest =>
    match rest.drop kind.stateCount with
    | [w, r, b] => F.cell? kind a x (rest.take kind.stateCount) w r b
    | _ => none
  | [] => none

/-- The sequence operation among the operands of a node. -/
def sequenceNode? (F : StepFunction) (kind : Cell) (a : Attributes) :
    List Grid → Option (List Grid)
  | x :: rest =>
    match rest.drop kind.stateCount with
    | [lengths, w, r, b] => F.sequence? kind a x (rest.take kind.stateCount) lengths w r b
    | _ => none
  | [] => none

/-- The usual meaning of the operations, none being given to the other ones. -/
def interpretation (F : StepFunction) : Interpretation
  | .squeeze, _, t :: l :: _ => do return [← t.squeeze? (← l.ints?)]
  | .unsqueeze, _, [t, l] => do return [← t.unsqueeze? (← l.ints?)]
  | .reshape, _, [t, l] => do return [← t.reshape? (← l.ints?)]
  | .transpose, _, [t, l] => do return [← t.transpose? (← l.ints?)]
  | .shapeOf, _, [t] => some [.vector (t.shape.map Int.ofNat)]
  | .gather, a, [t, l] => do
    return [← t.select? (← axisOf? a t.shape.length) (← Grid.naturals? (← l.ints?))]
  | .broadcast, _, [t, l] => do return [← t.broadcast? (← Grid.naturals? (← l.ints?))]
  | .lstmCell, a, ts => F.cellNode? .lstm a ts
  | .rnnCell, a, ts => F.cellNode? .rnn a ts
  | .gruCell, a, ts => F.cellNode? .gru a ts
  | .lstmSequence, a, ts => F.sequenceNode? .lstm a ts
  | .rnnSequence, a, ts => F.sequenceNode? .rnn a ts
  | .gruSequence, a, ts => F.sequenceNode? .gru a ts
  | _, _, _ => none

theorem follows_interpretation (F : StepFunction) : F.interpretation.Follows F where
  squeeze _ _ _ _ := rfl
  unsqueeze _ _ _ := rfl
  reshape _ _ _ := rfl
  transpose _ _ _ := rfl
  shapeOf _ _ := rfl
  gather _ _ _ := rfl
  broadcast _ _ _ := rfl
  cell kind a x states w r b hlen := by
    have hnode : F.cellNode? kind a (x :: states ++ [w, r, b]) = F.cell? kind a x states w r b := by
      rw [List.cons_append, cellNode?, List.drop_left' hlen, List.take_left' hlen]
    cases kind <;> exact hnode
  sequence kind a x states lengths w r b hlen := by
    have hnode : F.sequenceNode? kind a (x :: states ++ [lengths, w, r, b]) =
        F.sequence? kind a x states lengths w r b := by
      rw [List.cons_append, sequenceNode?, List.drop_left' hlen, List.take_left' hlen]
    cases kind <;> exact hnode
  loop op a ts hop := by
    obtain rfl | rfl := hop <;> rfl

/-- Steps over whole numbers that double the states and add the first entry of the input. -/
def doubling : StepFunction where
  next _ _ _ _ _ x states := states.map fun row => row.map fun s =>
    .word (2 * s.toInt?.getD 0 + (x.head?.bind Scalar.toInt?).getD 0)
  map_length_next _ _ _ _ _ _ _ := by simp
  filler := .word 0

theorem ignores_doubling (names : List String) : doubling.Ignores names :=
  fun _ _ _ _ => rfl

end StepFunction

end Dataflow
