import Dataflow.Proofs.Runtime.Computing
import Dataflow.Proofs.Runtime.Operations
import Dataflow.Recurrent.Direction

/-!
# Sequence nodes in either direction

What the direction of a node says about the run of its cell, and how the tensors of a node's operands
give those of its results.

## Main statements

* `isBackward_of_forward` and its companions : when a cell walks backward.
* `Graph.Computes.exists_sequence?` : the run behind a result of a sequence node.
* `Graph.Computes.exists_squeezed` : the result without the axis for the directions.
-/

namespace Dataflow

variable {β : Type} {n : Node β} {F : StepFunction} {kind : Cell} {a : Attributes}

theorem Attributes.get?_withDirection (a : Attributes) (direction key : String) :
    (a.withDirection direction).get? key =
      if key = "direction" then some (.str direction) else a.get? key :=
  Attributes.get?_insert a "direction" key _

theorem isBackward_of_forward (h : n.direction = "forward") (d : Nat) :
    isBackward n.attributes d = false := by
  unfold Node.direction Node.str? Node.attribute? at h
  unfold isBackward
  split
  · next s hs =>
    obtain rfl : s = "forward" := by simpa [hs] using h
    rfl
  · rfl

theorem isBackward_of_reverse (h : n.direction = "reverse") (d : Nat) :
    isBackward n.attributes d = true := by
  unfold Node.direction Node.str? Node.attribute? at h
  unfold isBackward
  split
  · next s hs =>
    obtain rfl : s = "reverse" := by simpa [hs] using h
    rfl
  · next hnone =>
    split at h
    · next s hs => exact absurd hs (hnone s)
    · simp at h

theorem isBackward_withDirection_reverse (a : Attributes) (d : Nat) :
    isBackward (a.withDirection "reverse") d = true := by
  rw [isBackward, Attributes.get?_withDirection, if_pos rfl]
  rfl

/-- Of two directions the second one walks backward. -/
theorem isBackward_withDirection_bidirectional (a : Attributes) (d : Nat) :
    isBackward (a.withDirection "bidirectional") d = (d == 1) := by
  rw [isBackward, Attributes.get?_withDirection, if_pos rfl]
  rfl

theorem StepFunction.Ignores.next_withDirection {names : List String} (hF : F.Ignores names)
    (hnames : "direction" ∈ names) (kind : Cell) (a : Attributes) (direction : String) :
    F.next kind (a.withDirection direction).get? = F.next kind a.get? := by
  refine hF kind _ _ fun name hname => ?_
  have hne : name ≠ "direction" := fun heq => hname (heq ▸ hnames)
  rw [Attributes.get?_withDirection, if_neg hne]

namespace Graph

variable {g : Graph Body} {I : Interpretation} {ρ : Environment} {n : Node Body} {id i : Nat}
  {t : Grid} {v x h c l w r b : Value}

/-- A result of a sequence node is one of the results of a run of the cell. -/
theorem Computes.exists_sequence? (ht : g.Computes I ρ ⟨id, i⟩ t) (hI : I.RunsSequence F .lstm)
    (hn : g.live? id = some n) (hop : n.op = .lstmSequence)
    (hin : n.inputs = [x, h, c, l, w, r, b]) :
    ∃ tx th tc tl tw tr tb outs,
      List.Forall₂ (g.Computes I ρ) [x, h, c, l, w, r, b] [tx, th, tc, tl, tw, tr, tb] ∧
        F.sequence? .lstm n.attributes tx [th, tc] tl tw tr tb = some outs ∧ outs[i]? = some t := by
  obtain ⟨_, operands, outs, -, -, hoperands, hI', ht⟩ :=
    (computes_iff_of_ordinary hn (by rw [hop]; rfl)).1 ht
  rw [hin] at hoperands
  have hlen := hoperands.length_eq
  match operands, hlen with
  | [tx, th, tc, tl, tw, tr, tb], _ =>
    refine ⟨tx, th, tc, tl, tw, tr, tb, outs, hoperands, ?_, ht⟩
    rw [← hI n.attributes tx [th, tc] tl tw tr tb rfl, ← hI', hop]
    rfl

/-- What a node has read that drops the axis for the directions. -/
theorem Computes.exists_squeezed (ht : g.Computes I ρ v t) (hI : I.Squeezes)
    (hn : g.live? v.node = some n) (hop : n.op = .squeeze) {y axes : Value} {rest : List Value}
    (hin : n.inputs = y :: axes :: rest) {axis : Int} (haxes : g.constantInts? axes = some [axis])
    (haxis : (normalizeAxis axis 4).toOption = some 1) :
    ∃ u, g.Computes I ρ y u ∧ (u.shape.length = 4 → u.dropAxis? 1 = some t) := by
  obtain ⟨_, operands, results, -, -, hoperands, hresults, ht⟩ :=
    (computes_iff_of_ordinary hn (by rw [hop]; rfl)).1 ht
  rw [hin] at hoperands
  simp only [List.forall₂_cons_left_iff] at hoperands
  obtain ⟨u, _, hu, ⟨b, others, hb, -, rfl⟩, rfl⟩ := hoperands
  refine ⟨u, hu, fun hrank => ?_⟩
  rw [hop, hI, hb.ints?_eq haxes, Option.bind_eq_bind, Option.bind_some,
    Grid.squeeze?_one (by rw [hrank]; exact haxis)] at hresults
  obtain ⟨r, hr, hresults⟩ := Option.bind_eq_some_iff.1 hresults
  obtain rfl := Option.some.inj hresults
  obtain rfl : t = r := List.mem_singleton.1 (List.mem_of_getElem? ht)
  exact hr

end Graph

/-! ### One sequence with three positions -/

/-- The parameters that a sequence node can read: a sequence with three positions, its length, the
initial states, the weights and the bias. -/
def operandSpecs : List (NodeSpec Body) :=
  [[1, 3, 1], [1], [1, 1, 1], [1, 1, 1], [1, 4, 1], [1, 4, 1], [1, 4]].map fun lengths =>
    { op := .parameter, outputs := [.planar (.ofLengths lengths) .f32] }

/-- A sequence node in the given direction that reads the value `x` as its sequence, and the other
parameters. -/
def sequenceSpec (direction : String) (x : Value) : NodeSpec Body where
  op := .lstmSequence
  name := some direction
  inputs := [x, ⟨2, 0⟩, ⟨3, 0⟩, ⟨1, 0⟩, ⟨4, 0⟩, ⟨5, 0⟩, ⟨6, 0⟩]
  outputs := [.planar (.ofLengths [1, 1, 3, 1]) .f32, .planar (.ofLengths [1, 1, 1]) .f32,
    .planar (.ofLengths [1, 1, 1]) .f32]
  attributes := Attributes.empty.insert "direction" (.str direction)

/-- The tensors of the parameters.  The sequence has two positions, and the third one is left
over. -/
def operandTensors : Environment
  | 0 => some ⟨[1, 3, 1], [.word 1, .word 2, .word 3], rfl⟩
  | 1 => some ⟨[1], [.word 2], rfl⟩
  | 2 => some ⟨[1, 1, 1], [.word 5], rfl⟩
  | 3 => some ⟨[1, 1, 1], [.word 7], rfl⟩
  | 4 => some ⟨[1, 4, 1], List.replicate 4 (.word 0), rfl⟩
  | 5 => some ⟨[1, 4, 1], List.replicate 4 (.word 0), rfl⟩
  | 6 => some ⟨[1, 4], List.replicate 4 (.word 0), rfl⟩
  | _ => none

end Dataflow
