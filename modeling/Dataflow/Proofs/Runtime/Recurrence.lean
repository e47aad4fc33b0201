import Dataflow.Attribute
import Dataflow.Proofs.Runtime.Reshaping
import Dataflow.Recurrent.Cell
import Mathlib.Data.Option.Basic

/-!
# Recurrent cells and sequences at run time

A recurrent cell works on a batch: every entry of the batch has a row of input and a row for every
state, and the cell computes the next states from them, for each entry by itself.  A sequence
operation runs a cell over the positions of its input, in one or two directions, for every entry of
the batch as many positions as the entry has.

## Main definitions

* `StepFunction` : one step of every kind of cell, for one entry of the batch.
* `statesAfter` : the states after some steps.
* `StepFunction.cell?`, `StepFunction.sequence?` : the two operations.
* `StepFunction.Batched` : operands of a sequence operation that fit together.

## Main statements

* `StepFunction.sequence?_eq_some_iff` : when a sequence operation does its work.
* `StepFunction.sequence?_of_cells` : a sequence operation does what as many applications of the
  cell do.
-/

namespace Dataflow

/-- One step of every kind of cell for one entry of the batch: the next states, from the attributes,
the weights of the input and of the hidden state, the bias, a row of input, and the states before.
-/
structure StepFunction where
  next : Cell → (String → Option Attribute) → (w r b : Grid) → (x : List Scalar) →
    (states : List (List Scalar)) → List (List Scalar)
  map_length_next : ∀ kind a w r b x states,
    (next kind a w r b x states).map List.length = states.map List.length
  /-- What the result of a sequence operation holds after the end of a sequence. -/
  filler : Scalar

/-- The states after some steps that read the rows of `x`. -/
def statesAfter (next : List Scalar → List (List Scalar) → List (List Scalar))
    (x : Nat → List Scalar) (states : List (List Scalar)) : Nat → List (List Scalar)
  | 0 => states
  | k + 1 => next (x k) (statesAfter next x states k)

/-- The position that step number `k` visits in a sequence. -/
def visit (backward : Bool) (length k : Nat) : Nat :=
  if backward then length - 1 - k else k

/-- Whether a sequence operation with these attributes walks backward in a direction. -/
def isBackward (a : Attributes) (direction : Nat) : Bool :=
  match a.get? "direction" with
  | some (.str s) => s == "reverse" || (s == "bidirectional" && direction == 1)
  | _ => false

namespace StepFunction

/-- The steps do not depend on the named attributes. -/
def Ignores (F : StepFunction) (names : List String) : Prop :=
  ∀ kind a a', (∀ name ∉ names, a name = a' name) → F.next kind a = F.next kind a'

/-- A cell applied to a batch. -/
def cell? (F : StepFunction) (kind : Cell) (a : Attributes) (x : Grid) (states : List Grid)
    (w r b : Grid) : Option (List Grid) := do
  let [batch, _] := x.shape | none
  let [_, hidden] := r.shape | none
  guard (states.all (·.shape = [batch, hidden]))
  return (List.range kind.stateCount).map fun i =>
    .ofRows [batch] hidden fun index =>
      (F.next kind a.get? w r b (x.row index) (states.map (·.row index))).getD i []

/-- The states of one entry of a batch of sequences, in one direction, after some steps.  The
operands have an axis for the directions. -/
def statesOf (F : StepFunction) (kind : Cell) (a : Attributes) (x : Grid) (states : List Grid)
    (lengths : List Nat) (w r b : Grid) (i d : Nat) : Nat → List (List Scalar) :=
  statesAfter (F.next kind a.get? (w.layer 0 d) (r.layer 0 d) (b.layer 0 d))
    (fun k => x.row [i, visit (isBackward a d) (lengths.getD i 0) k]) (states.map (·.row [i, d]))

/-- The hidden states of all positions: at every position, the one after the step that has visited
it. -/
def hiddenStates (F : StepFunction) (kind : Cell) (a : Attributes) (x : Grid) (states : List Grid)
    (lengths : List Nat) (w r b : Grid) : Grid :=
  .ofRows [x.lengthAt 0, r.lengthAt 0, x.lengthAt 1] (r.lengthAt 2) fun index =>
    match index with
    | [i, d, k] =>
      if k < lengths.getD i 0 then
        (F.statesOf kind a x states lengths w r b i d
          (visit (isBackward a d) (lengths.getD i 0) k + 1)).getD 0 []
      else List.replicate (r.lengthAt 2) F.filler
    | _ => []

/-- A state after the last step. -/
def lastState (F : StepFunction) (kind : Cell) (a : Attributes) (x : Grid) (states : List Grid)
    (lengths : List Nat) (w r b : Grid) (s : Nat) : Grid :=
  .ofRows [x.lengthAt 0, r.lengthAt 0] (r.lengthAt 2) fun index =>
    match index with
    | [i, d] => (F.statesOf kind a x states lengths w r b i d (lengths.getD i 0)).getD s []
    | _ => []

/-- A cell run over a batch of sequences. -/
def sequence? (F : StepFunction) (kind : Cell) (a : Attributes) (x : Grid) (states : List Grid)
    (lengths w r b : Grid) : Option (List Grid) := do
  let [batch, time, _] := x.shape | none
  let [directions, _, hidden] := r.shape | none
  guard (states.all (·.shape = [batch, directions, hidden]))
  let lengths ← Grid.naturals? (← lengths.ints?)
  guard (lengths.length = batch ∧ lengths.all (· ≤ time))
  return F.hiddenStates kind a x states lengths w r b ::
    (List.range kind.stateCount).map (F.lastState kind a x states lengths w r b)

variable {F : StepFunction} {kind : Cell} {a a' : Attributes} {x w r b : Grid}
  {states outs : List Grid}

theorem length_next (F : StepFunction) (kind : Cell) (a : String → Option Attribute) (w r b : Grid)
    (x : List Scalar) (s : List (List Scalar)) : (F.next kind a w r b x s).length = s.length := by
  have h := congrArg List.length (F.map_length_next kind a w r b x s)
  simpa using h

/-- States of one length stay so. -/
theorem length_of_mem_next {at' : String → Option Attribute} {row : List Scalar} {n : Nat}
    {s : List (List Scalar)} (hs : ∀ l ∈ s, l.length = n) {l : List Scalar}
    (hl : l ∈ F.next kind at' w r b row s) : l.length = n := by
  have hmem := List.mem_map_of_mem (f := List.length) hl
  rw [F.map_length_next] at hmem
  obtain ⟨l', hl', heq⟩ := List.mem_map.1 hmem
  rw [← heq, hs l' hl']

theorem length_of_mem_statesAfter {at' : String → Option Attribute} {rows : Nat → List Scalar}
    {n : Nat} {s : List (List Scalar)} (hs : ∀ l ∈ s, l.length = n) (k : Nat) :
    (statesAfter (F.next kind at' w r b) rows s k).length = s.length ∧
      ∀ l ∈ statesAfter (F.next kind at' w r b) rows s k, l.length = n := by
  induction k with
  | zero => exact ⟨rfl, hs⟩
  | succ k ih => exact ⟨(F.length_next ..).trans ih.1, fun l => length_of_mem_next ih.2⟩

/-- Tensors given by rows that are taken out of lists have these lists as their rows. -/
theorem map_row_ofRows {lead index : List Nat} {f : List Nat → List (List Scalar)} {count n : Nat}
    (h : List.Forall₂ (· < ·) index lead) (hcount : (f index).length = count)
    (hf : ∀ l ∈ f index, l.length = n) :
    ((List.range count).map fun i => Grid.ofRows lead n fun index => (f index).getD i []).map
      (·.row index) = f index := by
  rw [List.map_map]
  refine List.ext_getElem (by simp [hcount]) fun i hi hi' => ?_
  have hget : (f index).getD i [] = (f index)[i] := by simp [hi']
  rw [List.getElem_map, List.getElem_range, Function.comp_apply, Grid.row_ofRows h, hget]
  rw [hget]
  exact hf _ (List.getElem_mem hi')

/-- What a cell needs of its operands, and what it computes for every entry of the batch. -/
theorem cell?_eq_some (hlen : states.length = kind.stateCount)
    (h : F.cell? kind a x states w r b = some outs) :
    ∃ batch width gates hidden, x.shape = [batch, width] ∧ r.shape = [gates, hidden] ∧
      (∀ s ∈ states, s.shape = [batch, hidden]) ∧ outs.length = kind.stateCount ∧
        (∀ s ∈ outs, s.shape = [batch, hidden]) ∧
          ∀ i < batch, outs.map (·.row [i]) =
            F.next kind a.get? w r b (x.row [i]) (states.map (·.row [i])) := by
  simp only [cell?, Option.bind_eq_bind] at h
  split at h
  · next batch width hx =>
    split at h
    · next gates hidden hr =>
      simp only [Option.bind_eq_some_iff, Option.guard_eq_some', List.all_eq_true,
        decide_eq_true_eq, Option.pure_def, Option.some.injEq, exists_const] at h
      obtain ⟨hstates, rfl⟩ := h
      refine ⟨batch, width, gates, hidden, hx, hr, hstates, by simp, ?_, fun i hi => ?_⟩
      · intro s hs
        obtain ⟨j, -, rfl⟩ := List.mem_map.1 hs
        rfl
      · have hrows : ∀ l ∈ states.map (·.row [i]), l.length = hidden := by
          intro l hl
          obtain ⟨s, hs, rfl⟩ := List.mem_map.1 hl
          exact @Grid.length_row s [batch] hidden (hstates s hs) [i]
        refine map_row_ofRows (by simpa using hi) ?_ fun l => length_of_mem_next hrows
        rw [F.length_next, List.length_map, hlen]
    · simp at h
  · simp at h

/-! ### The rows of a sequence -/

/-- The operands of a sequence operation fit together. -/
structure Batched (x : Grid) (states : List Grid) (lengths r : Grid)
    (batch directions time hidden : Nat) (ls : List Nat) : Prop where
  input : ∃ width, x.shape = [batch, time, width]
  weights : ∃ gates, r.shape = [directions, gates, hidden]
  shape : ∀ s ∈ states, s.shape = [batch, directions, hidden]
  naturals : lengths.ints?.bind Grid.naturals? = some ls
  length_eq : ls.length = batch
  le : ∀ n ∈ ls, n ≤ time

/-- A sequence operation does its work when its operands fit together. -/
theorem sequence?_eq_some_iff {lengths : Grid} : F.sequence? kind a x states lengths w r b = some outs ↔
    ∃ batch directions time hidden ls, Batched x states lengths r batch directions time hidden ls ∧
      outs = F.hiddenStates kind a x states ls w r b ::
        (List.range kind.stateCount).map (F.lastState kind a x states ls w r b) := by
  unfold sequence?
  constructor
  · intro h
    split at h
    · next batch time width hx =>
      split at h
      · next directions gates hidden hr =>
        simp only [Option.bind_eq_bind, Option.bind_eq_some_iff, Option.guard_eq_some',
          List.all_eq_true, decide_eq_true_eq, Option.pure_def, Option.some.injEq,
          exists_const] at h
        obtain ⟨hstates, words, hwords, ls, hls, ⟨hlen, hle⟩, rfl⟩ := h
        exact ⟨batch, directions, time, hidden, ls, ⟨⟨width, hx⟩, ⟨gates, hr⟩, hstates,
          Option.bind_eq_some_iff.2 ⟨words, hwords, hls⟩, hlen, hle⟩, rfl⟩
      · simp at h
    · simp at h
  · rintro ⟨batch, directions, time, hidden, ls, ⟨⟨width, hx⟩, ⟨gates, hr⟩, hstates, hnat, hlen, hle⟩,
      rfl⟩
    obtain ⟨words, hwords, hls⟩ := Option.bind_eq_some_iff.1 hnat
    have hall : states.all (·.shape = [batch, directions, hidden]) = true := by
      simpa using hstates
    have hguard : ls.length = batch ∧ ls.all (· ≤ time) = true := ⟨hlen, by simpa using hle⟩
    simp only [hx, hr, hall, hwords, hls, Option.bind_eq_bind, Option.bind_some, guard_true,
      Option.pure_def, (Option.guard_eq_some' ()).2 hguard]

section Batched

variable {lengths : Grid} {batch directions time hidden : Nat} {ls : List Nat}
  (hb : Batched x states lengths r batch directions time hidden ls)
include hb

theorem Batched.shape_hiddenStates (F : StepFunction) (kind : Cell) (a : Attributes) (w b : Grid) :
    (F.hiddenStates kind a x states ls w r b).shape = [batch, directions, time] ++ [hidden] := by
  obtain ⟨width, hx⟩ := hb.input
  obtain ⟨gates, hr⟩ := hb.weights
  simp [hiddenStates, Grid.lengthAt, hx, hr]

theorem Batched.shape_lastState (F : StepFunction) (kind : Cell) (a : Attributes) (w b : Grid)
    (s : Nat) : (F.lastState kind a x states ls w r b s).shape = [batch, directions] ++ [hidden] := by
  obtain ⟨width, hx⟩ := hb.input
  obtain ⟨gates, hr⟩ := hb.weights
  simp [lastState, Grid.lengthAt, hx, hr]

/-- All states of one entry of the batch have as many elements as the hidden state. -/
theorem Batched.length_statesOf (F : StepFunction) (kind : Cell) (a : Attributes) (w b : Grid)
    (i d k : Nat) : (F.statesOf kind a x states ls w r b i d k).length = states.length ∧
      ∀ l ∈ F.statesOf kind a x states ls w r b i d k, l.length = hidden := by
  have hrows : ∀ l ∈ states.map (·.row [i, d]), l.length = hidden := by
    intro l hl
    obtain ⟨s, hs, rfl⟩ := List.mem_map.1 hl
    exact @Grid.length_row s [batch, directions] hidden (hb.shape s hs) [i, d]
  have h := @length_of_mem_statesAfter F kind (w.layer 0 d) (r.layer 0 d) (b.layer 0 d) a.get?
    (fun k => x.row [i, visit (isBackward a d) (ls.getD i 0) k]) hidden _ hrows k
  rwa [List.length_map] at h

theorem Batched.length_getD (F : StepFunction) (kind : Cell) (a : Attributes) (w b : Grid)
    (i d k : Nat) {s : Nat} (hs : s < states.length) :
    ((F.statesOf kind a x states ls w r b i d k).getD s []).length = hidden := by
  obtain ⟨hlen, hrows⟩ := hb.length_statesOf F kind a w b i d k
  rw [List.getD_eq_getElem?_getD, List.getElem?_eq_getElem (hlen.symm ▸ hs)]
  exact hrows _ (List.getElem_mem _)

/-- A row of the hidden states. -/
theorem Batched.row_hiddenStates (F : StepFunction) (kind : Cell) (a : Attributes) (w b : Grid)
    (hlen : 0 < states.length) {i d k : Nat} (hi : i < batch) (hd : d < directions) (hk : k < time) :
    (F.hiddenStates kind a x states ls w r b).row [i, d, k] =
      if k < ls.getD i 0 then
        (F.statesOf kind a x states ls w r b i d
          (visit (isBackward a d) (ls.getD i 0) k + 1)).getD 0 []
      else List.replicate hidden F.filler := by
  obtain ⟨width, hx⟩ := hb.input
  obtain ⟨gates, hr⟩ := hb.weights
  have hhidden : r.lengthAt 2 = hidden := by simp [Grid.lengthAt, hr]
  rw [hiddenStates, Grid.row_ofRows, hhidden]
  · simp [Grid.lengthAt, hx, hr, hi, hd, hk]
  · dsimp only
    rw [hhidden]
    split
    · exact hb.length_getD F kind a w b i d _ hlen
    · exact List.length_replicate

/-- A row of a last state. -/
theorem Batched.row_lastState (F : StepFunction) (kind : Cell) (a : Attributes) (w b : Grid)
    {s i d : Nat} (hs : s < states.length) (hi : i < batch) (hd : d < directions) :
    (F.lastState kind a x states ls w r b s).row [i, d] =
      (F.statesOf kind a x states ls w r b i d (ls.getD i 0)).getD s [] := by
  obtain ⟨width, hx⟩ := hb.input
  obtain ⟨gates, hr⟩ := hb.weights
  rw [lastState, Grid.row_ofRows]
  · simp [Grid.lengthAt, hx, hr, hi, hd]
  · dsimp only
    rw [hb.length_getD F kind a w b i d _ hs]
    simp [Grid.lengthAt, hr]

end Batched

/-! ### One step after the other -/

theorem visit_lt {backward : Bool} {length k : Nat} (h : k < length) :
    visit backward length k < length := by
  unfold visit
  split <;> omega

theorem visit_visit {backward : Bool} {length k : Nat} (h : k < length) :
    visit backward length (visit backward length k) = k := by
  unfold visit
  split <;> omega

theorem statesAfter_congr {next : List Scalar → List (List Scalar) → List (List Scalar)}
    {x x' : Nat → List Scalar} {s : List (List Scalar)} {k : Nat} (h : ∀ j < k, x j = x' j) :
    statesAfter next x s k = statesAfter next x' s k := by
  induction k with
  | zero => rfl
  | succ k ih =>
    rw [statesAfter, statesAfter, h k (Nat.lt_succ_self k), ih fun j hj => h j (Nat.lt_succ_of_lt hj)]

variable {xs : Nat → Grid} {hs : Nat → List Grid} {steps batch hidden : Nat}

theorem stateCount_pos (kind : Cell) : 0 < kind.stateCount := by
  cases kind <;> decide

/-- A cell applied again and again treats every entry of the batch by itself. -/
theorem states_of_cells (hlen : (hs 0).length = kind.stateCount)
    (hshape : ∀ s ∈ hs 0, s.shape = [batch, hidden])
    (hcells : ∀ k < steps, F.cell? kind a (xs k) (hs k) w r b = some (hs (k + 1)))
    {k : Nat} (hk : k ≤ steps) :
    (hs k).length = kind.stateCount ∧ (∀ s ∈ hs k, s.shape = [batch, hidden]) ∧
      ∀ i < batch, (hs k).map (·.row [i]) =
        statesAfter (F.next kind a.get? w r b) (fun k => (xs k).row [i])
          ((hs 0).map (·.row [i])) k := by
  induction k with
  | zero => exact ⟨hlen, hshape, fun i _ => rfl⟩
  | succ k ih =>
    obtain ⟨hlenk, hshapek, hrows⟩ := ih (Nat.le_of_succ_le hk)
    obtain ⟨batch', width, gates, hidden', -, -, hstates, hlen', hshape', hrows'⟩ :=
      cell?_eq_some hlenk (hcells k hk)
    obtain ⟨s, hs'⟩ := List.exists_mem_of_length_pos (hlenk ▸ stateCount_pos kind)
    obtain ⟨rfl, rfl⟩ : batch' = batch ∧ hidden' = hidden := by
      simpa using (hstates s hs').symm.trans (hshapek s hs')
    refine ⟨hlen', hshape', fun i hi => ?_⟩
    rw [hrows' i hi, hrows i hi, statesAfter]

/-- The hidden states that a cell has computed, each at the position that its step has visited. -/
def resultOf (back : Bool) (steps hidden batch : Nat) (hs : Nat → List Grid) : Grid :=
  .ofRows [batch, steps] hidden fun index =>
    match index with
    | [i, k] => ((hs (visit back steps k + 1)).map (·.row [i])).getD 0 []
    | _ => []

/-- **A sequence operation applies its cell step by step.** -/
theorem sequence?_of_cells {back : Bool} {seq : Grid} {width gates : Nat}
    (hlen : (hs 0).length = kind.stateCount)
    (hshape : ∀ s ∈ hs 0, s.shape = [batch, hidden]) (hr : r.shape = [gates, hidden])
    (hcells : ∀ k < steps, F.cell? kind a (xs k) (hs k) w r b = some (hs (k + 1)))
    (hseq : seq.shape = [batch, steps, width])
    (hrow : ∀ k < steps, ∀ i < batch, seq.row [i, visit back steps k] = (xs k).row [i])
    (hback : isBackward a' 0 = back) (hattr : F.next kind a'.get? = F.next kind a.get?) :
    ∃ y : Grid, F.sequence? kind a' seq ((hs 0).map (·.insertAxis 1))
        (.vector (List.replicate batch (steps : Int))) (w.insertAxis 0) (r.insertAxis 0)
        (b.insertAxis 0) = some (y.insertAxis 1 :: (hs steps).map (·.insertAxis 1)) ∧
      y.shape = [batch, steps, hidden] ∧
        ∀ k < steps, ∀ s, (hs (k + 1))[0]? = some s → ∀ i < batch,
          y.row [i, visit back steps k] = s.row [i] := by
  have hstates : ∀ k ≤ steps, _ := fun k hk => states_of_cells hlen hshape hcells hk
  set ls := List.replicate batch steps with hls
  set init := (hs 0).map (·.insertAxis 1) with hinit
  have hget : ∀ i < batch, ls.getD i 0 = steps := fun i hi => by simp [hls, hi]
  -- The states of the sequence operation are those that the cell has computed.
  have hafter : ∀ i < batch, ∀ k ≤ steps,
      F.statesOf kind a' seq init ls (w.insertAxis 0) (r.insertAxis 0) (b.insertAxis 0) i 0 k =
        (hs k).map (·.row [i]) := by
    intro i hi k hk
    have hrows : init.map (·.row [i, 0]) = (hs 0).map (·.row [i]) := by
      rw [hinit, List.map_map]
      exact List.map_congr_left fun s hs => @Grid.row_insertAxis s [i] 1 [batch] hidden
        (hshape s hs) (Nat.le_refl _) rfl
    rw [statesOf, hrows, hget i hi, hback, hattr, Grid.layer_insertAxis_zero,
      Grid.layer_insertAxis_zero, Grid.layer_insertAxis_zero, (hstates k hk).2.2 i hi]
    exact statesAfter_congr fun j hj => hrow j (Nat.lt_of_lt_of_le hj hk) i hi
  have hlengths : (Grid.vector (List.replicate batch (steps : Int))).ints? = some (ls.map Int.ofNat) := by
    rw [Grid.ints?_vector, hls, List.map_replicate]
    rfl
  have hbatched : Batched seq init (.vector (List.replicate batch (steps : Int))) (r.insertAxis 0)
      batch 1 steps hidden ls := by
    constructor
    case input => exact ⟨width, hseq⟩
    case weights => exact ⟨gates, by simp [hr]⟩
    case shape =>
      intro t ht
      obtain ⟨s, hs', rfl⟩ := List.mem_map.1 ht
      simp [hshape s hs']
    case naturals => rw [hlengths, Option.bind_some, Grid.naturals?_map]
    case length_eq => exact List.length_replicate
    case le => exact fun n hn => Nat.le_of_eq (List.eq_of_mem_replicate hn)
  have hinitlen : init.length = kind.stateCount := by rw [hinit, List.length_map, hlen]
  -- The row that the hidden state has after the step that visits a position.
  have hfirst : ∀ k < steps, ∀ i < batch,
      (((hs (k + 1)).map (·.row [i])).getD 0 []).length = hidden := by
    intro k hk i hi
    obtain ⟨hlenk, hshapek, -⟩ := hstates (k + 1) hk
    have hpos : 0 < (hs (k + 1)).length := hlenk ▸ stateCount_pos kind
    simp only [List.getD_eq_getElem?_getD, List.getElem?_map, List.getElem?_eq_getElem hpos,
      Option.map_some, Option.getD_some]
    exact @Grid.length_row _ [batch] hidden (hshapek _ (List.getElem_mem hpos)) [i]
  have hy : ∀ k < steps, ∀ i < batch, (resultOf back steps hidden batch hs).row [i, k] =
      ((hs (visit back steps k + 1)).map (·.row [i])).getD 0 [] := fun k hk i hi =>
    Grid.row_ofRows (by simp [hi, hk]) (hfirst _ (visit_lt hk) i hi)
  refine ⟨resultOf back steps hidden batch hs, sequence?_eq_some_iff.2
    ⟨batch, 1, steps, hidden, ls, hbatched, congrArg₂ List.cons ?_ ?_⟩, rfl, ?_⟩
  · refine @Grid.ext_row _ _ [batch, 1, steps] hidden rfl (hbatched.shape_hiddenStates ..)
      fun index hindex => ?_
    simp only [List.forall₂_cons_right_iff, List.forall₂_nil_right_iff] at hindex
    obtain ⟨i, -, hi, ⟨d, -, hd, ⟨k, -, hk, rfl, rfl⟩, rfl⟩, rfl⟩ := hindex
    obtain rfl := Nat.lt_one_iff.1 hd
    have hrow := @Grid.row_insertAxis (resultOf back steps hidden batch hs) [i, k] 1
      [batch, steps] hidden rfl (by simp) rfl
    rw [show [i, 0, k] = [i, k].insertIdx 1 0 from rfl, hrow, hy k hk i hi,
      show [i, k].insertIdx 1 0 = [i, 0, k] from rfl,
      hbatched.row_hiddenStates _ _ _ _ _ (hinitlen ▸ stateCount_pos kind) hi hd hk]
    simp only [hget i hi, hk, if_true, hback, hafter i hi _ (visit_lt hk)]
  · obtain ⟨hlenT, hshapeT, -⟩ := hstates steps (Nat.le_refl _)
    refine List.ext_getElem (by simp [hlenT]) fun s hs' hs'' => ?_
    simp only [List.length_map] at hs'
    rw [List.getElem_map, List.getElem_map, List.getElem_range]
    have hshapes := hshapeT _ (List.getElem_mem hs')
    refine @Grid.ext_row _ _ [batch, 1] hidden (by simp [hshapes]) (hbatched.shape_lastState ..)
      fun index hindex => ?_
    simp only [List.forall₂_cons_right_iff, List.forall₂_nil_right_iff] at hindex
    obtain ⟨i, -, hi, ⟨d, -, hd, rfl, rfl⟩, rfl⟩ := hindex
    obtain rfl := Nat.lt_one_iff.1 hd
    have hrow := @Grid.row_insertAxis _ [i] 1 [batch] hidden hshapes (Nat.le_refl _) rfl
    rw [show [i, 0] = [i].insertIdx 1 0 from rfl, hrow, show [i].insertIdx 1 0 = [i, 0] from rfl,
      hbatched.row_lastState _ _ _ _ _ (by rw [hinitlen, ← hlenT]; exact hs') hi hd]
    simp only [hget i hi, hafter i hi _ (Nat.le_refl _)]
    simp [hs']
  · intro k hk s hs' i hi
    rw [hy _ (visit_lt hk) i hi, visit_visit hk]
    simp [hs']

end StepFunction

end Dataflow
