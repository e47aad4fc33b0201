import Dataflow.Proofs.Runtime.Operations
import Mathlib.Data.List.GetD

/-!
# Reversed sequences

A reversal turns around the first positions of every sequence of a batch, as many as the sequence
has, and leaves the positions behind them.  A cell that runs forward over reversed sequences makes
the steps that it makes when it runs backward over the sequences themselves.

## Main definitions

* `Grid.reverse?` : the reversal.
* `Interpretation.Reverses` : the usual meaning of the operation.

## Main statements

* `Grid.row_reverse?` : the rows of a reversed tensor.
* `StepFunction.sequence?_reversed` : a forward run between two reversals is a backward run.
-/

namespace Dataflow

/-- An axis that an attribute may name, counted from the front. -/
def Attributes.axis? (a : Attributes) (name : String) (default : Int) (rank : Nat) : Option Nat :=
  match a.get? name with
  | some (.int axis) => (normalizeAxis axis rank).toOption
  | _ => (normalizeAxis default rank).toOption

theorem modify_append_left {α : Type} {f : α → α} {l rest : List α} {i : Nat} (hi : i < l.length) :
    (l ++ rest).modify i f = l.modify i f ++ rest := by
  induction l generalizing i with
  | nil => simp at hi
  | cons a l ih =>
    cases i with
    | zero => simp
    | succ i => simp [ih (Nat.lt_of_succ_lt_succ hi)]

namespace Grid

variable {t u : Grid} {lengths : List Nat} {lead index : List Nat} {batch time width : Nat}

/-- The index of the element that a reversal moves to an index.  Each entry of the batch has a
length of its own. -/
def reversed (lengths : List Nat) (batch time : Nat) (index : List Nat) : List Nat :=
  let length := lengths.getD (index.getD batch 0) 0
  index.modify time fun p => visit (decide (p < length)) length p

/-- The tensor in which the first positions along the axis `time` are turned around, as many as the
list says for the entry of the axis `batch`. -/
def reverse? (t : Grid) (lengths : List Nat) (batch time : Nat) : Option Grid :=
  if batch < t.shape.length ∧ time < t.shape.length ∧ lengths.length = t.lengthAt batch ∧
      lengths.all (· ≤ t.lengthAt time) then
    some (ofFn t.shape fun index => t.entry (reversed lengths batch time index))
  else none

theorem reversed_append (hbatch : batch < index.length) (htime : time < index.length)
    (rest : List Nat) :
    reversed lengths batch time (index ++ rest) = reversed lengths batch time index ++ rest := by
  unfold reversed
  rw [List.getD_append _ _ _ _ hbatch]
  exact modify_append_left htime

theorem reverse?_eq_some (h : t.reverse? lengths batch time = some u) :
    u.shape = t.shape ∧ lengths.length = t.lengthAt batch ∧ ∀ n ∈ lengths, n ≤ t.lengthAt time := by
  unfold reverse? at h
  split at h
  · next hguard =>
    obtain rfl := Option.some.inj h
    exact ⟨rfl, hguard.2.2.1, by simpa using hguard.2.2.2⟩
  · simp at h

/-- The rows of a reversed tensor are the rows of the tensor, in another order. -/
theorem row_reverse? (h : t.reverse? lengths batch time = some u) (hshape : t.shape = lead ++ [width])
    (hbatch : batch < lead.length) (htime : time < lead.length)
    (hindex : List.Forall₂ (· < ·) index lead) :
    u.row index = t.row (reversed lengths batch time index) := by
  have hushape := (reverse?_eq_some h).1
  unfold reverse? at h
  split at h
  · obtain rfl := Option.some.inj h
    rw [row_eq (hushape.trans hshape), row_eq hshape]
    refine List.map_congr_left fun j hj => ?_
    rw [entry_ofFn, reversed_append (hindex.length_eq ▸ hbatch) (hindex.length_eq ▸ htime)]
    rw [hshape]
    exact forall₂_append_singleton.2 ⟨hindex, List.mem_range.1 hj⟩
  · simp at h

/-- A tensor with these rows is the reversed one. -/
theorem reverse?_of_rows (hshape : t.shape = lead ++ [width]) (hushape : u.shape = lead ++ [width])
    (hbatch : batch < lead.length) (htime : time < lead.length)
    (hlen : lengths.length = lead.getD batch 0) (hle : ∀ n ∈ lengths, n ≤ lead.getD time 0)
    (hrow : ∀ index, List.Forall₂ (· < ·) index lead →
      u.row index = t.row (reversed lengths batch time index)) :
    t.reverse? lengths batch time = some u := by
  have hget : ∀ axis < lead.length, t.lengthAt axis = lead.getD axis 0 := fun axis haxis => by
    rw [lengthAt, hshape, List.getD_append _ _ _ _ haxis]
  have hguard : batch < t.shape.length ∧ time < t.shape.length ∧
      lengths.length = t.lengthAt batch ∧ lengths.all (· ≤ t.lengthAt time) = true := by
    rw [hget batch hbatch, hget time htime, hshape, List.length_append]
    exact ⟨by omega, by omega, hlen, by simpa using hle⟩
  obtain ⟨v, hv⟩ : ∃ v, t.reverse? lengths batch time = some v := ⟨_, if_pos hguard⟩
  rw [hv, Option.some.injEq]
  refine ext_row ((reverse?_eq_some hv).1.trans hshape) hushape fun index hindex => ?_
  rw [row_reverse? hv hshape hbatch htime hindex, hrow index hindex]

/-- An axis of length one between the batch and the time does not matter. -/
theorem reverse?_insertAxis {n m : Nat} (hshape : t.shape = [n, m, width])
    (h : t.reverse? lengths 0 1 = some u) :
    (t.insertAxis 1).reverse? lengths 0 2 = some (u.insertAxis 1) := by
  have hshape : t.shape = [n, m] ++ [width] := hshape
  obtain ⟨hushape, hlen, hle⟩ := reverse?_eq_some h
  rw [hshape] at hushape
  rw [lengthAt, hshape] at hlen hle
  refine @reverse?_of_rows _ _ _ [n, 1, m] _ _ width (by simp [hshape]) (by simp [hushape])
    (by simp) (by simp) (by simpa using hlen) (by simpa using hle) fun index hindex => ?_
  simp only [List.forall₂_cons_right_iff, List.forall₂_nil_right_iff] at hindex
  obtain ⟨i, -, hi, ⟨d, -, hd, ⟨k, -, hk, rfl, rfl⟩, rfl⟩, rfl⟩ := hindex
  obtain rfl := Nat.lt_one_iff.1 hd
  have hrow := @row_insertAxis u [i, k] 1 [n, m] width hushape (by simp) rfl
  have hrow' := @row_insertAxis t (reversed lengths 0 1 [i, k]) 1 [n, m] width hshape (by simp) rfl
  have hback := row_reverse? h hshape (by simp) (by simp)
    (show List.Forall₂ (· < ·) [i, k] [n, m] by simp [hi, hk])
  exact (hrow.trans hback).trans hrow'.symm

end Grid

namespace Interpretation

/-- The operation reverses the sequences along the axes that its attributes name, and the second
operand lists the lengths. -/
def Reverses (I : Interpretation) : Prop :=
  ∀ a t l, I .reverseSequence a [t, l] = do
    return [← t.reverse? (← Grid.naturals? (← l.ints?)) (← a.axis? "batch_axis" 0 t.shape.length)
      (← a.axis? "seq_axis" 1 t.shape.length)]

end Interpretation

namespace StepFunction

/-- The usual meaning of the operations, reversals among them. -/
def reversing (F : StepFunction) : Interpretation
  | .reverseSequence, a, [t, l] => do
    return [← t.reverse? (← Grid.naturals? (← l.ints?)) (← a.axis? "batch_axis" 0 t.shape.length)
      (← a.axis? "seq_axis" 1 t.shape.length)]
  | op, a, ts => F.interpretation op a ts

theorem reverses_reversing (F : StepFunction) : F.reversing.Reverses :=
  fun _ _ _ => rfl

theorem squeezes_reversing (F : StepFunction) : F.reversing.Squeezes :=
  fun _ _ _ _ => rfl

theorem runsSequence_reversing (F : StepFunction) : F.reversing.RunsSequence F .lstm :=
  (follows_interpretation F).sequence .lstm

variable {F : StepFunction} {kind : Cell} {a a' : Attributes} {x x' w r b lengths lengths' : Grid}
  {states outs : List Grid} {ls : List Nat}

/-- The steps of a forward run over reversed sequences are those of a backward run. -/
theorem statesOf_reversed (hback : ∀ d, isBackward a d = false) (hback' : ∀ d, isBackward a' d = true)
    (hnext : F.next kind a'.get? = F.next kind a.get?) {batch time width i d k : Nat}
    (hx : x.shape = [batch, time, width]) (hreverse : x.reverse? ls 0 1 = some x') (hi : i < batch)
    (hk : k ≤ ls.getD i 0) (hle : ls.getD i 0 ≤ time) :
    F.statesOf kind a' x states ls w r b i d k = F.statesOf kind a x' states ls w r b i d k := by
  unfold statesOf
  rw [hnext]
  refine statesAfter_congr fun j hj => ?_
  have hj := Nat.lt_of_lt_of_le hj hk
  have hrow := @Grid.row_reverse? x x' ls [batch, time] [i, j] 0 1 width hreverse hx (by simp)
    (by simp) (by simp [hi, Nat.lt_of_lt_of_le hj hle])
  have hindex : Grid.reversed ls 0 1 [i, j] =
      [i, visit (decide (j < ls.getD i 0)) (ls.getD i 0) j] := rfl
  rw [hback, hback', show visit false (ls.getD i 0) j = j from rfl, hrow, hindex, decide_eq_true hj]

/-- **A forward run between two reversals is a backward run.** -/
theorem sequence?_reversed (hback : ∀ d, isBackward a d = false)
    (hback' : ∀ d, isBackward a' d = true) (hnext : F.next kind a'.get? = F.next kind a.get?)
    (hreverse : x.reverse? ls 0 1 = some x')
    (hlengths : lengths.ints?.bind Grid.naturals? = some ls)
    (hlengths' : lengths'.ints?.bind Grid.naturals? = some ls)
    (hlen : states.length = kind.stateCount)
    (h : F.sequence? kind a x' states lengths w r b = some outs) :
    ∃ y y' last, outs = y :: last ∧ F.sequence? kind a' x states lengths' w r b = some (y' :: last) ∧
      y.shape.length = 4 ∧ y.reverse? ls 0 2 = some y' := by
  obtain ⟨batch, directions, time, hidden, ls', hb, rfl⟩ := sequence?_eq_some_iff.1 h
  obtain rfl : ls' = ls := Option.some.inj (hb.naturals.symm.trans hlengths)
  obtain ⟨width, hx'⟩ := hb.input
  have hx : x.shape = [batch, time, width] := (Grid.reverse?_eq_some hreverse).1 ▸ hx'
  have hb' : Batched x states lengths' r batch directions time hidden ls' :=
    ⟨⟨width, hx⟩, hb.weights, hb.shape, hlengths', hb.length_eq, hb.le⟩
  have hpos : 0 < states.length := hlen ▸ stateCount_pos kind
  have hle : ∀ i < batch, ls'.getD i 0 ≤ time := by
    intro i hi
    rw [List.getD_eq_getElem?_getD, List.getElem?_eq_getElem (hb.length_eq.symm ▸ hi)]
    exact hb.le _ (List.getElem_mem _)
  have hsteps : ∀ i < batch, ∀ d k, k ≤ ls'.getD i 0 →
      F.statesOf kind a' x states ls' w r b i d k = F.statesOf kind a x' states ls' w r b i d k :=
    fun i hi d k hk => statesOf_reversed hback hback' hnext hx hreverse hi hk (hle i hi)
  refine ⟨_, F.hiddenStates kind a' x states ls' w r b, _, rfl, sequence?_eq_some_iff.2
    ⟨batch, directions, time, hidden, ls', hb', congrArg _ ?_⟩,
    congrArg List.length (hb.shape_hiddenStates F kind a w b), ?_⟩
  · refine List.map_congr_left fun s hs => ?_
    rw [List.mem_range, ← hlen] at hs
    refine Grid.ext_row (hb.shape_lastState ..) (hb'.shape_lastState ..) fun index hindex => ?_
    simp only [List.forall₂_cons_right_iff, List.forall₂_nil_right_iff] at hindex
    obtain ⟨i, -, hi, ⟨d, -, hd, rfl, rfl⟩, rfl⟩ := hindex
    rw [hb.row_lastState _ _ _ _ _ hs hi hd, hb'.row_lastState _ _ _ _ _ hs hi hd,
      hsteps i hi d _ (Nat.le_refl _)]
  · refine Grid.reverse?_of_rows (hb.shape_hiddenStates ..) (hb'.shape_hiddenStates ..) (by simp)
      (by simp) hb.length_eq hb.le fun index hindex => ?_
    simp only [List.forall₂_cons_right_iff, List.forall₂_nil_right_iff] at hindex
    obtain ⟨i, -, hi, ⟨d, -, hd, ⟨k, -, hk, rfl, rfl⟩, rfl⟩, rfl⟩ := hindex
    show _ = Grid.row _ [i, d, visit (decide (k < ls'.getD i 0)) (ls'.getD i 0) k]
    by_cases hlt : k < ls'.getD i 0
    · -- The position is visited in either run, in the other order.
      have hvisit := @visit_lt true _ _ hlt
      rw [decide_eq_true hlt, hb'.row_hiddenStates _ _ _ _ _ hpos hi hd hk,
        hb.row_hiddenStates _ _ _ _ _ hpos hi hd (Nat.lt_of_lt_of_le hvisit (hle i hi)), if_pos hlt,
        if_pos hvisit, hback, hback', hsteps i hi d _ hvisit]
      rfl
    · rw [decide_eq_false hlt, hb'.row_hiddenStates _ _ _ _ _ hpos hi hd hk, if_neg hlt,
        show visit false (ls'.getD i 0) k = k from rfl,
        hb.row_hiddenStates _ _ _ _ _ hpos hi hd hk, if_neg hlt]

end StepFunction

end Dataflow
