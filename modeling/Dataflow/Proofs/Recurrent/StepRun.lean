import Dataflow.Proofs.Recurrent.LoopPlan
import Dataflow.Proofs.Runtime.Computing
import Dataflow.Proofs.Runtime.Layouts
import Dataflow.Proofs.Runtime.Operations

/-!
# What the body of a loop computes

One iteration of a loop that runs a cell: the node before the cell drops the time axis of one part
of the input, the cell makes a step, and the node behind it puts the time axis back.

## Main definitions

* `Graph.Determined` : the reshapes of a graph leave at most one length open.

## Main statements

* `Graph.eq_of_dropsAxis`, `Graph.eq_of_insertsAxis` : the nodes around the cell.
* `CellStep.exists_cell?` : the cell.
-/

namespace Dataflow

namespace Graph

/-- The declared results of the reshapes of a graph leave at most one dimension open. -/
def Determined (g : Graph Body) : Prop :=
  ∀ id n, g.live? id = some n → n.op = .reshape → ∀ l ∈ n.outputs, l.shape.dims.count .unknown ≤ 1

variable {g : Graph Body} {I : Interpretation} {F : StepFunction} {ρ : Environment}
  {n : Node Body} {v a : Value} {axis i : Nat} {r s u : Grid}

theorem exists_of_listsAxis (h : listsAxis g n axis = true) (hin : n.inputs = [v, a]) :
    ∃ c, g.constantInts? a = some [c] ∧ (normalizeAxis c 3).toOption = some axis := by
  rw [listsAxis, hin] at h
  split at h
  · next c hc => exact ⟨c, hc, beq_iff_eq.1 h⟩
  · simp at h

/-- A node that works on a tensor and on a list of integers has a single result. -/
theorem exists_of_ints {f : Grid → List Int → Option Grid} (hn : g.live? n.id = some n)
    (hop : n.op.isOrdinary = true) (hin : n.inputs = [v, a])
    (hI : ∀ s t, I n.op n.attributes [s, t] = do return [← f s (← t.ints?)])
    (hr : g.Computes I ρ (n.output i) r) :
    ∃ l s t words, n.outputs[0]? = some l ∧ l.admits r = true ∧ g.Computes I ρ v s ∧
      g.Computes I ρ a t ∧ t.ints? = some words ∧ f s words = some r := by
  obtain ⟨l, operands, results, hl, hadmits, hoperands, hresults, hget⟩ :=
    (computes_iff_of_ordinary (v := n.output i) hn hop).1 hr
  rw [hin] at hoperands
  simp only [List.forall₂_cons_left_iff, List.forall₂_nil_left_iff] at hoperands
  obtain ⟨s, _, hs, ⟨t, _, ht, rfl, rfl⟩, rfl⟩ := hoperands
  rw [hI] at hresults
  obtain ⟨words, hwords, hresults⟩ := Option.bind_eq_some_iff.1 hresults
  obtain ⟨w, hw, hresults⟩ := Option.bind_eq_some_iff.1 hresults
  obtain rfl := Option.some.inj hresults
  obtain ⟨hi, rfl⟩ := List.getElem?_eq_some_iff.1 hget
  obtain rfl : i = 0 := Nat.lt_one_iff.1 hi
  exact ⟨l, s, t, words, hl, hadmits, hs, ht, hwords, hw⟩

/-- Tensors with the same elements are equal when they fit dimensions of which at most one is
open. -/
theorem eq_of_entries_eq {dims : List Dim}
    (hr : List.Forall₂ (fun d n => Dim.admits d n = true) dims r.shape)
    (hu : List.Forall₂ (fun d n => Dim.admits d n = true) dims u.shape)
    (hcount : dims.count .unknown ≤ 1) (hzero : 0 ∉ u.shape) (hentries : r.entries = u.entries) :
    r = u := by
  have hnumel : numel u.shape = numel r.shape := by
    rw [← u.length_entries, ← r.length_entries, hentries]
  have hshape := Layout.eq_of_numel_eq hu hr hcount hnumel hzero
  obtain ⟨shape, entries, hlen⟩ := r
  obtain ⟨shape', entries', hlen'⟩ := u
  simp only at hshape hentries
  simp [hshape, hentries]

section Nodes

variable (hI : I.Follows F) (hdet : g.Determined) (hn : g.live? n.id = some n)
  (hin : n.inputs = [v, a]) (hr : g.Computes I ρ (n.output i) r)
include hI hdet hn hin hr

theorem exists_of_reshape (hop : n.op = .reshape) :
    ∃ l s, n.outputs[0]? = some l ∧ l.admits r = true ∧ g.Computes I ρ v s ∧
      r.entries = s.entries ∧ l.shape.dims.count .unknown ≤ 1 := by
  obtain ⟨l, s, t, words, hl, hadmits, hs, -, -, hreshape⟩ := exists_of_ints hn (by rw [hop]; rfl)
    hin (by rw [hop]; exact hI.reshape n.attributes) hr
  obtain ⟨lengths, -, hreshape⟩ := Option.bind_eq_some_iff.1 hreshape
  exact ⟨l, s, hl, hadmits, hs, (Grid.withShape?_eq_some.1 hreshape).2,
    hdet n.id n hn hop l (List.mem_of_getElem? hl)⟩

/-- A node that drops an axis of length one. -/
theorem eq_of_dropsAxis (hd : dropsAxis g n axis = true) :
    ∃ s, g.Computes I ρ v s ∧ ∀ u : Grid, u.shape.length = 2 → axis ≤ 2 → 0 ∉ u.shape →
      s = u.insertAxis axis → r = u := by
  unfold dropsAxis at hd
  split at hd
  · next hop =>
    obtain ⟨c, hc, haxis⟩ := exists_of_listsAxis hd hin
    obtain ⟨l, s, t, words, -, -, hs, ht, hwords, hsqueeze⟩ := exists_of_ints hn (by rw [hop]; rfl)
      hin (by rw [hop]; exact fun s t => hI.squeeze n.attributes s t []) hr
    refine ⟨s, hs, fun u hrank hle _ hsu => ?_⟩
    obtain rfl := Option.some.inj (hwords.symm.trans (ht.ints?_eq hc))
    have hlen : s.shape.length = 3 := by
      rw [hsu, Grid.shape_insertAxis, List.length_insertIdx_of_le_length (by omega), hrank]
    rw [Grid.squeeze?_one (hlen ▸ haxis), hsu, Grid.dropAxis?_insertAxis (by omega)] at hsqueeze
    exact (Option.some.inj hsqueeze).symm
  · next hop =>
    obtain ⟨l, s, hl, hadmits, hs, hentries, hcount⟩ := exists_of_reshape hI hdet hn hin hr hop
    refine ⟨s, hs, fun u _ _ hzero hsu => ?_⟩
    split at hd
    · next input output hinput houtput =>
      rw [Bool.and_eq_true, beq_iff_eq, beq_iff_eq] at hd
      obtain rfl := Option.some.inj (hl.symm.trans houtput)
      rw [hin] at hinput
      have hu := Layout.forall₂_of_admits_insertAxis (hsu ▸ hs.admits hinput)
      refine eq_of_entries_eq (Layout.admits_iff.1 hadmits) ?_ hcount hzero ?_
      · rw [hd.2]
        exact hu
      · rw [hentries, hsu]
        rfl
    · simp at hd
  · simp at hd

/-- A node that inserts an axis of length one. -/
theorem eq_of_insertsAxis (hd : insertsAxis g n axis = true) :
    ∃ s, g.Computes I ρ v s ∧ (s.shape.length = 2 → axis ≤ 2 → 0 ∉ s.shape →
      r = s.insertAxis axis) := by
  unfold insertsAxis at hd
  split at hd
  · next hop =>
    obtain ⟨c, hc, haxis⟩ := exists_of_listsAxis hd hin
    obtain ⟨l, s, t, words, -, -, hs, ht, hwords, hunsqueeze⟩ := exists_of_ints hn
      (by rw [hop]; rfl) hin (by rw [hop]; exact hI.unsqueeze n.attributes) hr
    refine ⟨s, hs, fun hrank _ _ => ?_⟩
    obtain rfl := Option.some.inj (hwords.symm.trans (ht.ints?_eq hc))
    have hlen : s.shape.length + 1 = 3 := by rw [hrank]
    rw [Grid.unsqueeze?_one (hlen ▸ haxis)] at hunsqueeze
    exact (Option.some.inj hunsqueeze).symm
  · next hop =>
    obtain ⟨l, s, hl, hadmits, hs, hentries, hcount⟩ := exists_of_reshape hI hdet hn hin hr hop
    refine ⟨s, hs, fun hrank hle hzero => ?_⟩
    split at hd
    · next input output hinput houtput =>
      rw [beq_iff_eq] at hd
      obtain rfl := Option.some.inj (hl.symm.trans houtput)
      rw [hin] at hinput
      have hu := Layout.forall₂_insertAxis_of_admits (show axis ≤ s.shape.length by omega)
        (hs.admits hinput)
      refine eq_of_entries_eq (Layout.admits_iff.1 hadmits) ?_ hcount ?_ hentries
      · rw [hd]
        exact hu
      · rw [Grid.shape_insertAxis, List.mem_insertIdx (by omega), not_or]
        exact ⟨Nat.zero_ne_one, hzero⟩
    · simp at hd
  · simp at hd

end Nodes

end Graph

namespace CellStep

variable {g : Graph Body} {I : Interpretation} {F : StepFunction} {ρ : Environment} {kind : Cell}
  {step : CellStep} {x w r b o : Grid} {states : List Grid} {s : Nat}

theorem Involved.isOrdinary (hs : step.Involved g kind) : step.cell.op.isOrdinary = true := by
  rw [hs.cell_op]
  cases kind <;> rfl

/-- The cell computes nothing unless its operands are computed. -/
theorem exists_operand (hs : step.Involved g kind) (h : g.Computes I ρ (step.cell.output s) o)
    {i : Nat} {v : Value} (hv : step.cell.inputs[i]? = some v) : ∃ t, g.Computes I ρ v t := by
  obtain ⟨_, operands, _, -, -, hoperands, -⟩ :=
    (Graph.computes_iff_of_ordinary (v := step.cell.output s) hs.cell hs.isOrdinary).1 h
  obtain ⟨t, -, ht⟩ := exists_of_forall₂_left hoperands hv
  exact ⟨t, ht⟩

/-- What the cell computes, when its operands are known. -/
theorem exists_cell? (hI : I.Follows F) (hs : step.Involved g kind)
    (hx : ∀ i t, g.Computes I ρ (step.squeeze.output i) t → t = x)
    (hlen : states.length = kind.stateCount)
    (hstates : ∀ j v t, j < kind.stateCount → step.cell.inputs[1 + j]? = some v →
      g.Computes I ρ v t → states[j]? = some t)
    (hweights : ∀ j v t, step.cell.inputs[1 + kind.stateCount + j]? = some v →
      g.Computes I ρ v t → [w, r, b][j]? = some t)
    (h : g.Computes I ρ (step.cell.output s) o) :
    ∃ outs, F.cell? kind step.cell.attributes x states w r b = some outs ∧ outs[s]? = some o := by
  obtain ⟨l, operands, results, -, -, hoperands, hresults, hget⟩ :=
    (Graph.computes_iff_of_ordinary (v := step.cell.output s) hs.cell hs.isOrdinary).1 h
  obtain ⟨i, rest, hin, hrest⟩ := hs.cell_inputs
  rw [hin] at hoperands
  obtain ⟨x', ts, hx', hts, rfl⟩ := List.forall₂_cons_left_iff.1 hoperands
  obtain rfl := hx i x' hx'
  have hlen' : ts.length = kind.stateCount + 3 := hts.length_eq.symm.trans hrest
  -- The operands behind the first one are the states and then the weights.
  have hsplit : ts = states ++ [w, r, b] := by
    refine List.ext_getElem? fun j => ?_
    cases htj : ts[j]? with
    | none =>
      have hge := List.getElem?_eq_none_iff.1 htj
      exact (List.getElem?_eq_none (by simp; omega)).symm
    | some t =>
      obtain ⟨v, hv, ht⟩ := exists_of_forall₂_right hts htj
      have hinput : step.cell.inputs[1 + j]? = some v := by
        rw [hin, Nat.add_comm, List.getElem?_cons_succ, hv]
      by_cases hj : j < kind.stateCount
      · rw [List.getElem?_append_left (by omega), hstates j v t hj hinput ht]
      · obtain ⟨k, rfl⟩ := Nat.exists_eq_add_of_le (Nat.le_of_not_lt hj)
        rw [← Nat.add_assoc] at hinput
        rw [← hlen, List.getElem?_append_right (by omega), Nat.add_sub_cancel_left,
          hweights k v t hinput ht]
  rw [hs.cell_op, hsplit, ← List.cons_append, hI.cell _ _ _ _ _ _ _ hlen] at hresults
  exact ⟨results, hresults, hget⟩

end CellStep

end Dataflow
