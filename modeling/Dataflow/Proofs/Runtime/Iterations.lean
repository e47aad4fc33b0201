import Dataflow.Proofs.Runtime.Computing
import Dataflow.Proofs.Runtime.Recurrence

/-!
# Iterations of a loop

How often a loop runs, and what its body computes in every iteration.

## Main definitions

* `Body.previous?` : the results before an iteration.

## Main statements

* `Walk.count_of_isFullUnit`, `Walk.first_of_isFullUnit` : the parts of a walk position by position.
* `Body.partCount?_eq_some`, `Body.eq_of_stepsFrom?` : the number of iterations.
* `Body.forall₂_of_iterate?` : the results of an iteration.
-/

namespace Dataflow

/-! ### Walks position by position -/

namespace Walk

variable {w : Walk} {n k : Nat}

theorem isFullUnit_iff : w.isFullUnit = true ↔ w.partSize = 1 ∧
    ((w.stride = 1 ∧ w.start = 0 ∧ w.stop = -1) ∨ (w.stride = -1 ∧ w.start = -1 ∧ w.stop = 0)) := by
  simp [isFullUnit, and_assoc]

theorem count_of_isFullUnit (h : w.isFullUnit = true) : w.count n = n := by
  obtain ⟨hsize, ⟨-, hstart, hstop⟩ | ⟨-, hstart, hstop⟩⟩ := isFullUnit_iff.1 h
  all_goals
    simp only [count, bound, hsize, hstart, hstop, Int.reduceNeg, Int.reduceLT, if_true, if_false,
      Int.toNat_one, Nat.div_one]
    omega

theorem first_of_isFullUnit (h : w.isFullUnit = true) :
    w.first n k = visit (decide (w.stride < 0)) n k := by
  obtain ⟨hsize, ⟨hstride, hstart, -⟩ | ⟨hstride, hstart, -⟩⟩ := isFullUnit_iff.1 h
  · simp [first, visit, bound, hsize, hstart, hstride]
  · simp [first, visit, bound, hsize, hstart, hstride]
    omega

end Walk

/-- Layers laid out along a new axis, the first one at the front or at the back. -/
theorem Grid.concat?_layers {back : Bool} {n axis : Nat} {shape : List Nat} {layers : Nat → Grid}
    {t : Grid} (hshape : ∀ k < n, (layers k).shape = shape) (h : axis ≤ shape.length)
    (ht : concat? axis (if back then ((List.range n).map fun k => (layers k).insertAxis axis).reverse
      else (List.range n).map fun k => (layers k).insertAxis axis) = some t) {k : Nat} (hk : k < n) :
    t.shape = shape.insertIdx axis n ∧ ∀ index, List.Forall₂ (· < ·) index shape →
      t.entry (index.insertIdx axis (visit back n k)) = (layers k).entry index := by
  set parts := if back then ((List.range n).map layers).reverse else (List.range n).map layers
    with hpartsDef
  have hmap : (if back then ((List.range n).map fun k => (layers k).insertAxis axis).reverse
      else (List.range n).map fun k => (layers k).insertAxis axis) =
        parts.map (·.insertAxis axis) := by
    rw [hpartsDef]
    split
    · rw [List.map_reverse, List.map_map]
      rfl
    · rw [List.map_map]
      rfl
  have hlen : parts.length = n := by
    rw [hpartsDef]
    split <;> simp
  have hmem : ∀ u ∈ parts, u.shape = shape := by
    intro u hu
    have hu' : u ∈ (List.range n).map layers := by
      rw [hpartsDef] at hu
      split at hu
      · exact List.mem_reverse.1 hu
      · exact hu
    obtain ⟨j, hj, rfl⟩ := List.mem_map.1 hu'
    exact hshape j (List.mem_range.1 hj)
  have hget : parts[visit back n k]? = some (layers k) := by
    rw [hpartsDef, visit]
    cases back with
    | false => simp [hk]
    | true =>
      have hlt : n - 1 - k < n := by omega
      have hback : n - 1 - (n - 1 - k) = k := by omega
      rw [if_pos rfl, if_pos rfl, List.getElem?_reverse (by simpa using hlt), List.length_map,
        List.length_range, hback, List.getElem?_map, List.getElem?_range hk]
      rfl
  obtain ⟨t', ht', htshape, hentry⟩ := @concat?_insertAxis _ _ parts
    (List.ne_nil_of_length_pos (by omega)) hmem h
  rw [hmap, ht', Option.some.injEq] at ht
  subst ht
  exact ⟨hlen ▸ htshape, fun index hindex => hentry _ _ index hget hindex⟩

namespace Body

variable {I : Interpretation} {f : Evaluator} {body : Body} {counter : Option Value}
  {operands results : List Grid} {k n input param : Nat} {w : Walk}

/-! ### Results of iterations -/

/-- The results before iteration number `k`. -/
def previous? (f : Evaluator) (body : Body) (counter : Option Value) (operands : List Grid) :
    (k : Nat) → Option (List Grid)
  | 0 => none
  | k + 1 => body.iterate? f counter operands k

theorem forall₂_of_iterate? {bound : Nat}
    (h : body.iterate? (Graph.eval I bound) counter operands k = some results) :
    List.Forall₂ (body.graph.Computes I (body.environment counter operands
      (body.previous? (Graph.eval I bound) counter operands k) k)) body.graph.outputs results := by
  cases k with
  | zero => exact Graph.forall₂_of_mapM_eval h
  | succ k =>
    obtain ⟨before, hbefore, h⟩ := Option.bind_eq_some_iff.1 h
    rw [previous?, hbefore]
    exact Graph.forall₂_of_mapM_eval h

/-- There are results of the iterations before an iteration that has results. -/
theorem exists_iterate?_of_le {j : Nat} (h : body.iterate? f counter operands k = some results)
    (hj : j ≤ k) : ∃ before, body.iterate? f counter operands j = some before := by
  induction hj generalizing results with
  | refl => exact ⟨results, h⟩
  | step _ ih =>
    obtain ⟨before, hbefore, -⟩ := Option.bind_eq_some_iff.1 h
    exact ih hbefore

/-- An output has a tensor only after the last one of some iterations. -/
theorem exists_iterate?_of_outputValue? {steps : Nat} {d : OutputMap} {t : Grid}
    (h : body.outputValue? f counter operands steps d = some t) :
    0 < steps ∧ ∃ last, body.iterate? f counter operands (steps - 1) = some last := by
  cases d with
  | last r output =>
    obtain ⟨_, hpos, h⟩ := Option.bind_eq_some_iff.1 h
    rw [Option.guard_eq_some'] at hpos
    obtain ⟨last, hlast, -⟩ := Option.bind_eq_some_iff.1 h
    exact ⟨hpos, last, hlast⟩
  | concat r output w =>
    obtain ⟨parts, hparts, h⟩ := Option.bind_eq_some_iff.1 h
    obtain ⟨first, hfirst, -⟩ := Option.bind_eq_some_iff.1 h
    have hall := mapM_eq_some_iff.1 hparts
    have hpos : 0 < steps := by
      rw [← List.length_range (n := steps), hall.length_eq]
      exact List.length_pos_of_mem (List.mem_of_head? hfirst)
    obtain ⟨_, -, hbind⟩ := exists_of_forall₂_left hall
      (List.getElem?_range (Nat.sub_lt hpos Nat.one_pos))
    obtain ⟨last, hlast, -⟩ := Option.bind_eq_some_iff.1 hbind
    exact ⟨hpos, last, hlast⟩

/-! ### The number of iterations -/

/-- The sliced inputs have the same number of parts. -/
theorem partCount?_eq_some {parts : Option Nat} (h : body.partCount? operands = some parts)
    (hm : .sliced input param w ∈ body.inputs) :
    ∃ t axis, operands[input]? = some t ∧
      (normalizeAxis w.axis t.shape.length).toOption = some axis ∧
        parts = some (w.count (t.lengthAt axis)) := by
  obtain ⟨counts, hcounts, h⟩ := Option.bind_eq_some_iff.1 h
  have hall := mapM_eq_some_iff.1 hcounts
  obtain ⟨n, hcount, hone⟩ := exists_mem_of_forall₂ hall (List.mem_filterMap.2 ⟨_, hm, rfl⟩)
  obtain ⟨t, ht, hone⟩ := Option.bind_eq_some_iff.1 hone
  obtain ⟨axis, haxis, hone⟩ := Option.bind_eq_some_iff.1 hone
  obtain rfl := Option.some.inj hone
  refine ⟨t, axis, ht, haxis, ?_⟩
  split at h
  · simp at hcount
  · next first rest =>
    obtain ⟨_, hsame, h⟩ := Option.bind_eq_some_iff.1 h
    rw [Option.guard_eq_some', List.all_eq_true] at hsame
    obtain hfirst | hrest := List.mem_cons.1 hcount
    · rw [hfirst]
      exact (Option.some.inj h).symm
    · rw [of_decide_eq_true (hsame _ hrest)]
      exact (Option.some.inj h).symm

/-- A loop whose condition stays true runs up to its limit. -/
theorem eq_of_stepsFrom? {condition bound : Nat} {limit : Option Nat}
    (hflag : ∀ k results, body.iterate? f counter operands k = some results →
      ∃ t, results[condition]? = some t ∧ t.ints? = some [1])
    (h : body.stepsFrom? f counter condition operands limit bound k = some n) : limit = some n := by
  induction bound generalizing k with
  | zero => simp [stepsFrom?] at h
  | succ bound ih =>
    unfold stepsFrom? at h
    split at h
    · next hlimit => exact hlimit.trans h
    · obtain ⟨results, hresults, h⟩ := Option.bind_eq_some_iff.1 h
      obtain ⟨t, ht, hints⟩ := hflag k results hresults
      simp only [ht, hints, Option.bind_eq_bind, Option.bind_some, List.head?_cons] at h
      exact ih h

/-- A condition that is true at first leaves the limit to the trip count and to the parts of the
sliced inputs. -/
theorem limit?_eq_some {limit : Option Nat} {t s : Grid} {trip : Int} {parts : Nat}
    (h : body.limit? operands = some limit) (ht : operands[0]? = some t)
    (hs : operands[1]? = some s) (htrip : t.ints? = some [trip]) (hstart : s.ints? = some [1])
    (hparts : ∀ p, body.partCount? operands = some p → p = some parts) :
    limit = some (if trip < 0 then parts else min trip.toNat parts) := by
  obtain ⟨p, hp, h⟩ := Option.bind_eq_some_iff.1 h
  obtain rfl := hparts p hp
  simp only [ht, hs, htrip, hstart, Option.bind_eq_bind, Option.bind_some, List.head?_cons] at h
  rw [if_neg (by decide)] at h
  split at h
  · next hneg =>
    rw [if_pos hneg]
    exact (Option.some.inj h).symm
  · next hneg =>
    rw [if_neg hneg]
    exact (Option.some.inj h).symm

end Body

end Dataflow
