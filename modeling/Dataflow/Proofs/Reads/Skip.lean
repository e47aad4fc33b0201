import Dataflow.Proofs.Reads.Builders
import Dataflow.Skip

/-!
# Marking nodes with direct reads

The conditions for a mark look at the length of a list before they read an entry of it directly: the
one dimension of a vector of indices, the one user of a permutation, and the mask of every bound of a
slice.

## Main definitions

* `Graph.isSkippableDirect` : the condition with direct reads.
* `markSkippableDirect` : the pass with these.

## Main statements

* `Graph.isSkippableDirect_eq` : the condition is the same.
* `apply_markSkippableDirect` : so is the pass.
-/

namespace Dataflow

variable {β : Type}

namespace Graph

/-! ### The conditions -/

/-- Whether a list may be as long as an axis. -/
def mayCover : Option Dim → (count : Dim) → Bool
  | some .unknown, _ => true
  | _, .unknown => true
  | some (.known a), .known i => a == i
  | none, .known _ => false

/-- Whether a gather may return its data. -/
def gatherSkippableDirect (g : Graph β) (n : Node β) : Except Error Bool :=
  if n.isFused || !g.keepsElementType n then return false
  else
    match n.inputs[1]? with
    | none => return false
    | some indices =>
      if g.isConstant indices then return false
      else
        match g.inputLayout? n.id 0, g.layout? indices with
        | some data, some index =>
          if index.shape.rank = 1 then
            match (n.int? "axis").bind fun a => (normalizeAxis a data.shape.rank).toOption with
            | none => return false
            | some axis => return mayCover (data.shape.dim? axis) (← readAt index.shape.dims 0)
          else return false
        | _, _ => return false

/-- Whether a permutation may return its input. -/
def permuteSkippableDirect (g : Graph β) (n : Node β) : Except Error Bool :=
  if g.isOutputNode n.id || n.isFused || !g.keepsElementType n then return false
  else if !g.isDynamicNode n.id then return false
  else
    match n.inputs[0]? with
    | none => return false
    | some v =>
      if g.op? v = some .kvCache then return false
      else if (g.userNodes n).length = 1 then do
        return ((g.node? (← readAt (g.userNodes n) 0)).map Node.op) != some .concat
      else return true

/-- Whether an end bound of a slice is masked.  The mask is read if there is one for every bound. -/
def isMaskedDirect (stop stopMask : List Int) (i : Nat) : Except Error Bool := do
  if stop.length = stopMask.length then return (← readAt stopMask i) == 1 else return false

/-- Whether the end bounds of a slice reach the ends of the axes from number `i` on. -/
def reachesEndsDirect (shape : Shape) (stop stopMask : List Int) :
    Nat → List Int → Except Error Bool
  | _, [] => return true
  | i, e :: rest => do
    let masked ← isMaskedDirect stop stopMask i
    let full :=
      match shape.dim? i with
      | some (.known d) => decide (0 ≤ e ∧ d = e.toNat)
      | _ => false
    if masked || full then reachesEndsDirect shape stop stopMask (i + 1) rest else return false

/-- Whether a slice returns its input. -/
def sliceSkippableDirect (g : Graph β) (n : Node β) : Except Error Bool :=
  if g.isOutputNode n.id || n.isFused then return false
  else
    match g.inputLayout? n.id 0, n.outputs[0]? with
    | some input, some output =>
      let list (name : String) : List Int := (n.ints? name).getD []
      let startMask := list "begin_mask"
      if input.format == output.format && input.elementType == output.elementType &&
          !(["new_axis_mask", "shrink_axis_mask", "ellipsis_mask"].any fun m =>
            (list m).contains 1) &&
          ((list "begin").all (· == 0) || (!startMask.isEmpty && startMask.all (· == 1))) &&
          (list "strides").all (· == 1) then
        reachesEndsDirect input.shape (list "end") (list "end_mask") 0 (list "end")
      else return false
    | _, _ => return false

/-- Whether a node may be skipped at run time. -/
def isSkippableDirect (g : Graph β) (n : Node β) : Except Error Bool :=
  match n.op with
  | .gather => g.gatherSkippableDirect n
  | .permute => g.permuteSkippableDirect n
  | .stridedSlice => g.sliceSkippableDirect n
  | _ => return false

/-- Whether a node gets a mark: it may be skipped at run time and is not bound to the processor. -/
def isMarkedDirect (g : Graph β) (n : Node β) : Except Error Bool :=
  if n.kernel = .cpu then return false else g.isSkippableDirect n

/-- Those of the listed nodes that get a mark. -/
def skippableAmong (g : Graph β) : List (Node β) → Except Error (List Nat)
  | [] => return []
  | n :: rest => do
    let marked ← g.isMarkedDirect n
    let ids ← g.skippableAmong rest
    return if marked then n.id :: ids else ids

private theorem ite_ok (b c : Bool) :
    (if b then .ok c else .ok false : Except Error Bool) = .ok (b && c) := by
  cases b <;> rfl

variable (g : Graph β) (n : Node β)

theorem gatherSkippableDirect_eq : g.gatherSkippableDirect n = .ok (g.gatherSkippable n) := by
  unfold gatherSkippableDirect gatherSkippable
  cases n.isFused with
  | true => rfl
  | false =>
    cases g.keepsElementType n with
    | false => rfl
    | true =>
      cases n.inputs[1]? with
      | none => rfl
      | some indices =>
        dsimp only [Bool.not_false, Bool.not_true, Bool.or_false, Bool.true_and]
        cases g.isConstant indices with
        | true => rfl
        | false =>
          cases g.inputLayout? n.id 0 with
          | none => rfl
          | some data =>
            cases g.layout? indices with
            | none => rfl
            | some index =>
              obtain ⟨⟨dims⟩, _, _⟩ := index
              match dims with
              | [] => rfl
              | _ :: _ :: _ => cases n.int? "axis" <;> rfl
              | [count] =>
                cases n.int? "axis" with
                | none => rfl
                | some a =>
                  dsimp only [Option.map_some, Option.bind_some]
                  cases normalizeAxis a data.shape.rank with
                  | error e => rfl
                  | ok axis =>
                    refine congrArg Except.ok ?_
                    dsimp only
                    rcases data.shape.dim? axis with _ | _ | _ <;> cases count <;> rfl

theorem permuteSkippableDirect_eq : g.permuteSkippableDirect n = .ok (g.permuteSkippable n) := by
  unfold permuteSkippableDirect permuteSkippable
  cases g.isOutputNode n.id <;> cases n.isFused <;> cases g.keepsElementType n <;>
    cases g.isDynamicNode n.id <;> try rfl
  cases n.inputs[0]? with
  | none => rfl
  | some v =>
    by_cases hcache : g.op? v = some .kvCache
    · simp [hcache, pure, Except.pure]
    · have hother : (g.op? v != some .kvCache) = true := by simpa using hcache
      dsimp only
      rw [if_neg hcache, hother]
      match g.userNodes n with
      | [] => rfl
      | [user] => rfl
      | _ :: _ :: _ => rfl

theorem isMaskedDirect_eq {stop stopMask : List Int} {i : Nat} (hi : i < stop.length) :
    isMaskedDirect stop stopMask i =
      .ok (stop.length == stopMask.length && stopMask[i]? == some 1) := by
  unfold isMaskedDirect
  by_cases hlen : stop.length = stopMask.length
  · have hread := List.getElem?_eq_getElem (Nat.lt_of_lt_of_eq hi hlen)
    simp [hlen, hread, readAt_of_getElem? hread, bind, Except.bind, pure, Except.pure]
  · simp [hlen, pure, Except.pure]

theorem reachesEndsDirect_eq (shape : Shape) {stop : List Int} (stopMask : List Int) {i : Nat}
    {rest : List Int} (hi : i + rest.length = stop.length) :
    reachesEndsDirect shape stop stopMask i rest =
      .ok (reachesEnds shape
        (fun i => stop.length == stopMask.length && stopMask[i]? == some 1) i rest) := by
  induction rest generalizing i with
  | nil => rfl
  | cons e rest ih =>
    rw [List.length_cons] at hi
    have hrest := ih (i := i + 1) (by omega)
    have hlt : i < stop.length := by omega
    rw [reachesEndsDirect, reachesEnds, isMaskedDirect_eq hlt]
    simp only [bind, Except.bind, hrest]
    exact ite_ok _ _

theorem sliceSkippableDirect_eq : g.sliceSkippableDirect n = .ok (g.sliceSkippable n) := by
  unfold sliceSkippableDirect sliceSkippable
  cases g.isOutputNode n.id <;> cases n.isFused <;> try rfl
  cases g.inputLayout? n.id 0 with
  | none => rfl
  | some input =>
    cases n.outputs[0]? with
    | none => rfl
    | some output =>
      dsimp only
      rw [reachesEndsDirect_eq input.shape _ (Nat.zero_add _)]
      exact ite_ok _ _

theorem isSkippableDirect_eq : g.isSkippableDirect n = .ok (g.isSkippable n) := by
  unfold isSkippable
  split
  · next hop =>
    simp only [isSkippableDirect, hop]
    exact g.gatherSkippableDirect_eq n
  · next hop =>
    simp only [isSkippableDirect, hop]
    exact g.permuteSkippableDirect_eq n
  · next hop =>
    simp only [isSkippableDirect, hop]
    exact g.sliceSkippableDirect_eq n
  · next hgather hpermute hslice =>
    unfold isSkippableDirect
    split
    · next hop => exact absurd hop hgather
    · next hop => exact absurd hop hpermute
    · next hop => exact absurd hop hslice
    · rfl

theorem isMarkedDirect_eq : g.isMarkedDirect n = .ok (n.kernel != .cpu && g.isSkippable n) := by
  unfold isMarkedDirect
  by_cases hcpu : n.kernel = .cpu
  · simp [hcpu, pure, Except.pure]
  · simp [hcpu, isSkippableDirect_eq]

theorem skippableAmong_eq (nodes : List (Node β)) :
    g.skippableAmong nodes =
      .ok ((nodes.filter fun n => n.kernel != .cpu && g.isSkippable n).map Node.id) := by
  induction nodes with
  | nil => rfl
  | cons n rest ih =>
    simp only [skippableAmong, ih, isMarkedDirect_eq, bind, Except.bind, pure, Except.pure,
      List.filter_cons, apply_ite (List.map Node.id), List.map_cons]

end Graph

/-! ### The pass -/

/-- The pass that marks the nodes which may be skipped at run time. -/
def markSkippableDirect : Edit β Report := do
  let ids ← Edit.ask fun g => g.skippableAmong g.liveNodes
  modify (Graph.markNodes ids)
  let report : Report := { matched := ids.length, iterations := 1 }
  return ids.foldl Report.record report

/-- The pass with direct reads does the same, and neither reads past the end of a list. -/
theorem apply_markSkippableDirect (g : Graph β) :
    markSkippableDirect.apply g = markSkippable.run.apply g ∧ markSkippable.run.InRange g := by
  have hids : (Edit.ask fun g => g.skippableAmong g.liveNodes).apply g = (.ok g.skippableNodes, g) := by
    rw [Edit.apply_ask, Graph.skippableAmong_eq]
    rfl
  unfold markSkippableDirect
  rw [Edit.apply_bind_of_ok hids]
  refine ⟨rfl, Edit.InRange.get.bind fun h _ _ => ?_⟩
  exact (Edit.InRange.always fun k => ((), Graph.markNodes h.skippableNodes k)).bind fun _ _ _ => .pure _

end Dataflow
