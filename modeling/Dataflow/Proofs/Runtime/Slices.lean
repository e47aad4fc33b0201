import Dataflow.Proofs.Graph.Specs
import Dataflow.Proofs.Runtime.Shapes
import Dataflow.Skip

/-!
# Slices that may be skipped

A strided slice takes, along every axis, the positions from a start on, some steps apart, that lie
before a stop.  Starts, stops and steps are listed by axis, in lists of any lengths.  Two masks tell
for which axes the bounds are those of the axis, whatever is listed.

The condition for a mark looks at these lists as a whole.  If it holds, every stop is the end of its
axis and every step is one.  The starts, however, are taken to be masked wherever the mask is one in
all its entries, of which there may be fewer than starts.  The slice is the identity along an axis
exactly if no other start than zero is listed there past the end of the mask.

## Main definitions

* `AxisSlice`, `AxisSlice.positions` : a slice along one axis, and what it takes.
* `Node.axisSlice` : what a strided slice does along an axis.
* `Node.StartsUnmasked` : a start that the mask is too short for.

## Main statements

* `AxisSlice.isIdentity_iff` : slices with full stops and unit steps.
* `Node.isIdentity_axisSlice_iff` : along which axes a slice that may be skipped is the identity.
-/

namespace Dataflow

/-! ### Slices along one axis -/

/-- A slice along one axis takes the positions `start`, `start + step` and so on that lie before
`stop`. -/
structure AxisSlice where
  start : Int
  stop : Int
  step : Int

namespace AxisSlice

variable {s : AxisSlice} {length : Nat}

/-- The positions that the slice takes, in order. -/
def positions (s : AxisSlice) : List Int :=
  (List.range (-((s.start - s.stop).fdiv s.step)).toNat).map fun k : Nat => s.start + k * s.step

/-- Along an axis of the given length the slice takes every position, each in its place. -/
def IsIdentity (s : AxisSlice) (length : Nat) : Prop :=
  s.positions = (List.range length).map Int.ofNat

instance : Decidable (s.IsIdentity length) :=
  inferInstanceAs (Decidable (_ = _))

theorem positions_of_step_one (h : s.step = 1) :
    s.positions = (List.range (s.stop - s.start).toNat).map fun k : Nat => s.start + k := by
  have hcount : -((s.start - s.stop).fdiv 1) = s.stop - s.start := by
    rw [Int.fdiv_one]
    omega
  simp only [positions, h, hcount, Int.mul_one]

/-- A slice with unit steps up to the end is the identity if it starts at the beginning.  Along an
axis without positions it may also start behind the end. -/
theorem isIdentity_iff (hstop : s.stop = length) (hstep : s.step = 1) :
    s.IsIdentity length ↔ s.start = 0 ∨ length = 0 ∧ 0 < s.start := by
  rw [IsIdentity, positions_of_step_one hstep, hstop]
  constructor
  · intro h
    have hcount := congrArg List.length h
    simp only [List.length_map, List.length_range] at hcount
    omega
  · rintro (hstart | ⟨rfl, hstart⟩)
    · simp [hstart]
    · have hcount : ((0 : Nat) - s.start : Int).toNat = 0 := by omega
      rw [hcount]
      rfl

end AxisSlice

/-! ### The condition for a mark -/

private theorem all_eq_iff {l : List Int} {a : Int} :
    (l.all (· == a)) = true ↔ ∀ (i : Nat) (b : Int), l[i]? = some b → b = a := by
  simp only [List.all_eq_true, beq_iff_eq, List.mem_iff_getElem?]
  exact ⟨fun h i b hb => h b ⟨i, hb⟩, fun h b ⟨i, hb⟩ => h i b hb⟩

namespace Graph

variable {shape : Shape} {mask : Nat → Bool} {stop : Int} {rest stops : List Int} {first : Nat}

theorem reachesEnds_cons_iff : reachesEnds shape mask first (stop :: rest) = true ↔
      (mask first = true ∨ shape.dim? first = some (.known stop.toNat) ∧ 0 ≤ stop) ∧
        reachesEnds shape mask (first + 1) rest = true := by
  rw [reachesEnds, Bool.and_eq_true, Bool.or_eq_true]
  refine and_congr_left fun _ => or_congr_right ?_
  split
  · next d hd => simp [hd, and_comm]
  · next hnot => exact iff_of_false Bool.false_ne_true fun h => hnot _ h.1

theorem reachesEnds_iff : reachesEnds shape mask first stops = true ↔
    ∀ (i : Nat) (stop : Int), stops[i]? = some stop →
      mask (first + i) = true ∨ shape.dim? (first + i) = some (.known stop.toNat) ∧ 0 ≤ stop := by
  induction stops generalizing first with
  | nil => simp [reachesEnds]
  | cons e rest ih =>
    rw [reachesEnds_cons_iff, ih]
    constructor
    · rintro ⟨hfirst, hrest⟩ (_ | i) stop hstop
      · obtain rfl : e = stop := Option.some.inj hstop
        exact hfirst
      · exact Nat.add_right_comm first 1 i ▸ hrest i stop hstop
    · intro h
      refine ⟨h 0 e rfl, fun i stop hstop => ?_⟩
      exact Nat.add_right_comm first 1 i ▸ h (i + 1) stop hstop

end Graph

/-! ### Strided slices -/

namespace Node

variable {β : Type} {n : Node β} {g : Graph β} {axis : Nat}

/-- The entry of a list of integers for an axis.  An attribute that is absent has no entries. -/
def entry? (n : Node β) (name : String) (axis : Nat) : Option Int :=
  ((n.ints? name).getD [])[axis]?

/-- What a strided slice does along an axis of the given length.  A bound that is masked or is not
listed is that of the axis, and a step that is not listed is one. -/
def axisSlice (n : Node β) (axis length : Nat) : AxisSlice where
  start := if n.entry? "begin_mask" axis = some 1 then 0 else (n.entry? "begin" axis).getD 0
  stop := if n.entry? "end_mask" axis = some 1 then length else (n.entry? "end" axis).getD length
  step := (n.entry? "strides" axis).getD 1

/-- A start other than zero is listed for the axis, and the mask of starts has no entry for it. -/
def StartsUnmasked (n : Node β) (axis : Nat) : Prop :=
  (∃ start, n.entry? "begin" axis = some start ∧ start ≠ 0) ∧ n.entry? "begin_mask" axis = none

/-- What the condition for a mark says about the lists of a slice, entry by entry. -/
structure Spans (n : Node β) (shape : Shape) : Prop where
  starts : (∀ axis start, n.entry? "begin" axis = some start → start = 0) ∨
    ∀ axis m, n.entry? "begin_mask" axis = some m → m = 1
  steps : ∀ axis step, n.entry? "strides" axis = some step → step = 1
  stops : ∀ axis stop, n.entry? "end" axis = some stop →
    n.entry? "end_mask" axis = some 1 ∨ shape.dim? axis = some (.known stop.toNat) ∧ 0 ≤ stop

/-- A slice that may be skipped has an input with a layout, and spans its shape as far as the lists
go. -/
theorem exists_spans_of_isSkippable (hop : n.op = .stridedSlice) (h : g.isSkippable n = true) :
    ∃ input, g.inputLayout? n.id 0 = some input ∧ n.Spans input.shape := by
  simp only [Graph.isSkippable, hop, Graph.sliceSkippable, Bool.and_eq_true] at h
  obtain ⟨-, h⟩ := h
  split at h
  · next input output hinput _ =>
    simp only [Bool.and_eq_true, Bool.or_eq_true, all_eq_iff, Graph.reachesEnds_iff, Nat.zero_add,
      beq_iff_eq] at h
    obtain ⟨⟨⟨-, hstarts⟩, hsteps⟩, hstops⟩ := h
    refine ⟨input, hinput, hstarts.imp_right And.right, hsteps, fun axis stop hstop => ?_⟩
    exact (hstops axis stop hstop).imp_left And.right
  · exact absurd h Bool.false_ne_true

namespace Spans

variable {shape : Shape} {length : Nat}

theorem step_axisSlice (h : n.Spans shape) (axis length : Nat) :
    (n.axisSlice axis length).step = 1 := by
  cases hstep : n.entry? "strides" axis with
  | none => simp [axisSlice, hstep]
  | some step => simp [axisSlice, hstep, h.steps axis step hstep]

/-- A stop that is not masked equals the length that the shape gives. -/
theorem stop_axisSlice (h : n.Spans shape) {lengths : List Nat} (hagrees : shape.Agrees lengths)
    (hlength : lengths[axis]? = some length) : (n.axisSlice axis length).stop = length := by
  simp only [axisSlice]
  split
  · rfl
  · next hmask =>
    cases hstop : n.entry? "end" axis with
    | none => rfl
    | some stop =>
      obtain ⟨hdim, hnonneg⟩ := (h.stops axis stop hstop).resolve_left hmask
      have hd := Dim.agrees_known.1 (hagrees.dim hdim hlength)
      simp only [Option.getD_some]
      omega

theorem start_axisSlice_iff (h : n.Spans shape) :
    (n.axisSlice axis length).start = 0 ↔ ¬ n.StartsUnmasked axis := by
  simp only [axisSlice, StartsUnmasked]
  obtain hstarts | hmask := h.starts
  · have hzero : (n.entry? "begin" axis).getD 0 = 0 := by
      cases hstart : n.entry? "begin" axis with
      | none => rfl
      | some start => exact hstarts axis start hstart
    have hnone : ¬ ∃ start, n.entry? "begin" axis = some start ∧ start ≠ 0 :=
      fun ⟨start, hstart, hne⟩ => hne (hstarts axis start hstart)
    simp [hzero, hnone]
  · cases hm : n.entry? "begin_mask" axis with
    | some m => simp [hmask axis m hm]
    | none => cases n.entry? "begin" axis <;> simp

end Spans

/-- **Slices that may be skipped.**  If a strided slice may be skipped, its input has a declared
layout, and whatever the lengths of the input are that agree with this, the slice goes to the end of
every axis with steps of one.  It is the identity along an axis unless a start other than zero is
listed there that the mask of starts has no entry for; then it is not, except that an axis without
positions may be started behind its end. -/
theorem isIdentity_axisSlice_iff (hop : n.op = .stridedSlice) (hskip : g.isSkippable n = true) :
    ∃ input, g.inputLayout? n.id 0 = some input ∧ ∀ lengths, input.shape.Agrees lengths →
      ∀ axis length, lengths[axis]? = some length →
        (n.axisSlice axis length).stop = length ∧ (n.axisSlice axis length).step = 1 ∧
          ((n.axisSlice axis length).IsIdentity length ↔
            ¬ n.StartsUnmasked axis ∨ length = 0 ∧ 0 < (n.axisSlice axis length).start) := by
  obtain ⟨input, hinput, hspans⟩ := exists_spans_of_isSkippable hop hskip
  refine ⟨input, hinput, fun lengths hagrees axis length hlength => ?_⟩
  have hstop := hspans.stop_axisSlice hagrees hlength
  have hstep := hspans.step_axisSlice axis length
  rw [AxisSlice.isIdentity_iff hstop hstep, hspans.start_axisSlice_iff]
  exact ⟨hstop, hstep, Iff.rfl⟩

/-! ### Slices of a matrix -/

/-- A strided slice of a matrix with the given lists of integers. -/
def rowsSlice (lengths : List Int) (lists : List (String × List Int)) : NodeSpec Unit where
  op := .stridedSlice
  inputs := [⟨0, 0⟩]
  outputs := [.planar (.ofInts lengths) .f32]
  attributes := lists.foldl (fun a p => a.insert p.1 (.ints p.2)) .empty

/-- A rectifier reads the matrix through the slice. -/
def slicedRows (lengths : List Int) (lists : List (String × List Int)) : Graph Unit :=
  .ofSpecs
    [{ op := .parameter, outputs := [.planar (.ofInts lengths) .f32] }, rowsSlice lengths lists,
      { op := .relu, inputs := [⟨1, 0⟩], outputs := [.planar (.ofInts lengths) .f32] }]
    [⟨2, 0⟩]

/-- All starts and the second stop are masked. -/
def maskedLists : List (String × List Int) :=
  [("begin", [1, 2]), ("begin_mask", [1, 1]), ("end", [4, 5]), ("end_mask", [0, 1])]

/-- Only the first start is masked. -/
def unmaskedLists : List (String × List Int) :=
  [("begin", [0, 5]), ("begin_mask", [1]), ("strides", [1, 1])]

/-- Of four rows whose length is open the slice returns the rows of seven entries as they are. -/
theorem isIdentity_axisSlice_slicedRows :
    let g := slicedRows [4, -1] maskedLists
    let n := (rowsSlice [4, -1] maskedLists).build 1
    (n.op = .stridedSlice ∧ g.isSkippable n = true) ∧ (Shape.ofInts [4, -1]).Agrees [4, 7] ∧
      (n.axisSlice 1 7).IsIdentity 7 := by
  intro g n
  have hop : n.op = .stridedSlice := rfl
  have hskip : g.isSkippable n = true := by decide +kernel
  have hagrees : (Shape.ofInts [4, -1]).Agrees [4, 7] :=
    .cons (Dim.agrees_known.2 rfl) (.cons (Dim.agrees_unknown 7) .nil)
  have hmask : ¬ n.StartsUnmasked 1 := fun hstart => absurd hstart.2 (by decide +kernel)
  obtain ⟨input, hinput, hslices⟩ := isIdentity_axisSlice_iff hop hskip
  obtain rfl : _ = input := Option.some.inj hinput
  obtain ⟨-, -, hidentity⟩ := hslices [4, 7] hagrees 1 7 rfl
  exact ⟨⟨hop, hskip⟩, hagrees, hidentity.2 (.inl hmask)⟩

/-- A slice that may be skipped returns the last entry of every row. -/
theorem exists_offset_of_isSkippable :
    ¬ ∀ (g : Graph Unit) (n : Node Unit), n.op = .stridedSlice → g.isSkippable n = true →
      ∀ input, g.inputLayout? n.id 0 = some input → ∀ lengths, input.shape.Agrees lengths →
        ∀ axis length, lengths[axis]? = some length → (n.axisSlice axis length).IsIdentity length := by
  intro hall
  have hagrees : (Shape.ofInts [4, 6]).Agrees [4, 6] :=
    .cons (Dim.agrees_known.2 rfl) (.cons (Dim.agrees_known.2 rfl) .nil)
  have hidentity := hall (slicedRows [4, 6] unmaskedLists) ((rowsSlice [4, 6] unmaskedLists).build 1)
    rfl (by decide +kernel) _ rfl [4, 6] hagrees 1 6 rfl
  exact absurd hidentity (by decide +kernel)

end Node

end Dataflow
