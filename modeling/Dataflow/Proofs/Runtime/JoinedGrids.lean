import Dataflow.Proofs.Runtime.Pairs
import Dataflow.Tensor.Concat
import Mathlib.Algebra.BigOperators.Ring.List

/-!
# Parts laid end to end, in row-major order

Laying tensors end to end along an inner axis interleaves them: every row of the result takes one
block of each part.  Here the place of an element among the blocks is compared with its index, for
parts of any lengths on the axis, and the parts are cut out of the result again.

## Main definitions

* `Grid.AgreeOff` : tensors that differ in their lengths on one axis only.
* `Grid.startOf` : where a part begins on the axis.

## Main statements

* `getElem?_interleave` : where an element of a part stands among the blocks.
* `Grid.concat?_of_interleave` : the interleaved blocks are the tensors laid end to end.
* `Grid.exists_part_of_index`, `Grid.slice?_concat?` : every element is one of a part, and every part
  is cut out again.
-/

namespace Dataflow

/-! ### Rows and blocks -/

section Interleave

variable {α ι : Type} {rows row place : Nat} {block : ι → Nat} {data : ι → List α}
  {before after : List ι} {p : ι}

theorem length_row_of_blocks {parts : List ι} (h : ∀ q ∈ parts, block q ≤ (data q).length) :
    (parts.flatMap fun q => (data q).take (block q)).length = (parts.map block).sum := by
  rw [List.length_flatMap, List.map_congr_left fun q hq => ?_]
  rw [List.length_take, Nat.min_eq_left (h q hq)]

/-- In the first row, the blocks of the parts in front come before the block of a part. -/
theorem getElem?_flatMap_take (h : ∀ q ∈ before ++ p :: after, block q ≤ (data q).length)
    (hplace : place < block p) :
    ((before ++ p :: after).flatMap fun q => (data q).take (block q))[
        (before.map block).sum + place]? = (data p)[place]? := by
  have hlen := length_row_of_blocks fun q hq => h q (List.mem_append_left _ hq)
  have hp := h p (List.mem_append_right _ List.mem_cons_self)
  rw [List.flatMap_append, List.getElem?_append_right (by omega), hlen, Nat.add_sub_cancel_left,
    List.flatMap_cons, List.getElem?_append_left (by rw [List.length_take]; omega),
    List.getElem?_take_of_lt hplace]

/-- The rows of the result are as long as the blocks of all parts together, and within a row the
block of a part follows those of the parts in front. -/
theorem getElem?_interleave (h : ∀ q ∈ before ++ p :: after, (data q).length = rows * block q)
    (hrow : row < rows) (hplace : place < block p) :
    (interleave rows ((before ++ p :: after).map fun q => (block q, data q)))[
        row * ((before ++ p :: after).map block).sum + ((before.map block).sum + place)]? =
      (data p)[row * block p + place]? := by
  induction rows generalizing data row with
  | zero => omega
  | succ rows ih =>
    have hblock : ∀ q ∈ before ++ p :: after, block q ≤ (data q).length := fun q hq => by
      rw [h q hq, Nat.succ_mul]
      exact Nat.le_add_left _ _
    have hwidth := length_row_of_blocks hblock
    rw [interleave, List.flatMap_map, List.map_map]
    cases row with
    | zero =>
      have hlt : (before.map block).sum + place < ((before ++ p :: after).map block).sum := by
        simp only [List.map_append, List.map_cons, List.sum_append, List.sum_cons]
        omega
      rw [Nat.zero_mul, Nat.zero_mul, Nat.zero_add, Nat.zero_add,
        List.getElem?_append_left (by rwa [hwidth]), getElem?_flatMap_take hblock hplace]
    | succ row =>
      -- The first row is passed over, and every part has given up its first block.
      have hrest : ∀ q ∈ before ++ p :: after, ((data q).drop (block q)).length = rows * block q :=
        fun q hq => by rw [List.length_drop, h q hq, Nat.succ_mul, Nat.add_sub_cancel]
      have hnext := ih hrest (Nat.lt_of_succ_lt_succ hrow)
      rw [List.getElem?_drop] at hnext
      rw [Nat.succ_mul, Nat.succ_mul, Nat.add_right_comm, ← hwidth,
        List.getElem?_append_right (Nat.le_add_left _ _), Nat.add_sub_cancel, hwidth,
        Nat.add_right_comm, Nat.add_comm (row * block p + place), ← hnext]
      rfl

/-- Entries are laid end to end whatever they are. -/
theorem map_interleave {γ : Type} (f : α → γ) (rows : Nat) (parts : List (Nat × List α)) :
    (interleave rows parts).map f =
      interleave rows (parts.map fun q => (q.1, q.2.map f)) := by
  induction rows generalizing parts with
  | zero => rfl
  | succ rows ih =>
    rw [interleave, interleave, List.map_append, ih, List.map_flatMap, List.flatMap_map, List.map_map,
      List.map_map]
    simp only [List.map_take, List.map_drop, Function.comp_def]

end Interleave

/-! ### Places and indices -/

/-- An element in row-major order: the axes in front of the given one choose a row, the place on the
axis chooses a layer of the row, and the axes behind choose a place in the layer. -/
theorem position_insertIdx_eq {shape index : List Nat} {axis i n : Nat} (h : axis ≤ shape.length)
    (hlen : index.length = shape.length) :
    position (shape.insertIdx axis n) (index.insertIdx axis i) =
      position (shape.take axis) (index.take axis) * (n * numel (shape.drop axis)) +
        (i * numel (shape.drop axis) + position (shape.drop axis) (index.drop axis)) := by
  induction axis generalizing shape index with
  | zero => simp [position]
  | succ axis ih =>
    obtain _ | ⟨m, shape⟩ := shape
    · simp at h
    · obtain _ | ⟨j, index⟩ := index
      · simp at hlen
      have h := Nat.le_of_succ_le_succ h
      have hcount : n * numel shape = numel (shape.take axis) * (n * numel (shape.drop axis)) := by
        rw [Nat.mul_left_comm, ← numel_append, List.take_append_drop]
      rw [List.insertIdx_succ_cons, List.insertIdx_succ_cons, position, ih h (Nat.succ.inj hlen),
        numel_insertIdx h, hcount, List.take_succ_cons, List.take_succ_cons, List.drop_succ_cons,
        List.drop_succ_cons, position, Nat.add_mul, Nat.add_assoc, Nat.mul_assoc]

/-- Another length on one axis. -/
theorem set_eq_insertIdx {shape : List Nat} {axis n : Nat} (h : axis < shape.length) :
    shape.set axis n = (shape.eraseIdx axis).insertIdx axis n := by
  have hlen : axis ≤ (shape.eraseIdx axis).length := by
    rw [List.length_eraseIdx_of_lt h]
    omega
  rw [← set_insertIdx hlen, insertIdx_eraseIdx_of_getElem? (List.getElem?_eq_getElem h)]

namespace Grid

variable {t p : Grid} {before after parts : List Grid} {common index : List Nat} {axis i : Nat}

/-- The position of an axis at which a part begins, behind those in front of it. -/
def startOf (axis : Nat) (before : List Grid) : Nat :=
  (before.map (·.lengthAt axis)).sum

/-- Tensors that agree on all axes but one, and have that one. -/
def AgreeOff (axis : Nat) (common : List Nat) (parts : List Grid) : Prop :=
  ∀ p ∈ parts, p.shape = common.insertIdx axis (p.lengthAt axis)

/-! ### The part of a position -/

theorem entryOf_append (hi : i < p.lengthAt axis) :
    entryOf axis index (before ++ p :: after) (startOf axis before + i) =
      p.entry (index.set axis i) := by
  induction before with
  | nil => simp [entryOf, startOf, hi]
  | cons q before ih =>
    have hsum : startOf axis (q :: before) = q.lengthAt axis + startOf axis before := rfl
    rw [List.cons_append, entryOf, hsum, if_neg (by omega), Nat.add_assoc, Nat.add_sub_cancel_left, ih]

theorem exists_part_of_lt (hi : i < startOf axis parts) :
    ∃ before p after j, parts = before ++ p :: after ∧ j < p.lengthAt axis ∧
      i = startOf axis before + j := by
  induction parts generalizing i with
  | nil => simp [startOf] at hi
  | cons q parts ih =>
    obtain hlt | hge := Nat.lt_or_ge i (q.lengthAt axis)
    · exact ⟨[], q, parts, i, rfl, hlt, (Nat.zero_add i).symm⟩
    · obtain ⟨before, p, after, j, rfl, hj, heq⟩ := ih (i := i - q.lengthAt axis) (by
        simp only [startOf, List.map_cons, List.sum_cons] at hi ⊢
        omega)
      refine ⟨q :: before, p, after, j, rfl, hj, ?_⟩
      simp only [startOf, List.map_cons, List.sum_cons] at heq ⊢
      omega

theorem startOf_append_lt (hi : i < p.lengthAt axis) :
    startOf axis before + i < startOf axis (before ++ p :: after) := by
  simp only [startOf, List.map_append, List.map_cons, List.sum_append, List.sum_cons]
  omega

/-! ### Tensors laid end to end -/

/-- Tensors can be laid end to end if they agree off the axis. -/
theorem concat?_eq_some_iff (hne : parts ≠ []) : concat? axis parts = some t ↔
    ∃ common, axis ≤ common.length ∧ AgreeOff axis common parts ∧
      t = ofFn (common.insertIdx axis (startOf axis parts)) fun index =>
        entryOf axis index parts (index.getD axis 0) := by
  obtain ⟨first, rest, rfl⟩ := List.exists_cons_of_ne_nil hne
  simp only [concat?, List.head?_cons, Option.bind_eq_bind, Option.bind_some]
  constructor
  · intro h
    split at h
    · next hfit =>
      obtain ⟨haxis, hfit⟩ := hfit
      obtain rfl := Option.some.inj h
      refine ⟨first.shape.eraseIdx axis, ?_, fun p hp => ?_, ?_⟩
      · rw [List.length_eraseIdx_of_lt haxis]
        omega
      · rw [← set_eq_insertIdx haxis]
        simpa using List.all_eq_true.1 hfit p hp
      · rw [← set_eq_insertIdx haxis]
        rfl
    · simp at h
  · rintro ⟨common, haxis, hagree, rfl⟩
    have hset : ∀ n, first.shape.set axis n = common.insertIdx axis n := fun n => by
      rw [hagree first List.mem_cons_self, set_insertIdx haxis]
    rw [if_pos, hset]
    · rfl
    · refine ⟨?_, List.all_eq_true.2 fun p hp => ?_⟩
      · rw [hagree first List.mem_cons_self, List.length_insertIdx_of_le_length haxis]
        omega
      · rw [hset, decide_eq_true_eq]
        exact hagree p hp

/-- An element of a part is found behind the parts in front. -/
theorem entry_joined (haxis : axis ≤ common.length) (hindex : List.Forall₂ (· < ·) index common)
    (hi : i < p.lengthAt axis) :
    (ofFn (common.insertIdx axis (startOf axis (before ++ p :: after))) fun index =>
        entryOf axis index (before ++ p :: after) (index.getD axis 0)).entry
          (index.insertIdx axis (startOf axis before + i)) = p.entry (index.insertIdx axis i) := by
  have hrank : axis ≤ index.length := by rwa [hindex.length_eq]
  rw [entry_ofFn (forall₂_insertIdx hindex (startOf_append_lt hi) haxis), getD_insertIdx_self hrank,
    entryOf_append hi, set_insertIdx hrank]

/-- The blocks of a part are layers of its rows. -/
theorem length_entries_of_shape (haxis : axis ≤ common.length)
    (h : p.shape = common.insertIdx axis (p.lengthAt axis)) :
    p.entries.length =
      numel (common.take axis) * (p.lengthAt axis * numel (common.drop axis)) := by
  rw [p.length_entries, h, numel_insertIdx haxis, Nat.mul_left_comm, ← numel_append,
    List.take_append_drop]

theorem sum_blocks (inner : Nat) (parts : List Grid) :
    (parts.map fun p => p.lengthAt axis * inner).sum = startOf axis parts * inner :=
  List.sum_map_mul_right _ _ _

/-- The rows of tensors that agree off the axis fill the tensor that they are laid out in. -/
theorem length_interleave_entries (haxis : axis ≤ common.length)
    (hagree : AgreeOff axis common parts) :
    (interleave (numel (common.take axis))
      (parts.map fun p => (p.lengthAt axis * numel (common.drop axis), p.entries))).length =
        numel (common.insertIdx axis (startOf axis parts)) := by
  rw [length_interleave, List.map_map, ← List.sum_eq_foldr]
  · rw [numel_insertIdx haxis, ← List.take_append_drop axis common, numel_append,
      List.take_append_drop, Nat.mul_left_comm, ← sum_blocks]
    rfl
  · intro q hq
    obtain ⟨p, hp, rfl⟩ := List.mem_map.1 hq
    exact length_entries_of_shape haxis (hagree p hp)

/-- Tensors that agree off the axis and whose blocks follow each other in every row. -/
theorem concat?_of_interleave (hne : parts ≠ []) (haxis : axis ≤ common.length)
    (hagree : AgreeOff axis common parts)
    (hshape : t.shape = common.insertIdx axis (startOf axis parts))
    (hentries : t.entries = interleave (numel (common.take axis))
      (parts.map fun p => (p.lengthAt axis * numel (common.drop axis), p.entries))) :
    concat? axis parts = some t := by
  refine (concat?_eq_some_iff hne).2 ⟨common, haxis, hagree, ext_entry hshape fun index hindex => ?_⟩
  rw [hshape] at hindex
  obtain ⟨rest, i, rfl, hi, hrest⟩ := exists_of_forall₂_insertIdx haxis hindex
  obtain ⟨before, p, after, j, rfl, hj, rfl⟩ := exists_part_of_lt hi
  have hlen : rest.length = common.length := hrest.length_eq
  have hrow : position (common.take axis) (rest.take axis) < numel (common.take axis) :=
    position_lt (List.forall₂_take axis hrest)
  have hplace : position (common.drop axis) (rest.drop axis) < numel (common.drop axis) :=
    position_lt (List.forall₂_drop axis hrest)
  have hblock : j * numel (common.drop axis) + position (common.drop axis) (rest.drop axis) <
      p.lengthAt axis * numel (common.drop axis) := by
    calc _ < (j + 1) * numel (common.drop axis) := by rw [Nat.succ_mul]; omega
      _ ≤ _ := Nat.mul_le_mul_right _ hj
  have hget := getElem?_interleave
    (fun q hq => length_entries_of_shape haxis (hagree q hq)) hrow hblock
  rw [sum_blocks, sum_blocks, ← Nat.add_assoc (startOf _ _ * _), ← Nat.add_mul] at hget
  rw [entry_joined haxis hrest hj, entry, entry, hshape, hagree p (by simp),
    position_insertIdx_eq haxis hlen, position_insertIdx_eq haxis hlen, hentries,
    List.getD_eq_getElem?_getD, hget, List.getD_eq_getElem?_getD]

section Parts

variable (h : concat? axis (before ++ p :: after) = some t)
include h

/-- The tensors laid end to end keep the elements of every part. -/
theorem entry_concat? (hindex : List.Forall₂ (· < ·) index p.shape) :
    t.entry (index.modify axis (startOf axis before + ·)) = p.entry index := by
  obtain ⟨common, haxis, hagree, rfl⟩ := (concat?_eq_some_iff (by simp)).1 h
  rw [hagree p (by simp)] at hindex
  obtain ⟨rest, i, rfl, hi, hrest⟩ := exists_of_forall₂_insertIdx haxis hindex
  rw [modify_insertIdx (by rwa [hrest.length_eq]), entry_joined haxis hrest hi]

/-- Every part is cut out of the tensors laid end to end. -/
theorem slice?_concat? : t.slice? axis (startOf axis before) (p.lengthAt axis) = some p := by
  obtain ⟨common, haxis, hagree, ht⟩ := (concat?_eq_some_iff (by simp)).1 h
  have hp := hagree p (by simp)
  have hshape : t.shape = common.insertIdx axis (startOf axis (before ++ p :: after)) :=
    congrArg Grid.shape ht
  have hroom : startOf axis before + p.lengthAt axis ≤ startOf axis (before ++ p :: after) := by
    simp only [startOf, List.map_append, List.map_cons, List.sum_append, List.sum_cons]
    omega
  rw [slice?, hshape, List.getElem?_insertIdx_self, if_pos haxis, Option.any_some, if_pos (by simpa),
    Option.some.injEq, set_insertIdx haxis, ← hp]
  exact ext_entry rfl fun index hindex => (entry_ofFn hindex).trans (entry_concat? h hindex)

end Parts

/-- Every element of the tensors laid end to end is one of a part. -/
theorem exists_part_of_index (h : concat? axis parts = some t) (hne : parts ≠ [])
    (hindex : List.Forall₂ (· < ·) index t.shape) :
    ∃ before p after, parts = before ++ p :: after ∧ startOf axis before ≤ index.getD axis 0 ∧
      index.getD axis 0 < startOf axis before + p.lengthAt axis ∧
        t.entry index = p.entry (index.modify axis (· - startOf axis before)) := by
  obtain ⟨common, haxis, hagree, ht⟩ := (concat?_eq_some_iff hne).1 h
  subst ht
  obtain ⟨rest, i, rfl, hi, hrest⟩ := exists_of_forall₂_insertIdx haxis hindex
  have hrank : axis ≤ rest.length := by rwa [hrest.length_eq]
  obtain ⟨before, p, after, j, rfl, hj, rfl⟩ := exists_part_of_lt hi
  refine ⟨before, p, after, rfl, ?_⟩
  rw [getD_insertIdx_self hrank, modify_insertIdx hrank, Nat.add_sub_cancel_left,
    entry_joined haxis hrest hj]
  exact ⟨Nat.le_add_right _ _, Nat.add_lt_add_left hj _, rfl⟩

end Grid

end Dataflow
