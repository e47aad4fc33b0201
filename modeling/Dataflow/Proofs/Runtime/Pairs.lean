import Dataflow.Proofs.Runtime.Operations

/-!
# Two tensors side by side

Two tensors of one shape make up a tensor with a new axis of length two, one tensor at each position.
It comes from laying the tensors end to end, each with an axis of length one, and it is split into
them again.  With the new axis moved next to the last one and both taken together, the tensors lie end
to end along their last axis.

## Main definitions

* `Grid.pair` : two tensors side by side.
* `Grid.split?` : equal parts along an axis.
* `Interpretation.Concats`, `Interpretation.Splits` : the usual meaning of the operations.

## Main statements

* `Grid.concat?_pair`, `Grid.split?_pair` : a pair is put together, and taken apart.
* `Grid.permute?_pair`, `Grid.reshape?_pair` : a pair along the last axis.
-/

namespace Dataflow

namespace Grid

variable {t u v : Grid} {axis d : Nat} {index lead : List Nat} {width : Nat}

/-- Two tensors of one shape, at the two positions of a new axis. -/
def pair (axis : Nat) (t u : Grid) : Grid :=
  ofFn (t.shape.insertIdx axis 2) fun index =>
    (if index.getD axis 0 = 0 then t else u).entry (index.eraseIdx axis)

@[simp] theorem shape_pair (axis : Nat) (t u : Grid) : (pair axis t u).shape = t.shape.insertIdx axis 2 :=
  rfl

theorem getD_insertIdx_self (h : axis ≤ index.length) : (index.insertIdx axis d).getD axis 0 = d := by
  rw [List.getD_eq_getElem?_getD, List.getElem?_insertIdx_self, if_pos h, Option.getD_some]

theorem entry_pair (h : axis ≤ t.shape.length) (hindex : List.Forall₂ (· < ·) index t.shape)
    (hd : d < 2) : (pair axis t u).entry (index.insertIdx axis d) =
      (if d = 0 then t else u).entry index := by
  have hrank : axis ≤ index.length := by rwa [hindex.length_eq]
  rw [pair, entry_ofFn (forall₂_insertIdx hindex hd h), getD_insertIdx_self hrank,
    List.eraseIdx_insertIdx_self]

/-- Every position of a pair is one of the tensors. -/
theorem layer_pair (h : axis ≤ t.shape.length) (hu : u.shape = t.shape) (hd : d < 2) :
    (pair axis t u).layer axis d = if d = 0 then t else u := by
  have herase : (pair axis t u).shape.eraseIdx axis = t.shape := List.eraseIdx_insertIdx_self 2
  refine ext_entry ?_ fun index hindex => ?_
  · rw [layer, shape_ofFn, herase]
    split
    · rfl
    · exact hu.symm
  · rw [layer, shape_ofFn] at hindex
    rw [entry_layer hindex]
    exact entry_pair h (herase ▸ hindex) hd

theorem row_pair (hshape : t.shape = lead ++ [width]) (hu : u.shape = t.shape)
    (h : axis ≤ lead.length) (hindex : List.Forall₂ (· < ·) index lead) (hd : d < 2) :
    (pair axis t u).row (index.insertIdx axis d) = (if d = 0 then t else u).row index := by
  have hpair : (pair axis t u).shape = lead.insertIdx axis 2 ++ [width] := by
    rw [shape_pair, hshape, insertIdx_append_singleton h]
  have hone : (if d = 0 then t else u).shape = lead ++ [width] := by
    split
    · exact hshape
    · exact hu.trans hshape
  rw [row_eq hpair, row_eq hone]
  refine List.map_congr_left fun j hj => ?_
  rw [← insertIdx_append_singleton (by rwa [hindex.length_eq])]
  refine entry_pair (by rw [hshape]; simp; omega) ?_ hd
  rw [hshape]
  exact forall₂_append_singleton.2 ⟨hindex, List.mem_range.1 hj⟩

/-- A tensor with the rows of two tensors is their pair. -/
theorem eq_pair_of_rows (hshape : t.shape = lead ++ [width]) (hu : u.shape = t.shape)
    (hv : v.shape = lead.insertIdx axis 2 ++ [width]) (h : axis ≤ lead.length)
    (hrow : ∀ index d, List.Forall₂ (· < ·) index lead → d < 2 →
      v.row (index.insertIdx axis d) = (if d = 0 then t else u).row index) : v = pair axis t u := by
  refine ext_row hv ?_ fun index hindex => ?_
  · rw [shape_pair, hshape, insertIdx_append_singleton h]
  · obtain ⟨rest, d, rfl, hd, hrest⟩ := exists_of_forall₂_insertIdx h hindex
    rw [hrow rest d hrest hd, row_pair hshape hu h hrest hd]

/-- An axis of length one can be dropped. -/
theorem exists_eq_insertAxis (h : t.shape[axis]? = some 1) :
    ∃ u : Grid, t = u.insertAxis axis ∧ axis ≤ u.shape.length ∧
      u.shape = t.shape.eraseIdx axis := by
  have hnumel : numel t.shape = numel (t.shape.eraseIdx axis) := by
    have hlt := (List.getElem?_eq_some_iff.1 h).1
    conv_lhs => rw [← insertIdx_eraseIdx_of_getElem? h]
    rw [numel_insertIdx, Nat.one_mul]
    rw [List.length_eraseIdx_of_lt hlt]
    exact Nat.le_sub_one_of_lt hlt
  obtain ⟨u, hu⟩ : ∃ u, t.dropAxis? axis = some u :=
    ⟨_, by rw [dropAxis?, if_pos h, withShape?, dif_pos hnumel]⟩
  obtain ⟨hle, heq⟩ := eq_insertAxis_of_dropAxis? hu
  refine ⟨u, heq, hle, ?_⟩
  rw [heq, shape_insertAxis, List.eraseIdx_insertIdx_self]

/-- A pair along a new first axis has the elements of the first tensor, then those of the second. -/
theorem entries_pair_zero (hu : u.shape = t.shape) : (pair 0 t u).entries = t.entries ++ u.entries := by
  have hpart : ∀ (v : Grid) (d : Nat), v.shape = t.shape → (if d = 0 then t else u) = v →
      (indices t.shape).map (fun index => (if (d :: index).getD 0 0 = 0 then t else u).entry index) =
        v.entries := by
    intro v d hv hd
    have hentries := congrArg entries (ofFn_entry v)
    rw [hv] at hentries
    simpa [hd, ofFn] using hentries
  have hfirst := hpart t 0 rfl rfl
  have hsecond := hpart u 1 hu rfl
  simp only [pair, ofFn, List.insertIdx_zero, indices, List.range_succ, List.range_zero,
    List.nil_append, List.cons_append, List.flatMap_cons, List.flatMap_nil, List.append_nil,
    List.map_append, List.map_map, Function.comp_def, List.eraseIdx_cons_zero]
  rw [hfirst, hsecond]

/-! ### Put together and taken apart -/

/-- Two tensors with an axis of length one are laid end to end along it. -/
theorem concat?_pair (h : axis ≤ t.shape.length) (hu : u.shape = t.shape) :
    concat? axis [t.insertAxis axis, u.insertAxis axis] = some (pair axis t u) := by
  obtain ⟨v, hv, hshape, hentry⟩ := @concat?_insertAxis t.shape axis [t, u] (List.cons_ne_nil _ _)
    (by simp [hu]) h
  rw [show [t.insertAxis axis, u.insertAxis axis] = [t, u].map (·.insertAxis axis) from rfl, hv,
    Option.some.injEq]
  refine ext_entry hshape fun index hindex => ?_
  rw [hshape] at hindex
  obtain ⟨rest, d, rfl, hd, hrest⟩ := exists_of_forall₂_insertIdx h hindex
  rw [entry_pair h hrest hd]
  obtain rfl | rfl : d = 0 ∨ d = 1 := by
    simp only [List.length_cons, List.length_nil] at hd
    omega
  · exact hentry 0 t rest rfl hrest
  · exact hentry 1 u rest rfl hrest

/-- The equal parts of a tensor along an axis. -/
def split? (t : Grid) (axis parts : Nat) : Option (List Grid) :=
  if 0 < parts ∧ t.lengthAt axis % parts = 0 then
    (List.range parts).mapM fun i =>
      t.slice? axis (i * (t.lengthAt axis / parts)) (t.lengthAt axis / parts)
  else none

/-- A pair is split into the two tensors. -/
theorem split?_pair (h : axis ≤ t.shape.length) (hu : u.shape = t.shape) :
    (pair axis t u).split? axis 2 = some [t.insertAxis axis, u.insertAxis axis] := by
  have hlen : (pair axis t u).lengthAt axis = 2 := by
    rw [lengthAt, shape_pair, getD_insertIdx_self h]
  have hfirst := @slice?_one (pair axis t u) axis 0 (by rw [hlen]; decide)
  have hsecond := @slice?_one (pair axis t u) axis 1 (by rw [hlen]; decide)
  rw [layer_pair h hu (by decide), if_pos rfl] at hfirst
  rw [layer_pair h hu (by decide), if_neg (by decide)] at hsecond
  rw [split?, hlen, if_pos (by decide)]
  simp [List.range_succ, hfirst, hsecond]

/-! ### Along the last axis -/

/-- The new axis of a pair moved behind the axis of the positions. -/
theorem permute?_pair {m n : Nat} (ht : t.shape = [m, n, width]) :
    (pair 1 t u).permute? [0, 2, 1, 3] = some (pair 2 t u) := by
  have hshape : (pair 1 t u).shape = [m, 2, n, width] := by simp [ht]
  have hperm : [0, 2, 1, 3].isPerm (List.range (pair 1 t u).shape.length) = true := by
    rw [hshape]
    rfl
  rw [permute?, if_pos hperm, Option.some.injEq]
  have htwo : ([0, 2, 1, 3].map (pair 1 t u).lengthAt) = [m, n, 2, width] := by
    simp only [List.map_cons, List.map_nil, lengthAt, hshape]
    rfl
  refine ext_entry (by simp [htwo, ht]) fun index hindex => ?_
  rw [shape_ofFn, htwo] at hindex
  rw [entry_ofFn (by rwa [htwo]), hshape]
  simp only [List.forall₂_cons_right_iff, List.forall₂_nil_right_iff] at hindex
  obtain ⟨i, -, hi, ⟨k, -, hk, ⟨d, -, hd, ⟨j, -, hj, rfl, rfl⟩, rfl⟩, rfl⟩, rfl⟩ := hindex
  have hrest : List.Forall₂ (· < ·) [i, k, j] t.shape := by simp [ht, hi, hk, hj]
  have hfirst := @entry_pair t u 1 d [i, k, j] (by simp [ht]) hrest hd
  have hsecond := @entry_pair t u 2 d [i, k, j] (by simp [ht]) hrest hd
  exact hfirst.trans hsecond.symm

/-- A reshape that copies two lengths and takes the last two axes together. -/
theorem reshapedLengths?_lastTwo {m n k : Nat} (hm : m ≠ 0) (hn : n ≠ 0) :
    reshapedLengths? [m, n, k, width] [0, 0, -1] = some [m, n, k * width] := by
  have hasked : [(0, 0), (0, 1), (-1, 2)].mapM
      (fun p : Int × Nat => askedLength? [m, n, k, width] p.1 p.2) =
        some [some m, some n, none] := rfl
  have hgiven : numel ([some m, some n, none].filterMap id) = m * n := by simp
  have hpos : 0 < m * n := Nat.mul_pos (Nat.pos_of_ne_zero hm) (Nat.pos_of_ne_zero hn)
  have htotal : numel [m, n, k, width] = m * n * (k * width) := by simp [Nat.mul_assoc]
  have hone : [some m, some n, none].count none = 1 := by simp
  rw [reshapedLengths?, show ([0, 0, -1] : List Int).zipIdx = [(0, 0), (0, 1), (-1, 2)] from rfl,
    hasked, Option.bind_eq_bind, Option.bind_some, hgiven, hone, htotal]
  dsimp only
  rw [Nat.mul_div_cancel_left _ hpos, guard, if_pos (.inr ⟨rfl, Nat.ne_of_gt hpos⟩)]
  rfl

/-- The last two axes of a pair taken together are the tensors laid end to end. -/
theorem reshape?_pair {m n : Nat} (ht : t.shape = [m, n, width]) (hu : u.shape = t.shape)
    (hm : m ≠ 0) (hn : n ≠ 0) :
    (pair 2 t u).reshape? [0, 0, -1] = concat? 2 [t, u] := by
  have hshape : (pair 2 t u).shape = [m, n, 2, width] := by simp [ht]
  have hlast : t.lengthAt 2 = width ∧ u.lengthAt 2 = width := by simp [lengthAt, ht, hu]
  have hconcat : concat? 2 [t, u] = some (ofFn [m, n, 2 * width] fun index =>
      entryOf 2 index [t, u] (index.getD 2 0)) := by
    simp [concat?, hlast, ht, hu, Nat.two_mul]
  have hnumel : (pair 2 t u).entries.length = numel [m, n, 2 * width] := by
    rw [(pair 2 t u).length_entries, hshape]
    simp
  have hequal : (⟨[m, n, 2 * width], (pair 2 t u).entries, hnumel⟩ : Grid) =
      ofFn [m, n, 2 * width] fun index => entryOf 2 index [t, u] (index.getD 2 0) := by
    refine ext_entry rfl fun index hindex => ?_
    rw [entry_ofFn hindex]
    simp only [List.forall₂_cons_right_iff, List.forall₂_nil_right_iff] at hindex
    obtain ⟨i, -, hi, ⟨k, -, hk, ⟨p, -, hp, rfl, rfl⟩, rfl⟩, rfl⟩ := hindex
    -- The element at position `p` is one of the first tensor, or one of the second.
    have hentry : ∀ d j, d < 2 → j < width → p = d * width + j →
        (⟨[m, n, 2 * width], (pair 2 t u).entries, hnumel⟩ : Grid).entry [i, k, p] =
          (if d = 0 then t else u).entry [i, k, j] := by
      intro d j hd hj hpos
      have hrest : List.Forall₂ (· < ·) [i, k, j] t.shape := by simp [ht, hi, hk, hj]
      rw [← @entry_pair t u 2 d [i, k, j] (by simp [ht]) hrest hd]
      have hplace : position [m, n, 2 * width] [i, k, p] = position [m, n, 2, width] [i, k, d, j] := by
        simp [position, hpos]
      rw [entry, entry, hplace, hshape]
      rfl
    show _ = if p < t.lengthAt 2 then t.entry [i, k, p]
      else if p - t.lengthAt 2 < u.lengthAt 2 then u.entry [i, k, p - t.lengthAt 2] else default
    rw [hlast.1, hlast.2]
    by_cases hlt : p < width
    · rw [if_pos hlt, hentry 0 p (by decide) hlt (by omega), if_pos rfl]
    · rw [if_neg hlt, if_pos (by omega), hentry 1 (p - width) (by decide) (by omega) (by omega),
        if_neg (by decide)]
  rw [reshape?, hshape, reshapedLengths?_lastTwo hm hn, hconcat, ← hequal]
  exact withShape?_eq_some.2 ⟨rfl, rfl⟩

end Grid

namespace Interpretation

/-- Concatenation lays the operands end to end along the axis that an attribute names. -/
def Concats (I : Interpretation) : Prop :=
  ∀ a axis t rest, a.get? "axis" = some (.int axis) → I .concat a (t :: rest) = do
    return [← Grid.concat? (← (normalizeAxis axis t.shape.length).toOption) (t :: rest)]

/-- Splitting cuts the operand into as many equal parts as an attribute says. -/
def Splits (I : Interpretation) : Prop :=
  ∀ a axis parts t, a.get? "axis" = some (.int axis) → a.get? "num_splits" = some (.int parts) →
    I .split a [t] = do t.split? (← (normalizeAxis axis t.shape.length).toOption) parts.toNat

end Interpretation

end Dataflow
