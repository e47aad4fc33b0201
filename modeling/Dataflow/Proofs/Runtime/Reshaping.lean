import Dataflow.Proofs.Runtime.Grid
import Dataflow.Shape.Axis

/-!
# Moving the elements of a tensor

What the operations that move elements around do to a tensor at run time: axes of length one that
come and go, other lengths, another order of the axes, parts, and parts laid end to end.  None of
them computes a new element.

## Main definitions

* `Grid.insertAxis`, `Grid.dropAxis?` : one axis of length one.
* `Grid.transpose?`, `Grid.slice?`, `Grid.select?`, `Grid.concat?`, `Grid.broadcast?` : elements
  at other indices.
* `Grid.squeeze?`, `Grid.unsqueeze?`, `Grid.reshape?` : the operations on a list of integers.

## Main statements

* `Grid.entry_insertAxis` : where the elements come from when an axis is inserted.
* `Grid.slice?_one`, `Grid.concat?_insertAxis` : an axis cut into layers, and made of layers.
-/

namespace Dataflow

/-! ### Indices with one more entry -/

section InsertIdx

variable {shape index : List Nat} {axis i n : Nat}

theorem numel_insertIdx (h : axis ≤ shape.length) :
    numel (shape.insertIdx axis n) = n * numel shape := by
  induction axis generalizing shape with
  | zero => rw [List.insertIdx_zero, numel_cons]
  | succ axis ih =>
    cases shape with
    | nil => simp at h
    | cons m shape =>
      rw [List.insertIdx_succ_cons, numel_cons, ih (Nat.le_of_succ_le_succ h), numel_cons,
        Nat.mul_left_comm]

/-- An index on an axis of length one is zero there, and does not move the element. -/
theorem position_insertIdx (h : axis ≤ shape.length) (hlen : index.length = shape.length) :
    position (shape.insertIdx axis 1) (index.insertIdx axis 0) = position shape index := by
  induction axis generalizing shape index with
  | zero => simp [position]
  | succ axis ih =>
    obtain _ | ⟨n, shape⟩ := shape
    · simp at h
    · obtain _ | ⟨i, index⟩ := index
      · simp at hlen
      have h := Nat.le_of_succ_le_succ h
      rw [List.insertIdx_succ_cons, List.insertIdx_succ_cons, position, position,
        ih h (Nat.succ.inj hlen), numel_insertIdx h, Nat.one_mul]

theorem forall₂_insertIdx (hindex : List.Forall₂ (· < ·) index shape) (hi : i < n)
    (h : axis ≤ shape.length) :
    List.Forall₂ (· < ·) (index.insertIdx axis i) (shape.insertIdx axis n) := by
  induction axis generalizing shape index with
  | zero => exact .cons hi hindex
  | succ axis ih =>
    cases hindex with
    | nil => simp at h
    | cons hj hindex => exact .cons hj (ih hindex (Nat.le_of_succ_le_succ h))

theorem exists_of_forall₂_insertIdx (h : axis ≤ shape.length)
    (hindex : List.Forall₂ (· < ·) index (shape.insertIdx axis n)) :
    ∃ rest i, index = rest.insertIdx axis i ∧ i < n ∧ List.Forall₂ (· < ·) rest shape := by
  induction axis generalizing shape index with
  | zero =>
    rw [List.insertIdx_zero] at hindex
    obtain ⟨i, rest, hi, hrest, rfl⟩ := List.forall₂_cons_right_iff.1 hindex
    exact ⟨rest, i, rfl, hi, hrest⟩
  | succ axis ih =>
    cases shape with
    | nil => simp at h
    | cons m shape =>
      rw [List.insertIdx_succ_cons] at hindex
      obtain ⟨j, later, hj, hlater, rfl⟩ := List.forall₂_cons_right_iff.1 hindex
      obtain ⟨rest, i, rfl, hi, hrest⟩ := ih (Nat.le_of_succ_le_succ h) hlater
      exact ⟨j :: rest, i, rfl, hi, .cons hj hrest⟩

theorem modify_insertIdx {f : Nat → Nat} (h : axis ≤ index.length) :
    (index.insertIdx axis i).modify axis f = index.insertIdx axis (f i) := by
  induction axis generalizing index with
  | zero => simp
  | succ axis ih =>
    cases index with
    | nil => simp at h
    | cons j index => simp [ih (Nat.le_of_succ_le_succ h)]

theorem set_insertIdx (h : axis ≤ index.length) :
    (index.insertIdx axis i).set axis n = index.insertIdx axis n := by
  induction axis generalizing index with
  | zero => simp
  | succ axis ih =>
    cases index with
    | nil => simp at h
    | cons j index => simp [ih (Nat.le_of_succ_le_succ h)]

theorem insertIdx_eq_take_drop {α : Type} {l : List α} {a : α} (h : axis ≤ l.length) :
    l.insertIdx axis a = l.take axis ++ a :: l.drop axis := by
  induction axis generalizing l with
  | zero => simp
  | succ axis ih =>
    cases l with
    | nil => simp at h
    | cons b l => simp [ih (Nat.le_of_succ_le_succ h)]

/-- Removing an entry and putting it back. -/
theorem insertIdx_eraseIdx_of_getElem? {α : Type} {l : List α} {a : α} (h : l[axis]? = some a) :
    (l.eraseIdx axis).insertIdx axis a = l := by
  induction axis generalizing l with
  | zero => cases l <;> simp_all
  | succ axis ih => cases l <;> simp_all

/-- The number of elements is the length on one axis times the number of elements of a layer. -/
theorem numel_set (n : Nat) (h : axis < shape.length) :
    numel (shape.set axis n) = n * numel (shape.eraseIdx axis) := by
  have hlen : axis ≤ (shape.eraseIdx axis).length := by
    rw [List.length_eraseIdx_of_lt h]
    omega
  have hset : shape.set axis n = (shape.eraseIdx axis).insertIdx axis n := by
    rw [← set_insertIdx hlen, insertIdx_eraseIdx_of_getElem? (List.getElem?_eq_getElem h)]
  rw [hset, numel_insertIdx hlen]

end InsertIdx

namespace Grid

variable {t u : Grid} {shape index : List Nat} {axis start length : Nat}

/-! ### Axes of length one -/

/-- The tensor with a new axis of length one. -/
def insertAxis (t : Grid) (axis : Nat) : Grid where
  shape := t.shape.insertIdx axis 1
  entries := t.entries
  length_entries := by
    rw [t.length_entries]
    obtain h | h := Nat.lt_or_ge t.shape.length axis
    · rw [List.insertIdx_of_length_lt h]
    · rw [numel_insertIdx h, Nat.one_mul]

/-- The tensor with the given lengths and the same elements, if there are as many. -/
def withShape? (t : Grid) (shape : List Nat) : Option Grid :=
  if h : numel t.shape = numel shape then some ⟨shape, t.entries, t.length_entries.trans h⟩ else none

/-- The tensor without an axis, which must have length one. -/
def dropAxis? (t : Grid) (axis : Nat) : Option Grid :=
  if t.shape[axis]? = some 1 then t.withShape? (t.shape.eraseIdx axis) else none

@[simp] theorem shape_insertAxis (t : Grid) (axis : Nat) :
    (t.insertAxis axis).shape = t.shape.insertIdx axis 1 :=
  rfl

theorem entry_insertAxis (h : axis ≤ t.shape.length) (hlen : index.length = t.shape.length) :
    (t.insertAxis axis).entry (index.insertIdx axis 0) = t.entry index := by
  rw [entry, entry, insertAxis, position_insertIdx h hlen]

theorem withShape?_eq_some : t.withShape? shape = some u ↔ u.shape = shape ∧ u.entries = t.entries := by
  obtain ⟨ushape, uentries, hlen⟩ := u
  unfold withShape?
  split
  · next h =>
    simp only [Option.some.injEq, mk.injEq]
    exact and_congr eq_comm eq_comm
  · next h =>
    simp only [reduceCtorEq, false_iff, not_and]
    rintro rfl rfl
    exact h (t.length_entries.symm.trans hlen)

theorem eq_insertAxis (hshape : t.shape = u.shape.insertIdx axis 1) (hentries : t.entries = u.entries) :
    t = u.insertAxis axis := by
  cases t
  simp only [insertAxis, mk.injEq]
  exact ⟨hshape, hentries⟩

theorem dropAxis?_insertAxis (h : axis ≤ t.shape.length) :
    (t.insertAxis axis).dropAxis? axis = some t := by
  rw [dropAxis?, if_pos, withShape?_eq_some]
  · exact ⟨(List.eraseIdx_insertIdx_self 1).symm, rfl⟩
  · rw [insertAxis, List.getElem?_insertIdx_self]
    exact if_pos h

theorem eq_insertAxis_of_dropAxis? (h : t.dropAxis? axis = some u) :
    axis ≤ u.shape.length ∧ t = u.insertAxis axis := by
  unfold dropAxis? at h
  split at h
  · next hone =>
    obtain ⟨hshape, hentries⟩ := withShape?_eq_some.1 h
    obtain ⟨hlt, -⟩ := List.getElem?_eq_some_iff.1 hone
    refine ⟨?_, eq_insertAxis ?_ hentries.symm⟩
    · rw [hshape, List.length_eraseIdx_of_lt hlt]
      exact Nat.le_sub_one_of_lt hlt
    · rw [hshape, insertIdx_eraseIdx_of_getElem? hone]
  · simp at h

theorem insertIdx_append_singleton {i j : Nat} (h : axis ≤ index.length) :
    (index ++ [j]).insertIdx axis i = index.insertIdx axis i ++ [j] := by
  rw [insertIdx_eq_take_drop h, insertIdx_eq_take_drop (by simp; omega),
    List.take_append_of_le_length h, List.drop_append_of_le_length h, List.append_assoc,
    List.cons_append]

/-- The rows of a tensor with a new axis before the last one. -/
theorem row_insertAxis {lead : List Nat} {width : Nat} (hshape : t.shape = lead ++ [width])
    (h : axis ≤ lead.length) (hlen : index.length = lead.length) :
    (t.insertAxis axis).row (index.insertIdx axis 0) = t.row index := by
  have hinsert : (t.insertAxis axis).shape = lead.insertIdx axis 1 ++ [width] := by
    rw [shape_insertAxis, hshape, insertIdx_append_singleton h]
  rw [row_eq hinsert, row_eq hshape]
  refine List.map_congr_left fun j _ => ?_
  rw [← insertIdx_append_singleton (by rwa [hlen])]
  exact entry_insertAxis (by simp [hshape]; omega) (by simp [hshape, hlen])

/-! ### Parts, and parts laid end to end -/

/-- The part of the given length along an axis, from position `start` on. -/
def slice? (t : Grid) (axis start length : Nat) : Option Grid :=
  if (t.shape[axis]?).any (start + length ≤ ·) then
    some (ofFn (t.shape.set axis length) fun index => t.entry (index.modify axis (start + ·)))
  else none

/-- The part at one position of an axis, without the axis. -/
def layer (t : Grid) (axis position : Nat) : Grid :=
  ofFn (t.shape.eraseIdx axis) fun index => t.entry (index.insertIdx axis position)

theorem entry_layer {position : Nat} (h : List.Forall₂ (· < ·) index (t.shape.eraseIdx axis)) :
    (t.layer axis position).entry index = t.entry (index.insertIdx axis position) :=
  entry_ofFn h

/-- The length of a tensor along an axis. -/
def lengthAt (t : Grid) (axis : Nat) : Nat :=
  t.shape.getD axis 0

/-- The element at position `i` of the axis, among parts laid end to end along it. -/
def entryOf (axis : Nat) (index : List Nat) : (parts : List Grid) → (i : Nat) → Scalar
  | [], _ => default
  | t :: rest, i =>
    if i < t.lengthAt axis then t.entry (index.set axis i)
    else entryOf axis index rest (i - t.lengthAt axis)

/-- The tensors laid end to end along an axis.  They agree on the other axes. -/
def concat? (axis : Nat) (parts : List Grid) : Option Grid := do
  let first ← parts.head?
  if axis < first.shape.length ∧
      parts.all fun t => t.shape = first.shape.set axis (t.lengthAt axis) then
    some (ofFn (first.shape.set axis (parts.map (·.lengthAt axis)).sum) fun index =>
      entryOf axis index parts (index.getD axis 0))
  else none

theorem shape_of_concat? {rest : List Grid} (h : concat? axis (t :: rest) = some u) :
    axis < t.shape.length ∧
      u.shape = t.shape.set axis ((t :: rest).map (·.lengthAt axis)).sum := by
  simp only [concat?, List.head?_cons, Option.bind_eq_bind, Option.bind_some] at h
  split at h
  · next hfit =>
    obtain rfl := Option.some.inj h
    exact ⟨hfit.1, rfl⟩
  · simp at h

theorem getElem?_lengthAt (h : t.lengthAt axis ≠ 0) : t.shape[axis]? = some (t.lengthAt axis) := by
  rw [lengthAt, List.getD_eq_getElem?_getD] at h ⊢
  cases hget : t.shape[axis]? with
  | none => simp [hget] at h
  | some n => rfl

/-- The part of length one at one position of an axis. -/
theorem slice?_one {p : Nat} (hp : p < t.lengthAt axis) :
    t.slice? axis p 1 = some ((t.layer axis p).insertAxis axis) := by
  have hlen : t.shape[axis]? = some (t.lengthAt axis) := 
    getElem?_lengthAt (Nat.ne_of_gt (Nat.lt_of_le_of_lt (Nat.zero_le p) hp))
  have hlt : axis < t.shape.length := (List.getElem?_eq_some_iff.1 hlen).1
  have hshape := insertIdx_eraseIdx_of_getElem? hlen
  have h : axis ≤ (t.shape.eraseIdx axis).length := by
    rw [List.length_eraseIdx_of_lt hlt]
    omega
  have hset : t.shape.set axis 1 = (t.shape.eraseIdx axis).insertIdx axis 1 := by
    conv_lhs => rw [← hshape]
    exact set_insertIdx h
  rw [slice?, hlen, if_pos (by rw [Option.any_some, decide_eq_true_eq]; omega), hset, Option.some.injEq]
  refine ext_entry rfl fun index hindex => ?_
  obtain ⟨rest, i, rfl, hi, hrest⟩ := exists_of_forall₂_insertIdx h hindex
  obtain rfl : i = 0 := Nat.lt_one_iff.1 hi
  have hrank : axis ≤ rest.length := by rwa [hrest.length_eq]
  rw [shape_ofFn] at hindex
  rw [entry_ofFn hindex, modify_insertIdx hrank, entry_insertAxis h hrest.length_eq, layer,
    entry_ofFn hrest, Nat.add_zero]

theorem entryOf_insertAxis {parts : List Grid} {k : Nat} (hk : parts[k]? = some t)
    (hparts : ∀ u ∈ parts, u.shape = shape) (h : axis ≤ shape.length)
    (hindex : List.Forall₂ (· < ·) index shape) (i : Nat) :
    entryOf axis (index.insertIdx axis i) (parts.map (·.insertAxis axis)) k = t.entry index := by
  have hrank : axis ≤ index.length := by rwa [hindex.length_eq]
  induction parts generalizing k with
  | nil => simp at hk
  | cons u rest ih =>
    have hu := hparts u List.mem_cons_self
    have hone : (u.insertAxis axis).lengthAt axis = 1 := by
      simp [lengthAt, insertAxis, hu, List.getElem?_insertIdx_self, h]
    rw [List.map_cons, entryOf, hone, set_insertIdx hrank]
    cases k with
    | zero =>
      obtain rfl : u = t := by simpa using hk
      rw [if_pos Nat.one_pos, entry_insertAxis (by rwa [hu]) (by rw [hu, hindex.length_eq])]
    | succ k =>
      rw [if_neg (by omega), Nat.add_sub_cancel]
      exact ih (by simpa using hk) fun v hv => hparts v (List.mem_cons_of_mem _ hv)

/-- Tensors of one shape, each laid out at one position of a new axis. -/
theorem concat?_insertAxis {parts : List Grid} (hne : parts ≠ [])
    (hparts : ∀ u ∈ parts, u.shape = shape) (h : axis ≤ shape.length) :
    ∃ t, concat? axis (parts.map (·.insertAxis axis)) = some t ∧
      t.shape = shape.insertIdx axis parts.length ∧
        ∀ k u index, parts[k]? = some u → List.Forall₂ (· < ·) index shape →
          t.entry (index.insertIdx axis k) = u.entry index := by
  obtain ⟨first, hfirst⟩ : ∃ first, parts.head? = some first := by
    cases parts with
    | nil => exact absurd rfl hne
    | cons first rest => exact ⟨first, rfl⟩
  have hshape : ∀ u ∈ parts, (u.insertAxis axis).shape = shape.insertIdx axis 1 := fun u hu => by
    rw [shape_insertAxis, hparts u hu]
  have hone : ∀ u ∈ parts, (u.insertAxis axis).lengthAt axis = 1 := fun u hu => by
    rw [lengthAt, hshape u hu, List.getD_eq_getElem?_getD, List.getElem?_insertIdx_self, if_pos h]
    rfl
  have hsum : ((parts.map (·.insertAxis axis)).map (·.lengthAt axis)).sum = parts.length := by
    rw [List.map_map, List.map_congr_left (g := fun _ => 1) (by simpa using hone)]
    simp
  have hset : ∀ n, (first.insertAxis axis).shape.set axis n = shape.insertIdx axis n := fun n => by
    rw [hshape first (List.mem_of_head? hfirst), set_insertIdx h]
  have hsome : concat? axis (parts.map (·.insertAxis axis)) =
      some (ofFn (shape.insertIdx axis parts.length) fun index =>
        entryOf axis index (parts.map (·.insertAxis axis)) (index.getD axis 0)) := by
    rw [concat?, List.head?_map, hfirst]
    simp only [Option.map_some, Option.bind_eq_bind, Option.bind_some]
    rw [if_pos, hsum, hset]
    constructor
    · rw [hshape first (List.mem_of_head? hfirst), List.length_insertIdx_of_le_length h]
      exact Nat.lt_succ_of_le h
    · rw [List.all_eq_true]
      intro v hv
      obtain ⟨u, hu, rfl⟩ := List.mem_map.1 hv
      rw [hset, hone u hu, hshape u hu, decide_eq_true_eq]
  refine ⟨_, hsome, rfl, fun k u index hk hindex => ?_⟩
  have hlt : k < parts.length := (List.getElem?_eq_some_iff.1 hk).1
  have hget : (index.insertIdx axis k).getD axis 0 = k := by
    rw [List.getD_eq_getElem?_getD, List.getElem?_insertIdx_self,
      if_pos (by rwa [hindex.length_eq])]
    rfl
  rw [entry_ofFn (forall₂_insertIdx hindex hlt h), hget]
  exact entryOf_insertAxis hk hparts h hindex k

/-- The only layer along a new axis is the tensor itself. -/
theorem layer_insertAxis (h : axis ≤ t.shape.length) : (t.insertAxis axis).layer axis 0 = t := by
  have herase : (t.insertAxis axis).shape.eraseIdx axis = t.shape := List.eraseIdx_insertIdx_self 1
  refine ext_entry herase fun index hindex => ?_
  rw [layer, shape_ofFn] at hindex
  rw [entry_layer hindex]
  rw [herase] at hindex
  exact entry_insertAxis h hindex.length_eq

theorem layer_insertAxis_zero (t : Grid) : (t.insertAxis 0).layer 0 0 = t :=
  layer_insertAxis (Nat.zero_le _)

/-! ### Another order, and copies -/

/-- The tensor whose axis number `i` is axis number `order[i]`. -/
def permute? (t : Grid) (order : List Nat) : Option Grid :=
  if order.isPerm (List.range t.shape.length) then
    some (ofFn (order.map t.lengthAt) fun index =>
      t.entry ((List.range t.shape.length).map fun axis => index.getD (order.idxOf axis) 0))
  else none

/-- The tensor of the given positions along an axis. -/
def select? (t : Grid) (axis : Nat) (positions : List Nat) : Option Grid :=
  if axis < t.shape.length ∧ positions.all (· < t.lengthAt axis) then
    some (ofFn (t.shape.set axis positions.length) fun index =>
      t.entry (index.modify axis fun i => positions.getD i 0))
  else none

/-- The tensor copied along further axes in front of its own, and along those of length one. -/
def broadcast? (t : Grid) (shape : List Nat) : Option Grid :=
  let own := shape.drop (shape.length - t.shape.length)
  if t.shape.length ≤ shape.length ∧ (t.shape.zip own).all fun p => p.1 = 1 ∨ p.1 = p.2 then
    some (ofFn shape fun index =>
      t.entry ((t.shape.zip (index.drop (shape.length - t.shape.length))).map fun p =>
        if p.1 = 1 then 0 else p.2))
  else none

/-- The lengths of the axes that the order names. -/
theorem shape_of_permute? {order : List Nat} (h : t.permute? order = some u) :
    List.Forall₂ (fun i n => t.shape[i]? = some n) order u.shape := by
  unfold permute? at h
  split at h
  · next hperm =>
    obtain rfl := Option.some.inj h
    change List.Forall₂ _ order (order.map t.lengthAt)
    rw [List.forall₂_map_right_iff, List.forall₂_same]
    intro i hi
    have hlt : i < t.shape.length := List.mem_range.1 ((List.isPerm_iff.1 hperm).mem_iff.1 hi)
    rw [lengthAt, List.getD_eq_getElem?_getD, List.getElem?_eq_getElem hlt, Option.getD_some]
  · simp at h

/-- The first two axes of a tensor of rank three, exchanged. -/
theorem permute?_swap {m n width : Nat} (h : t.shape = [m, n, width]) :
    ∃ u, t.permute? [1, 0, 2] = some u ∧ u.shape = [n, m, width] ∧
      ∀ i j k, i < n → j < m → k < width → u.entry [i, j, k] = t.entry [j, i, k] := by
  have hperm : [1, 0, 2].isPerm (List.range t.shape.length) = true := by
    rw [h]
    rfl
  refine ⟨_, if_pos hperm, by simp [lengthAt, h], fun i j k hi hj hk => ?_⟩
  rw [entry_ofFn (by simp [lengthAt, h, hi, hj, hk]), h]
  rfl

/-! ### Lists of integers -/

@[simp] theorem shape_vector (words : List Int) : (vector words).shape = [words.length] :=
  rfl

theorem ints?_vector (words : List Int) : (vector words).ints? = some words := by
  have h : ∀ l : List Int, (l.map Scalar.word).mapM Scalar.toInt? = some l := by
    intro l
    induction l with
    | nil => rfl
    | cons n l ih =>
      rw [List.map_cons, List.mapM_cons, ih]
      rfl
  exact h words

theorem entry_vector {words : List Int} {i : Nat} {n : Int} (h : words[i]? = some n) :
    (vector words).entry [i] = .word n := by
  have hentries : (vector words).entries = words.map .word := rfl
  rw [entry, hentries, List.getD_eq_getElem?_getD]
  simp [position, h]

theorem eq_vector {words : List Int} (hshape : t.shape = [words.length])
    (h : ∀ i n, words[i]? = some n → t.entry [i] = .word n) : t = vector words := by
  refine ext_entry hshape fun index hindex => ?_
  rw [hshape] at hindex
  obtain ⟨i, rest, hi, hrest, rfl⟩ := List.forall₂_cons_right_iff.1 hindex
  obtain rfl := List.forall₂_nil_right_iff.1 hrest
  have hget := List.getElem?_eq_getElem hi
  rw [h i _ hget, entry_vector hget]

/-- One entry of a vector. -/
theorem select?_vector {words : List Int} {p : Nat} {n : Int} (h : words[p]? = some n) :
    (vector words).select? 0 [p] = some (vector [n]) := by
  have hlt := (List.getElem?_eq_some_iff.1 h).1
  rw [select?, if_pos (by simpa [lengthAt] using hlt), Option.some.injEq]
  refine eq_vector rfl fun i m hm => ?_
  obtain ⟨rfl, rfl⟩ : i = 0 ∧ n = m := by cases i <;> simp_all
  rw [entry_ofFn (by simp)]
  exact entry_vector h

/-- Copies of a number. -/
theorem broadcast?_vector (n : Int) (count : Nat) :
    (vector [n]).broadcast? [count] = some (vector (List.replicate count n)) := by
  rw [broadcast?, if_pos (by simp), Option.some.injEq]
  refine eq_vector (by simp) fun i m hm => ?_
  rw [List.getElem?_replicate] at hm
  split at hm
  · next hi =>
    obtain rfl := Option.some.inj hm
    rw [entry_ofFn (by simpa using hi)]
    exact entry_vector rfl
  · simp at hm

/-- The numbers of a list, if none is negative. -/
def naturals? (l : List Int) : Option (List Nat) :=
  l.mapM fun n => if 0 ≤ n then some n.toNat else none

/-- The axes that a list names, counted from the front. -/
def axes? (rank : Nat) (l : List Int) : Option (List Nat) :=
  l.mapM fun a => (normalizeAxis a rank).toOption

/-- The tensor without the named axes, which must have length one. -/
def squeeze? (t : Grid) (l : List Int) : Option Grid := do
  let axes ← axes? t.shape.length l
  axes.mergeSort.reverse.foldlM dropAxis? t

/-- The tensor with new axes of length one, named as they are counted in the result. -/
def unsqueeze? (t : Grid) (l : List Int) : Option Grid := do
  let axes ← axes? (t.shape.length + l.length) l
  return axes.mergeSort.foldl insertAxis t

/-- The length that the entry `t` of a reshape target asks for on axis number `i`: zero copies the
length there, and `-1` leaves the length open. -/
def askedLength? (shape : List Nat) (t : Int) (i : Nat) : Option (Option Nat) :=
  if t = 0 then (shape[i]?).map some
  else if t = -1 then some none
  else if 0 < t then some (some t.toNat)
  else none

/-- The lengths that a reshape target asks for.  One of them may be left open, when the other ones are
not zero: it is what they leave of the number of elements. -/
def reshapedLengths? (shape : List Nat) (target : List Int) : Option (List Nat) := do
  let asked ← target.zipIdx.mapM fun p => askedLength? shape p.1 p.2
  let given := numel (asked.filterMap id)
  guard (asked.count none = 0 ∨ asked.count none = 1 ∧ given ≠ 0)
  return asked.map (·.getD (numel shape / given))

/-- The tensor with the lengths that a target asks for. -/
def reshape? (t : Grid) (target : List Int) : Option Grid := do
  t.withShape? (← reshapedLengths? t.shape target)

/-- The tensor with its axes in the named order. -/
def transpose? (t : Grid) (l : List Int) : Option Grid := do
  t.permute? (← naturals? l)

theorem squeeze?_one {a : Int} (h : (normalizeAxis a t.shape.length).toOption = some axis) :
    t.squeeze? [a] = t.dropAxis? axis := by
  simp [squeeze?, axes?, h]

theorem unsqueeze?_one {a : Int} (h : (normalizeAxis a (t.shape.length + 1)).toOption = some axis) :
    t.unsqueeze? [a] = some (t.insertAxis axis) := by
  simp [unsqueeze?, axes?, h]

theorem naturals?_map (l : List Nat) : naturals? (l.map Int.ofNat) = some l := by
  induction l with
  | nil => rfl
  | cons n l ih =>
    simp only [naturals?, List.map_cons, List.mapM_cons] at ih ⊢
    simp [ih]

end Grid

end Dataflow
