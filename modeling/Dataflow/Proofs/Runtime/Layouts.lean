import Dataflow.Proofs.Runtime.Evaluation
import Dataflow.Proofs.Runtime.Shapes
import Mathlib.Data.List.InsertIdx

/-!
# True layouts of results

The layout that is declared for the result of a shape-changing operation is true of the result, when
the declared layout of the operand is true.  A layout is true of a tensor if its shape is right and
the lengths are signed words.

## Main statements

* `Layout.admits_iff`, `Layout.admits_iff_agrees` : true layouts by dimensions, and by shapes.
* `Layout.admits_insertAxis`, `Layout.admits_of_insertAxis`, `Layout.admits_permute`,
  `Layout.admits_reshape_lastTwo` : results.
* `Layout.admits_setDim`, `Layout.admits_part` : a tensor that has another length on one axis.
-/

namespace Dataflow

theorem Dim.admits_iff {d : Dim} {n : Nat} :
    d.admits n = true ↔ n < 2 ^ 63 ∧ ∀ m, d = .known m → m = n := by
  cases d <;> simp [admits]

theorem Dim.admits_add {d e : Dim} {m n : Nat} (hd : d.admits m = true) (he : e.admits n = true)
    (hlt : m + n < 2 ^ 63) : (d.add e).admits (m + n) = true :=
  admits_iff.2 ⟨hlt, Agrees.add (admits_iff.1 hd).2 (admits_iff.1 he).2
    (Nat.lt_trans hlt (by decide))⟩

/-- Dimensions that are true one by one make a shape that is right, of lengths that are words. -/
theorem Shape.forall₂_admits_iff {s : Shape} {lengths : List Nat} :
    List.Forall₂ (fun d n => Dim.admits d n = true) s.dims lengths ↔
      s.Agrees lengths ∧ ∀ n ∈ lengths, n < 2 ^ 63 := by
  constructor
  · intro h
    refine ⟨h.imp fun _ _ hd => (Dim.admits_iff.1 hd).2, fun n hn => ?_⟩
    obtain ⟨i, hi⟩ := List.mem_iff_getElem?.1 hn
    obtain ⟨d, -, hd⟩ := exists_of_forall₂_right h hi
    exact (Dim.admits_iff.1 hd).1
  · rintro ⟨hagrees, hlt⟩
    refine List.forall₂_iff_get.2 ⟨List.Forall₂.length_eq hagrees, fun i hi hi' => ?_⟩
    exact Dim.admits_iff.2 ⟨hlt _ (List.getElem_mem hi'), (List.forall₂_iff_get.1 hagrees).2 i hi hi'⟩

namespace Layout

variable {l l' : Layout} {t u : Grid} {axis : Nat}

theorem admits_iff : l.admits t = true ↔
    List.Forall₂ (fun d n => d.admits n = true) l.shape.dims t.shape := by
  have hlengths : ∀ dims lengths, admitsLengths dims lengths = true ↔
      List.Forall₂ (fun d n => d.admits n = true) dims lengths := by
    intro dims
    induction dims with
    | nil => intro lengths; cases lengths <;> simp [admitsLengths]
    | cons d dims ih => intro lengths; cases lengths <;> simp [admitsLengths, ih]
  exact hlengths l.shape.dims t.shape

theorem admits_iff_agrees : l.admits t = true ↔
    l.shape.Agrees t.shape ∧ ∀ n ∈ t.shape, n < 2 ^ 63 :=
  admits_iff.trans Shape.forall₂_admits_iff

theorem lt_of_admits (h : l.admits t = true) {n : Nat} (hn : n ∈ t.shape) : n < 2 ^ 63 :=
  (admits_iff_agrees.1 h).2 n hn

theorem length_of_admits (h : l.admits t = true) : t.shape.length = l.shape.rank :=
  (admits_iff_agrees.1 h).1.length_eq

/-- A constant has the shape that is declared for it. -/
theorem admits_grid {c : Tensor} (h : ∀ n ∈ c.shape, n < 2 ^ 63) (type : ElementType) :
    (planar c.partialShape type).admits c.grid = true :=
  admits_iff_agrees.2 ⟨Shape.agrees_ofLengths c.shape, h⟩

theorem admits_vector {d : Dim} {words : List Int} (h : d.admits words.length = true)
    (type : ElementType) : (planar ⟨[d]⟩ type).admits (.vector words) = true :=
  admits_iff.2 (.cons h .nil)

theorem forall₂_insertAxis_of_admits (h : axis ≤ t.shape.length) (ht : l.admits t = true) :
    List.Forall₂ (fun d n => Dim.admits d n = true) (l.shape.insertAxis axis (.known 1)).dims
      (t.insertAxis axis).shape := by
  obtain ⟨hshape, hlt⟩ := admits_iff_agrees.1 ht
  refine Shape.forall₂_admits_iff.2 ⟨?_, fun n hn => ?_⟩
  · rw [Grid.shape_insertAxis]
    exact hshape.insertAxis h (Dim.agrees_known.2 rfl)
  · rw [Grid.shape_insertAxis] at hn
    obtain rfl | hn := List.eq_or_mem_of_mem_insertIdx hn
    · decide
    · exact hlt n hn

theorem admits_insertAxis (hl : l.unsqueeze axis = .ok l') (ht : l.admits t = true) :
    axis ≤ t.shape.length ∧ l'.admits (t.insertAxis axis) = true := by
  obtain ⟨hlen, hagrees⟩ := agrees_unsqueeze (admits_iff_agrees.1 ht).1 hl
  rw [← Grid.shape_insertAxis] at hagrees
  have hlt := (Shape.forall₂_admits_iff.1 (forall₂_insertAxis_of_admits hlen ht)).2
  exact ⟨hlen, admits_iff_agrees.2 ⟨hagrees, hlt⟩⟩

/-- A tensor that has another length on one axis only. -/
theorem admits_setDim {d : Dim} {m n : Nat} {shape : List Nat} (h : axis ≤ shape.length)
    (hshape : t.shape = shape.insertIdx axis m) (hu : u.shape = shape.insertIdx axis n)
    (ht : l.admits t = true) (hd : d.admits n = true) (type : ElementType) :
    (planar (l.shape.setDim axis d) type).admits u = true := by
  have hall := forall₂_set (admits_iff.1 ht) axis hd
  rw [hshape, set_insertIdx h, ← hu] at hall
  exact admits_iff.2 hall

theorem admits_getElem? (ht : l.admits t = true) {d : Dim} {n : Nat} (hd : l.shape.dim? axis = some d)
    (hn : t.shape[axis]? = some n) : d.admits n = true := by
  obtain ⟨m, hm, hadmits⟩ := exists_of_forall₂_left (admits_iff.1 ht) hd
  rwa [Option.some.inj (hn.symm.trans hm)]

/-- One of the equal parts along an axis. -/
theorem admits_part {shape : List Nat} {parts n : Nat} (hparts : 0 < parts) (h : axis ≤ shape.length)
    (hshape : t.shape = shape.insertIdx axis (parts * n)) (hu : u.shape = shape.insertIdx axis n)
    (hl : l.part axis parts = .ok l') (ht : l.admits t = true) : l'.admits u = true := by
  obtain ⟨hagrees, hlt⟩ := admits_iff_agrees.1 ht
  have hlen : t.shape[axis]? = some (parts * n) := by
    rw [hshape, List.getElem?_insertIdx_self, if_pos h]
  refine admits_iff_agrees.2 ⟨?_, fun m hm => ?_⟩
  · have hpart := agrees_part hagrees hl hparts hlen
    rwa [hshape, set_insertIdx h, ← hu] at hpart
  · rw [hu] at hm
    obtain rfl | hm := List.eq_or_mem_of_mem_insertIdx hm
    · exact Nat.lt_of_le_of_lt (Nat.le_mul_of_pos_left m hparts)
        (hlt _ (List.mem_of_getElem? hlen))
    · exact hlt m (hshape ▸ (List.mem_insertIdx h).2 (.inr hm))

theorem forall₂_of_admits_insertAxis (ht : l.admits (t.insertAxis axis) = true) :
    List.Forall₂ (fun d n => d.admits n = true) (l.shape.dims.eraseIdx axis) t.shape := by
  obtain ⟨hshape, hlt⟩ := admits_iff_agrees.1 ht
  rw [Grid.shape_insertAxis] at hshape hlt
  have hdrop := hshape.dropAxis axis
  have hsame : (t.shape.insertIdx axis 1).eraseIdx axis = t.shape := List.eraseIdx_insertIdx_self 1
  rw [hsame] at hdrop
  exact Shape.forall₂_admits_iff.2 ⟨hdrop, fun n hn =>
    hlt n (List.mem_of_mem_eraseIdx (hsame.symm ▸ hn))⟩

theorem admits_of_insertAxis (hl : l.squeeze axis = .ok l')
    (ht : l.admits (t.insertAxis axis) = true) : l'.admits t = true := by
  have hlt := (Shape.forall₂_admits_iff.1 (forall₂_of_admits_insertAxis ht)).2
  have hsqueeze := agrees_squeeze (admits_iff_agrees.1 ht).1 hl
  rw [Grid.shape_insertAxis, List.eraseIdx_insertIdx_self] at hsqueeze
  exact admits_iff_agrees.2 ⟨hsqueeze, hlt⟩

theorem admits_permute {order : List Nat} (hl : l.transpose order = .ok l')
    (ht : l.admits t = true) (hu : t.permute? order = some u) : l'.admits u = true := by
  obtain ⟨hagrees, hlt⟩ := admits_iff_agrees.1 ht
  have hlengths := Grid.shape_of_permute? hu
  refine admits_iff_agrees.2 ⟨agrees_transpose hagrees hl hlengths, fun n hn => ?_⟩
  obtain ⟨i, hi⟩ := List.mem_iff_getElem?.1 hn
  obtain ⟨j, -, hj⟩ := exists_of_forall₂_right hlengths hi
  exact hlt n (List.mem_of_getElem? hj)

/-- Two lengths are copied, and the last two axes are taken together.  The number of elements is a
word. -/
theorem admits_reshape_lastTwo {m n k width : Nat} (hl : l.reshape [0, 0, -1] = .ok l')
    (ht : l.admits t = true) (hshape : t.shape = [m, n, k, width]) (hlt : k * width < 2 ^ 63)
    (hcount : numel t.shape < 2 ^ 64) (hu : u.shape = [m, n, k * width]) : l'.admits u = true := by
  obtain ⟨hagrees, hwords⟩ := admits_iff_agrees.1 ht
  have hreshapes : Reshapes t.shape [0, 0, -1] u.shape := by
    rw [hshape, hu]
    refine ⟨?_, rfl, fun i j hi hj => ?_, fun i a j hi hzero hneg hj => ?_⟩
    · simp only [numel_cons, numel_nil, Nat.mul_one]
    · match i with
      | 0 | 1 => exact hj
      | 2 => simp at hi
    · match i with
      | 0 | 1 => exact absurd (Option.some.inj hi).symm hzero
      | 2 => exact absurd (Option.some.inj hi).symm hneg
  refine admits_iff_agrees.2 ⟨agrees_reshape hagrees hl hreshapes fun _ _ => hcount, ?_⟩
  rw [hshape] at hwords
  rw [hu]
  simp only [List.forall_mem_cons] at hwords ⊢
  exact ⟨hwords.1, hwords.2.1, hlt, by simp⟩

/-- Known dimensions leave no choice of lengths. -/
theorem eq_of_known {dims : List Dim} {m n : List Nat}
    (hm : List.Forall₂ (fun d n => Dim.admits d n = true) dims m)
    (hn : List.Forall₂ (fun d n => Dim.admits d n = true) dims n)
    (hcount : dims.count .unknown = 0) : m = n := by
  induction hm generalizing n with
  | nil =>
    cases hn
    rfl
  | @cons d a dims rest ha hrest ih =>
    obtain ⟨b, rest', hb, hrest', rfl⟩ := List.forall₂_cons_left_iff.1 hn
    cases d with
    | known k =>
      obtain rfl := (Dim.admits_iff.1 ha).2 k rfl
      obtain rfl := (Dim.admits_iff.1 hb).2 k rfl
      rw [ih hrest' (by simpa using hcount)]
    | unknown => simp at hcount

/-- With at most one dimension unknown, the lengths are known from the number of elements, unless
there are none. -/
theorem eq_of_numel_eq {dims : List Dim} {m n : List Nat}
    (hm : List.Forall₂ (fun d n => Dim.admits d n = true) dims m)
    (hn : List.Forall₂ (fun d n => Dim.admits d n = true) dims n)
    (hcount : dims.count .unknown ≤ 1) (hnumel : numel m = numel n) (hzero : 0 ∉ m) : m = n := by
  induction hm generalizing n with
  | nil =>
    cases hn
    rfl
  | @cons d a dims rest ha hrest ih =>
    obtain ⟨b, rest', hb, hrest', rfl⟩ := List.forall₂_cons_left_iff.1 hn
    rw [List.mem_cons, not_or] at hzero
    rw [numel_cons, numel_cons] at hnumel
    cases d with
    | known k =>
      obtain rfl := (Dim.admits_iff.1 ha).2 k rfl
      obtain rfl := (Dim.admits_iff.1 hb).2 k rfl
      have hpos : 0 < k := Nat.pos_of_ne_zero fun h => hzero.1 h.symm
      rw [ih hrest' (by simpa using hcount) (Nat.eq_of_mul_eq_mul_left hpos hnumel) hzero.2]
    | unknown =>
      -- The other dimensions are known, so this length is what is left.
      have hknown : dims.count .unknown = 0 := by
        rw [List.count_cons_self] at hcount
        omega
      obtain rfl := eq_of_known hrest hrest' hknown
      have hpos : 0 < numel rest := Nat.pos_of_ne_zero fun h => hzero.2 (mem_of_numel_eq_zero h)
      rw [Nat.eq_of_mul_eq_mul_right hpos hnumel]

end Layout

end Dataflow
