import Dataflow.Tensor
import Mathlib.Algebra.Ring.Nat
import Mathlib.Data.List.Forall2
import Mathlib.Tactic.Common

/-!
# Tensors at run time

What a value of a graph is when the graph runs: lengths that are all known, and elements in
row-major order.  An element is found by an index, one number for every axis.

## Main definitions

* `Scalar`, `Grid` : an element, and a tensor at run time.
* `indices`, `position` : the indices of a shape in row-major order, and the place of an index.
* `Grid.entry`, `Grid.ofFn` : reading an element, and the tensor with given elements.
* `Grid.row`, `Grid.ofRows` : the elements along the last axis.

## Main statements

* `Grid.entry_ofFn`, `Grid.ext_entry` : a tensor is given by its elements.
* `Grid.row_ofRows`, `Grid.ext_row` : a tensor is given by its rows.
-/

namespace Dataflow

/-- An element of a tensor at run time. -/
inductive Scalar
  | single (x : Single)
  | word (n : Int)
deriving DecidableEq

namespace Scalar

instance : Inhabited Scalar :=
  ⟨word 0⟩

/-- The element as a signed word, if it is a whole number. -/
def toInt? : Scalar → Option Int
  | single x => if x.isIntegral then some x.toInt64 else none
  | word n => some n

end Scalar

/-! ### Indices -/

/-- The indices of a shape, in row-major order. -/
def indices : List Nat → List (List Nat)
  | [] => [[]]
  | n :: shape => (List.range n).flatMap fun i => (indices shape).map (i :: ·)

/-- The place of an index among the indices of a shape. -/
def position : List Nat → List Nat → Nat
  | _ :: shape, i :: index => i * numel shape + position shape index
  | _, _ => 0

theorem mem_indices {shape index : List Nat} :
    index ∈ indices shape ↔ List.Forall₂ (· < ·) index shape := by
  induction shape generalizing index with
  | nil => simp [indices]
  | cons n shape ih =>
    simp only [indices, List.mem_flatMap, List.mem_range, List.mem_map, List.forall₂_cons_right_iff,
      ih]
    constructor
    · rintro ⟨i, hi, index, hindex, rfl⟩
      exact ⟨i, index, hi, hindex, rfl⟩
    · rintro ⟨i, index, hi, hindex, rfl⟩
      exact ⟨i, hi, index, hindex, rfl⟩

/-- Blocks of `m` consecutive numbers, one after the other. -/
private theorem flatMap_range_blocks (n m : Nat) :
    ((List.range n).flatMap fun i => (List.range m).map (i * m + ·)) = List.range (n * m) := by
  induction n with
  | zero => simp
  | succ n ih =>
    rw [List.range_succ, List.flatMap_append, ih, Nat.succ_mul, List.range_add]
    simp

/-- The indices of a shape stand in the order of their places. -/
theorem map_position_indices (shape : List Nat) :
    (indices shape).map (position shape) = List.range (numel shape) := by
  induction shape with
  | nil => rfl
  | cons n shape ih =>
    rw [indices, List.map_flatMap, numel_cons, ← flatMap_range_blocks, ← ih]
    simp only [List.map_map, Function.comp_def, position]

theorem length_indices (shape : List Nat) : (indices shape).length = numel shape := by
  have h := congrArg List.length (map_position_indices shape)
  simpa using h

theorem getElem?_indices {shape index : List Nat} (h : List.Forall₂ (· < ·) index shape) :
    (indices shape)[position shape index]? = some index := by
  obtain ⟨k, hk⟩ := List.mem_iff_getElem?.1 (mem_indices.2 h)
  have hpos := congrArg (·[k]?) (map_position_indices shape)
  simp only [List.getElem?_map, hk, Option.map_some] at hpos
  obtain ⟨hlt, hpos⟩ := List.getElem?_eq_some_iff.1 hpos.symm
  rw [List.getElem_range] at hpos
  rw [← hpos, hk]

theorem position_lt {shape index : List Nat} (h : List.Forall₂ (· < ·) index shape) :
    position shape index < numel shape := by
  obtain ⟨hlt, -⟩ := List.getElem?_eq_some_iff.1 (getElem?_indices h)
  rwa [length_indices] at hlt

/-! ### Tensors -/

/-- A tensor at run time. -/
structure Grid where
  shape : List Nat
  /-- The elements, in row-major order. -/
  entries : List Scalar
  length_entries : entries.length = numel shape
deriving DecidableEq

/-- The elements of a constant. -/
def Elements.scalars : Elements → List Scalar
  | f32 data => data.map .single
  | i64 data => data.map .word

/-- A constant as a tensor at run time. -/
def Tensor.grid (t : Tensor) : Grid where
  shape := t.shape
  entries := t.elements.scalars
  length_entries := by
    rw [← t.length_elements]
    cases t.elements <;> simp [Elements.scalars, Elements.length]

namespace Grid

variable {t u : Grid} {shape lead index : List Nat} {f : List Nat → Scalar} {width : Nat}

def rank (t : Grid) : Nat :=
  t.shape.length

/-- The element at an index. -/
def entry (t : Grid) (index : List Nat) : Scalar :=
  t.entries.getD (position t.shape index) default

/-- The tensor with the given element at every index. -/
def ofFn (shape : List Nat) (f : List Nat → Scalar) : Grid where
  shape := shape
  entries := (indices shape).map f
  length_entries := by rw [List.length_map, length_indices]

/-- The elements as signed words, if they all are whole numbers. -/
def ints? (t : Grid) : Option (List Int) :=
  t.entries.mapM Scalar.toInt?

/-- The tensor of rank one with the given words. -/
def vector (words : List Int) : Grid :=
  (Tensor.vector words).grid

@[simp] theorem shape_ofFn (shape : List Nat) (f : List Nat → Scalar) : (ofFn shape f).shape = shape :=
  rfl

theorem entry_ofFn (h : List.Forall₂ (· < ·) index shape) : (ofFn shape f).entry index = f index := by
  simp [entry, ofFn, getElem?_indices h]

theorem ofFn_entry (t : Grid) : ofFn t.shape t.entry = t := by
  obtain ⟨shape, entries, hlen⟩ := t
  have hentries : (indices shape).map (fun index => entries.getD (position shape index) default) =
      entries := by
    have hmap := congrArg (List.map fun i => entries.getD i default) (map_position_indices shape)
    rw [List.map_map, ← hlen] at hmap
    exact hmap.trans (List.ext_getElem (by simp) fun i hi hi' => by simp [hi'])
  simp only [ofFn, mk.injEq, true_and]
  exact hentries

/-- Tensors with the same elements are equal. -/
theorem ext_entry (hshape : t.shape = u.shape)
    (h : ∀ index, List.Forall₂ (· < ·) index t.shape → t.entry index = u.entry index) : t = u := by
  rw [← ofFn_entry t, ← ofFn_entry u, ← hshape]
  simp only [ofFn, mk.injEq, true_and]
  exact List.map_congr_left fun index hindex => h index (mem_indices.1 hindex)

/-! ### Rows -/

/-- The elements along the last axis, at an index of the other axes. -/
def row (t : Grid) (index : List Nat) : List Scalar :=
  (List.range (t.shape.getLastD 0)).map fun j => t.entry (index ++ [j])

/-- The tensor with the given rows of equal length. -/
def ofRows (lead : List Nat) (width : Nat) (f : List Nat → List Scalar) : Grid :=
  ofFn (lead ++ [width]) fun index => (f index.dropLast).getD (index.getLastD 0) default

@[simp] theorem shape_ofRows (lead : List Nat) (width : Nat) (f : List Nat → List Scalar) :
    (ofRows lead width f).shape = lead ++ [width] :=
  rfl

theorem row_eq (h : t.shape = lead ++ [width]) (index : List Nat) :
    t.row index = (List.range width).map fun j => t.entry (index ++ [j]) := by
  simp [row, h]

theorem length_row (h : t.shape = lead ++ [width]) (index : List Nat) :
    (t.row index).length = width := by
  simp [row_eq h]

theorem forall₂_append_singleton {l m : List Nat} {i n : Nat} :
    List.Forall₂ (· < ·) (l ++ [i]) (m ++ [n]) ↔ List.Forall₂ (· < ·) l m ∧ i < n := by
  rw [← List.forall₂_reverse_iff]
  simp only [List.reverse_append, List.reverse_cons, List.reverse_nil, List.nil_append,
    List.cons_append, List.forall₂_cons, List.forall₂_reverse_iff]
  exact and_comm

theorem row_ofRows {f : List Nat → List Scalar} (h : List.Forall₂ (· < ·) index lead)
    (hlen : (f index).length = width) : (ofRows lead width f).row index = f index := by
  rw [row_eq (shape_ofRows lead width f)]
  refine List.ext_getElem (by simp [hlen]) fun j hj hj' => ?_
  simp only [List.length_map, List.length_range] at hj
  rw [List.getElem_map, List.getElem_range, ofRows,
    entry_ofFn (forall₂_append_singleton.2 ⟨h, hj⟩)]
  simp [hj']

/-- The elements of equal rows are equal. -/
theorem entry_eq_of_row_eq {lead' index' : List Nat} (ht : t.shape = lead ++ [width])
    (hu : u.shape = lead' ++ [width]) (h : t.row index = u.row index') {j : Nat} (hj : j < width) :
    t.entry (index ++ [j]) = u.entry (index' ++ [j]) := by
  have hget := congrArg (·[j]?) h
  simpa [row_eq ht, row_eq hu, hj] using hget

/-- Tensors with the same rows are equal. -/
theorem ext_row (ht : t.shape = lead ++ [width]) (hu : u.shape = lead ++ [width])
    (h : ∀ index, List.Forall₂ (· < ·) index lead → t.row index = u.row index) : t = u := by
  refine ext_entry (ht.trans hu.symm) fun index hindex => ?_
  rw [ht] at hindex
  obtain rfl | ⟨index, j, rfl⟩ := List.eq_nil_or_concat' index
  · simp at hindex
  · obtain ⟨hindex, hj⟩ := forall₂_append_singleton.1 hindex
    exact entry_eq_of_row_eq ht hu (h index hindex) hj

end Grid

end Dataflow
