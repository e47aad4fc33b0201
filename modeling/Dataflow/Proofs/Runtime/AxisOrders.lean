import Dataflow.Proofs.Runtime.ShapeCalls
import Dataflow.Proofs.Success
import Mathlib.Data.List.Perm.Basic

/-!
# Orders of axes

A transposition lists the axes of its operand in the order that they have in its result.  The list
has to be as long as the rank, and every entry has to be an axis.  That makes it a permutation of
the axes if no axis is listed twice, which nothing checks.

## Main definitions

* `Shape.inverseOrder` : the order that undoes another one.

## Main statements

* `perm_range_iff` : the lists that are permutations of the numbers below their length.
* `Shape.permuted_eq_ok_iff`, `Shape.exists_permuted_iff` : the orders that are accepted.
* `Shape.dims_perm_of_permuted`, `Shape.permuted_inverseOrder` : what a permutation does to a shape.
* `Shape.exists_perm_permuted_iff` : the shapes that some permutation of the axes leads to.
* `Shape.permuted_orders` : which orders are accepted, and what they lead to.
-/

namespace Dataflow

theorem perm_range_iff {order : List Nat} {n : Nat} :
    order.Perm (List.range n) ↔ order.length = n ∧ (∀ i ∈ order, i < n) ∧ order.Nodup := by
  constructor
  · intro h
    refine ⟨by rw [h.length_eq, List.length_range], fun i hi => ?_, h.nodup_iff.2 List.nodup_range⟩
    exact List.mem_range.1 (h.mem_iff.1 hi)
  · rintro ⟨hlen, hlt, hnodup⟩
    have hsub : order ⊆ List.range n := fun i hi => List.mem_range.2 (hlt i hi)
    refine (List.subperm_of_subset hnodup hsub).perm_of_length_le ?_
    rw [List.length_range, hlen]

namespace Shape

variable {s t : Shape} {order : List Nat}

/-- The shape that an order leads to lists the dimensions of its entries. -/
theorem permuted_eq_ok_iff : s.permuted order = .ok t ↔
    order.length = s.rank ∧ List.Forall₂ (fun i d => s.dim? i = some d) order t.dims := by
  constructor
  · intro h
    refine ⟨?_, forall₂_of_permuted h⟩
    unfold permuted at h
    split at h
    · assumption
    · simp at h
  · rintro ⟨hlen, hdims⟩
    rw [permuted, if_pos hlen, bind_eq_ok]
    refine ⟨t.dims, mapM_eq_ok_of_forall₂ (hdims.imp fun i d hd => ?_), rfl⟩
    rw [hd]

/-- The axes in their own order lead to the shape itself. -/
theorem forall₂_range_dims (s : Shape) :
    List.Forall₂ (fun i d => s.dim? i = some d) (List.range s.rank) s.dims := by
  refine List.forall₂_iff_get.2 ⟨List.length_range, fun i hi hi' => ?_⟩
  simp [dim?]

/-- An order is accepted if it has as many entries as there are axes, and all of them are axes. -/
theorem exists_permuted_iff :
    (∃ t, s.permuted order = .ok t) ↔ order.length = s.rank ∧ ∀ i ∈ order, i < s.rank := by
  constructor
  · rintro ⟨t, h⟩
    obtain ⟨hlen, hdims⟩ := permuted_eq_ok_iff.1 h
    refine ⟨hlen, fun i hi => ?_⟩
    obtain ⟨d, -, hd⟩ := exists_mem_of_forall₂ hdims hi
    exact (List.getElem?_eq_some_iff.1 hd).1
  · rintro ⟨hlen, hlt⟩
    obtain ⟨dims, hdims⟩ := exists_forall₂ (R := fun i d => s.dim? i = some d)
      fun i hi => ⟨_, List.getElem?_eq_getElem (hlt i hi)⟩
    exact ⟨⟨dims⟩, permuted_eq_ok_iff.2 ⟨hlen, hdims⟩⟩

/-- Permutations of the axes are the accepted orders that list no axis twice. -/
theorem perm_range_rank_iff :
    order.Perm (List.range s.rank) ↔ (∃ t, s.permuted order = .ok t) ∧ order.Nodup := by
  rw [perm_range_iff, exists_permuted_iff, and_assoc]

/-- The order that undoes another one: the place of each axis in it. -/
def inverseOrder (order : List Nat) : List Nat :=
  (List.range order.length).map order.idxOf

/-- A permutation of the axes keeps the dimensions, each as often as it was there. -/
theorem dims_perm_of_permuted (h : s.permuted order = .ok t)
    (horder : order.Perm (List.range s.rank)) : t.dims.Perm s.dims := by
  obtain ⟨dims, hdims, hperm⟩ := List.perm_comp_forall₂ horder s.forall₂_range_dims
  have hsame : t.dims = dims := by
    refine List.right_unique_forall₂' (fun i d e hd he => ?_) (forall₂_of_permuted h) hdims
    exact Option.some.inj (hd.symm.trans he)
  rwa [hsame]

/-- The inverse order leads back. -/
theorem permuted_inverseOrder (h : s.permuted order = .ok t)
    (horder : order.Perm (List.range s.rank)) : t.permuted (inverseOrder order) = .ok s := by
  obtain ⟨hlen, hdims⟩ := permuted_eq_ok_iff.1 h
  have hrank : t.rank = s.rank := hdims.length_eq.symm.trans hlen
  rw [permuted_eq_ok_iff, inverseOrder, hlen, List.forall₂_map_left_iff, List.length_map,
    List.length_range]
  refine ⟨hrank.symm, List.forall₂_iff_get.2 ⟨List.length_range, fun axis haxis haxis' => ?_⟩⟩
  rw [List.get_eq_getElem, List.get_eq_getElem, List.getElem_range]
  -- The axis stands in the order at the place that the inverse order lists for it.
  have hplace : order[order.idxOf axis]? = some axis :=
    List.getElem?_idxOf (horder.mem_iff.2 (List.mem_range.2 haxis'))
  obtain ⟨d, hd, hdim⟩ := exists_of_forall₂_left hdims hplace
  rw [dim?, hd, ← hdim, dim?, List.getElem?_eq_getElem haxis']

/-- A permutation of the axes leads to the shapes with the same dimensions, each as often. -/
theorem exists_perm_permuted_iff :
    (∃ order : List Nat, order.Perm (List.range s.rank) ∧ s.permuted order = .ok t) ↔
      t.dims.Perm s.dims := by
  constructor
  · rintro ⟨order, horder, h⟩
    exact dims_perm_of_permuted h horder
  · intro h
    obtain ⟨order, hdims, horder⟩ := List.perm_comp_forall₂ h s.forall₂_range_dims.flip
    refine ⟨order, horder, permuted_eq_ok_iff.2 ⟨?_, hdims.flip⟩⟩
    rw [horder.length_eq, List.length_range]

end Shape

/-- The layout that a transposition declares has the dimensions of its operand in the order. -/
theorem Edit.declares_transpose {β : Type} {g g' : Graph β} {name : String} {v w : Value}
    {order : List Nat} (h : (Edit.transpose name v order).apply g = (.ok w, g')) :
    ∃ l l', g.Declares v l ∧ g'.Declares w l' ∧ l.shape.permuted order = .ok l'.shape := by
  obtain ⟨l, l', hl, hl', hv, rfl, rfl⟩ := apply_transpose_ok_iff.1 h
  rw [Layout.transpose, bind_eq_ok] at hl'
  obtain ⟨s, hs, hl'⟩ := hl'
  obtain rfl := Except.ok.inj hl'
  exact ⟨l, .planar s l.elementType, Graph.declares_of_layout? hv hl, Graph.declares_push_push rfl,
    hs⟩

/-- **Which orders of axes are accepted.**  An order is accepted for a shape exactly if it has as
many entries as the shape has axes and every entry is one of them.  Permutations of the axes are the
accepted orders that list no axis twice; such an order keeps the dimensions, each as often as it was
there, and the inverse order leads back.  A transposition in a graph declares the shape that its
order leads to; some permutation of the axes leads to that shape exactly if it has the dimensions of
the operand, each as often. -/
theorem Shape.permuted_orders (s : Shape) (order : List Nat) :
    ((∃ t, s.permuted order = .ok t) ↔ order.length = s.rank ∧ ∀ i ∈ order, i < s.rank) ∧
    (order.Perm (List.range s.rank) ↔ (∃ t, s.permuted order = .ok t) ∧ order.Nodup) ∧
    (∀ t, s.permuted order = .ok t → order.Nodup →
      t.dims.Perm s.dims ∧ t.permuted (inverseOrder order) = .ok s) ∧
    ∀ {β : Type} (g g' : Graph β) (name : String) (v w : Value) (l : Layout),
      g.layout? v = some l → l.shape = s → (Edit.transpose name v order).apply g = (.ok w, g') →
        ∃ l', g'.Declares w l' ∧ s.permuted order = .ok l'.shape ∧
          ((∃ order' : List Nat, order'.Perm (List.range s.rank) ∧
            s.permuted order' = .ok l'.shape) ↔ l'.shape.dims.Perm s.dims) := by
  refine ⟨exists_permuted_iff, perm_range_rank_iff, fun t h hnodup => ?_, ?_⟩
  · have horder := perm_range_rank_iff.2 ⟨⟨t, h⟩, hnodup⟩
    exact ⟨dims_perm_of_permuted h horder, permuted_inverseOrder h horder⟩
  · rintro β g g' name v w l hl rfl h
    obtain ⟨k, l', hk, hl', hperm⟩ := Edit.declares_transpose h
    obtain rfl := Option.some.inj (hk.layout?.symm.trans hl)
    exact ⟨l', hl', hperm, exists_perm_permuted_iff⟩

/-- A stack of five matrices with an unknown number of rows. -/
def openStack : Graph Unit :=
  .ofSpecs [{ op := .parameter, outputs := [.planar ⟨[.known 5, .unknown, .known 3]⟩ .f32] }] []

/-- The axes of the stack turned round by one place, and back. -/
theorem Shape.permuted_orders_openStack :
    let s : Shape := ⟨[.known 5, .unknown, .known 3]⟩
    let t : Shape := ⟨[.unknown, .known 3, .known 5]⟩
    let run := (Edit.transpose "turned" ⟨0, 0⟩ [1, 2, 0]).apply openStack
    s.permuted [1, 2, 0] = .ok t ∧ [1, 2, 0].Nodup ∧ t.dims.Perm s.dims ∧
      t.permuted (inverseOrder [1, 2, 0]) = .ok s ∧ run.1 = .ok ⟨2, 0⟩ ∧
        ∃ l', run.2.Declares ⟨2, 0⟩ l' ∧ l'.shape = t ∧
          ∃ order' : List Nat, order'.Perm (List.range 3) ∧ s.permuted order' = .ok l'.shape := by
  intro s t run
  obtain ⟨-, -, hback, hdeclared⟩ := permuted_orders s [1, 2, 0]
  have hst : s.permuted [1, 2, 0] = .ok t := by decide
  have hnodup : [1, 2, 0].Nodup := by decide
  have hrun : run.1 = .ok ⟨2, 0⟩ := by decide +kernel
  obtain ⟨hperm, hinverse⟩ := hback t hst hnodup
  obtain ⟨l', hl', hpermuted, hiff⟩ := hdeclared openStack run.2 "turned" ⟨0, 0⟩ ⟨2, 0⟩ _ rfl rfl
    (Prod.ext hrun rfl)
  have ht : l'.shape = t := Except.ok.inj (hpermuted.symm.trans hst)
  exact ⟨hst, hnodup, hperm, hinverse, hrun, l', hl', ht, hiff.2 (ht ▸ hperm)⟩

/-- An accepted order may list an axis twice.  The shape that it leads to lacks a dimension of the
operand then, and no permutation of the axes leads there. -/
theorem Shape.exists_permuted_of_not_perm :
    ∃ (s t : Shape) (order : List Nat), s.permuted order = .ok t ∧
      ¬ order.Perm (List.range s.rank) ∧ ¬ t.dims.Perm s.dims :=
  ⟨⟨[.known 2, .known 3]⟩, ⟨[.known 2, .known 2]⟩, [0, 0], by decide, by decide, by decide⟩

end Dataflow
