import Dataflow.Proofs.Runtime.Shapes
import Mathlib.Data.List.InsertIdx

/-!
# The number of elements of a reshaped tensor

A target with an entry to infer keeps the number of elements: the inferred length is what the other
ones leave of it, and the target is refused if they do not divide it.  A target without one has
nothing to infer, and its lengths are taken as they are.

## Main definitions

* `Shape.asked` : the length that an entry of a target asks for.

## Main statements

* `Shape.getElem?_of_reshapeDims` : the dimensions that a target asks of a tensor of known lengths.
* `Shape.numel_reshape_iff` : the targets that keep the number of elements.
-/

namespace Dataflow

namespace Shape

variable {input : Shape} {lengths : List Nat} {target entries : List Int} {dims : List Dim}
  {at? : Option Nat} {i : Nat} {inferred : Bool} {s : Shape}

theorem knownCount_map_known (lengths : List Nat) :
    knownCount (lengths.map Dim.known) = some (wordCount lengths) := by
  have hmap : (lengths.map Dim.known).mapM Dim.length? = some lengths := by
    rw [mapM_eq_some_iff, List.forall₂_map_left_iff, List.forall₂_same]
    exact fun _ _ => rfl
  rw [knownCount, hmap, Option.map_some]

/-- The place of the entry to infer is the only one with `-1`, and there is none after such an entry
has been met. -/
theorem inferredAt_of_reshapeDims
    (h : reshapeDims input target i inferred entries = .ok (dims, at?)) :
    (inferred = true → at? = none) ∧
      ∀ j, entries[j]? = some (-1) ↔ at? = some (i + j) := by
  induction entries generalizing i inferred dims at? with
  | nil =>
    obtain ⟨-, rfl⟩ := Prod.mk.inj (Except.ok.inj h)
    simp
  | cons t rest ih =>
    obtain ⟨d, later, later?, -, -, hrest⟩ := exists_of_reshapeDims_cons h
    obtain ⟨ht, hrest, rfl⟩ | ⟨rfl, rfl, hrest, rfl⟩ := hrest
    · obtain ⟨hnone, hplace⟩ := ih hrest
      refine ⟨hnone, fun j => ?_⟩
      cases j with
      | zero =>
        have hlater : at? ≠ some i := fun hi => by
          have hle := ((asks_of_reshapeDims hrest).2.2 i hi).1
          omega
        simp [ht, hlater]
      | succ j => rw [List.getElem?_cons_succ, hplace j, Nat.add_right_comm, Nat.add_assoc]
    · obtain ⟨hnone, hplace⟩ := ih hrest
      obtain rfl := hnone rfl
      refine ⟨fun hinferred => by simp at hinferred, fun j => ?_⟩
      cases j with
      | zero => simp
      | succ j => simpa using hplace j

/-- The length that the entry `t` of a target asks for on axis `i`: the one that the tensor has
there if the entry is zero, and otherwise the entry itself. -/
def asked (lengths : List Nat) (i : Nat) (t : Int) : Nat :=
  if t = 0 then lengths.getD i 0 else t.toNat

theorem Asks.eq_asked {t : Int} {d : Dim} (h : Asks (ofLengths lengths) i t d) :
    d = if t = -1 then .unknown else .known (asked lengths i t) := by
  cases h with
  | copied hd =>
    rw [dim?, ofLengths, List.getElem?_map, Option.map_eq_some_iff] at hd
    obtain ⟨n, hn, rfl⟩ := hd
    rw [if_neg (by omega), asked, if_pos rfl, List.getD_eq_getElem?_getD, hn, Option.getD_some]
  | inferred => rw [if_pos rfl]
  | given hpos => rw [if_neg (by omega), asked, if_neg (by omega)]

/-- A target asks for known dimensions, apart from the one to infer. -/
theorem getElem?_of_reshapeDims
    (h : reshapeDims (ofLengths lengths) target 0 false target = .ok (dims, at?)) (j : Nat) :
    dims[j]? = target[j]?.map fun t =>
      if t = -1 then .unknown else .known (asked lengths j t) := by
  obtain ⟨hlen, hasks, -⟩ := asks_of_reshapeDims h
  obtain hj | hj := Nat.lt_or_ge j target.length
  · have hj' : j < dims.length := hlen ▸ hj
    have hask := hasks j _ _ (List.getElem?_eq_getElem hj) (List.getElem?_eq_getElem hj')
    rw [Nat.zero_add] at hask
    rw [List.getElem?_eq_getElem hj, List.getElem?_eq_getElem hj', hask.eq_asked, Option.map_some]
  · rw [List.getElem?_eq_none hj, List.getElem?_eq_none (hlen ▸ hj), Option.map_none]

/-- All dimensions are known if nothing is to be inferred. -/
theorem dims_of_reshapeDims_none
    (h : reshapeDims (ofLengths lengths) target 0 false target = .ok (dims, none)) :
    -1 ∉ target ∧ dims = (target.mapIdx (asked lengths)).map .known := by
  have hplace (j : Nat) : target[j]? ≠ some (-1) := fun hj => by
    simpa using ((inferredAt_of_reshapeDims h).2 j).1 hj
  refine ⟨fun hmem => ?_, List.ext_getElem? fun j => ?_⟩
  · obtain ⟨j, hj⟩ := List.mem_iff_getElem?.1 hmem
    exact hplace j hj
  · rw [getElem?_of_reshapeDims h, List.getElem?_map, List.getElem?_mapIdx, Option.map_map]
    refine Option.map_congr fun t ht => if_neg ?_
    rintro rfl
    exact hplace j ht

/-- All dimensions are known except for the one to infer. -/
theorem dims_of_reshapeDims_some {k : Nat}
    (h : reshapeDims (ofLengths lengths) target 0 false target = .ok (dims, some k)) :
    target[k]? = some (-1) ∧
      dims = ((target.mapIdx (asked lengths)).map .known).set k .unknown := by
  have hplace (j : Nat) : target[j]? = some (-1) ↔ k = j := by
    rw [(inferredAt_of_reshapeDims h).2 j, Nat.zero_add, Option.some_inj]
  have hk := (hplace k).2 rfl
  refine ⟨hk, List.ext_getElem? fun j => ?_⟩
  rw [getElem?_of_reshapeDims h]
  by_cases hjk : k = j
  · subst hjk
    have hlt := (List.getElem?_eq_some_iff.1 hk).1
    rw [hk, List.getElem?_set_self (by simpa using hlt), Option.map_some, if_pos rfl]
  · rw [List.getElem?_set_ne hjk, List.getElem?_map, List.getElem?_mapIdx, Option.map_map]
    refine Option.map_congr fun t ht => if_neg ?_
    rintro rfl
    exact hjk ((hplace j).1 ht)

/-- **The number of elements of a reshaped tensor.**  Let a tensor of known lengths be reshaped to a
target.  All lengths of the result are known, there are as many as entries of the target, and every
entry other than `-1` has the length that it asks for.  Where a length is inferred, let the number of
elements and the product of the other lengths be words.  Then the result has as many elements as the
tensor exactly if the target leaves a length to infer or the lengths that it asks for have that
many. -/
theorem numel_reshape_iff (h : (ofLengths lengths).reshape target = .ok s) :
    ∃ result : List Nat, s = ofLengths result ∧ result.length = target.length ∧
      (∀ (i : Nat) (t : Int), target[i]? = some t → t ≠ -1 →
        result[i]? = some (asked lengths i t)) ∧
      ((∀ k : Nat, target[k]? = some (-1) →
          numel lengths < 2 ^ 64 ∧ numel (result.eraseIdx k) < 2 ^ 64) →
        (numel result = numel lengths ↔
          -1 ∈ target ∨ numel (target.mapIdx (asked lengths)) = numel lengths)) := by
  rw [reshape, bind_eq_ok] at h
  obtain ⟨⟨dims, at?⟩, hdims, h⟩ := h
  dsimp only at h
  split at h
  · obtain ⟨hmem, hdims⟩ := dims_of_reshapeDims_none hdims
    obtain rfl := Except.ok.inj h
    refine ⟨target.mapIdx (asked lengths), by rw [hdims, ofLengths], by simp,
      fun i t ht _ => ?_, fun _ => ?_⟩
    · rw [List.getElem?_mapIdx, ht, Option.map_some]
    · simp [hmem]
  · next k =>
    obtain ⟨hk, hdims⟩ := dims_of_reshapeDims_some hdims
    have hlt : k < (target.mapIdx (asked lengths)).length := by
      rw [List.length_mapIdx]
      exact (List.getElem?_eq_some_iff.1 hk).1
    have herase : dims.eraseIdx k = ((target.mapIdx (asked lengths)).eraseIdx k).map .known := by
      rw [hdims, List.eraseIdx_set_eq, List.eraseIdx_map]
    rw [herase, knownCount_map_known, ofLengths, knownCount_map_known] at h
    dsimp only at h
    split at h
    · exact absurd h throw_ne_ok
    · next hdivides =>
      obtain rfl := Except.ok.inj h
      refine ⟨(target.mapIdx (asked lengths)).set k
        (wordCount lengths / wordCount ((target.mapIdx (asked lengths)).eraseIdx k)), ?_, by simp,
        fun i t ht hone => ?_, fun hwords => ?_⟩
      · rw [hdims, List.set_set, ofLengths, List.map_set]
      · have hne : k ≠ i := fun hki => hone (Option.some.inj (ht.symm.trans (hki ▸ hk)))
        rw [List.getElem?_set_ne hne, List.getElem?_mapIdx, ht, Option.map_some]
      · obtain ⟨htotal, hothers⟩ := hwords k hk
        rw [List.eraseIdx_set_eq] at hothers
        rw [wordCount, wordCount, Word.wrap_of_lt htotal, Word.wrap_of_lt hothers] at hdivides ⊢
        have hexact : numel lengths % numel ((target.mapIdx (asked lengths)).eraseIdx k) = 0 := by
          omega
        rw [numel_set _ hlt, Nat.div_mul_cancel (Nat.dvd_of_mod_eq_zero hexact)]
        exact iff_of_true rfl (.inl (List.mem_of_getElem? hk))

/-- Merging the last two axes keeps the sixty elements. -/
theorem numel_reshape_mergedAxes :
    (ofLengths [2, 5, 2, 3]).reshape [0, 0, -1] = .ok (ofLengths [2, 5, 6]) ∧
      ∃ result : List Nat, ofLengths [2, 5, 6] = ofLengths result ∧ result.length = 3 ∧
        result[0]? = some 2 ∧ result[1]? = some 5 ∧ numel result = 60 := by
  have h : (ofLengths [2, 5, 2, 3]).reshape [0, 0, -1] = .ok (ofLengths [2, 5, 6]) := by decide
  obtain ⟨result, hs, hlen, hasked, hcount⟩ := numel_reshape_iff h
  have hresult : result = [2, 5, 6] :=
    (List.map_injective_iff.2 (fun _ _ => Dim.known.inj) (Shape.mk.inj hs)).symm
  have hwords : ∀ k : Nat, [(0 : Int), 0, -1][k]? = some (-1) →
      numel [2, 5, 2, 3] < 2 ^ 64 ∧ numel (result.eraseIdx k) < 2 ^ 64 := by
    intro k hk
    match k with
    | 0 | 1 => simp at hk
    | 2 => exact ⟨by decide, by rw [hresult]; decide⟩
  exact ⟨h, result, hs, hlen, hasked 0 0 rfl (by decide), hasked 1 0 rfl (by decide),
    (hcount hwords).2 (.inl (by decide))⟩

/-- A target without an entry to infer may leave another number of elements: the six elements of a
matrix do not make a vector of seven. -/
theorem exists_numel_reshape_ne :
    ∃ (lengths result : List Nat) (target : List Int),
      (ofLengths lengths).reshape target = .ok (ofLengths result) ∧
        numel result ≠ numel lengths :=
  ⟨[2, 3], [7], [7], by decide, by decide⟩

end Shape

end Dataflow
