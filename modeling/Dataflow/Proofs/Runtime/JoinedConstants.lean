import Dataflow.Proofs.Graph.ListedReaders
import Dataflow.Proofs.Runtime.EqualParts
import Dataflow.Proofs.Runtime.JoinedGrids

/-!
# Constants laid end to end

Constants can be joined right away, or by a node that joins them when the graph runs.  Both do the
same: the elements of the joined constant are those that the node computes, and the node declares
the layout that the joined constant has.

## Main definitions

* `Tensor.AgreesOff` : a tensor that differs from another in its length on one axis only.
* `Tensor.HasRoom` : the joined tensor can be held in memory.
* `Tensor.Reads` : reading and making elements of one type.

## Main statements

* `Tensor.exists_concat_cons_iff` : when tensors can be joined.
* `Tensor.grid_concat` : the joined constant is what the node computes.
* `Edit.apply_concat_of_constants` : the node declares the layout of the joined constant.
* `Tensor.concat_constants` : the elements of the parts, the parts themselves and the node.
-/

namespace Dataflow

theorem drop_eraseIdx_self {α : Type} {l : List α} {i : Nat} (h : i ≤ l.length) :
    (l.eraseIdx i).drop i = l.drop (i + 1) := by
  rw [List.eraseIdx_eq_take_drop_succ, List.drop_append_of_le_length (by simpa),
    List.drop_take_self, List.nil_append]

namespace Tensor

variable {first t p : Tensor} {rest parts : List Tensor} {axis : Nat}

theorem ofElements_eq_ok_iff {elements : Elements} {shape : List Nat} :
    ofElements elements shape = .ok t ↔ elements.length = numel shape ∧
      isAddressable shape = true ∧ t.shape = shape ∧ t.elements = elements := by
  unfold ofElements
  constructor
  · intro h
    split at h
    · next hcount =>
      split at h
      · next hroom =>
        obtain rfl := Except.ok.inj h
        exact ⟨hcount.trans (wordCount_of_isAddressable hroom), hroom, rfl, rfl⟩
      · simp at h
    · simp at h
  · obtain ⟨tshape, telements, hlen⟩ := t
    rintro ⟨hcount, hroom, rfl, rfl⟩
    rw [dif_pos (hcount.trans (wordCount_of_isAddressable hroom).symm), dif_pos hroom]

/-! ### Room for the joined tensor -/

/-- Tensors laid end to end along the axis can be held in memory: their positions can be told apart.
Joining tensors is the logical concatenation as long as this is so. -/
def HasRoom (first : Tensor) (rest : List Tensor) (axis : Nat) : Prop :=
  isAddressable (first.shape.set axis (Grid.startOf axis ((first :: rest).map grid))) = true

instance (first : Tensor) (rest : List Tensor) (axis : Nat) : Decidable (HasRoom first rest axis) :=
  inferInstanceAs (Decidable (_ = true))

/-- The joined length of tensors that can be held is a word. -/
theorem HasRoom.startOf_lt (h : HasRoom first rest axis) (haxis : axis < first.rank) :
    first.grid.lengthAt axis + Grid.startOf axis (rest.map grid) < 2 ^ 64 :=
  Nat.lt_trans (lt_of_isAddressable h (List.mem_set haxis _)) (by decide)

/-! ### Agreement off the axis -/

/-- The tensor has the rank of another one, and its lengths on all axes but one. -/
def AgreesOff (axis : Nat) (first p : Tensor) : Prop :=
  p.rank = first.rank ∧ ∀ j, j ≠ axis → p.shape[j]? = first.shape[j]?

theorem agreesOff_refl (axis : Nat) (t : Tensor) : AgreesOff axis t t :=
  ⟨rfl, fun _ _ => rfl⟩

theorem agreesOff_iff (haxis : axis < first.rank) :
    AgreesOff axis first p ↔
      p.shape = (first.shape.eraseIdx axis).insertIdx axis (p.grid.lengthAt axis) := by
  rw [← set_eq_insertIdx haxis]
  constructor
  · rintro ⟨hrank, hget⟩
    have hlt : axis < p.shape.length := lt_of_lt_of_eq haxis hrank.symm
    refine List.ext_getElem? fun j => ?_
    by_cases hj : axis = j
    · subst hj
      rw [List.getElem?_set_self haxis, Grid.lengthAt, List.getD_eq_getElem?_getD]
      simp [grid, hlt]
    · rw [List.getElem?_set_ne hj, hget j (Ne.symm hj)]
  · intro h
    refine ⟨?_, fun j hj => ?_⟩
    · rw [rank, h, List.length_set, rank]
    · rw [h, List.getElem?_set_ne (Ne.symm hj)]

/-- What the check of the shapes finds out about one part. -/
theorem agreesOff_iff_offAxis (haxis : axis < first.rank) :
    AgreesOff axis first p ↔
      offAxis p.shape axis = .ok (first.shape.eraseIdx axis) ∧ axis < p.shape.length := by
  by_cases hlt : axis < p.shape.length
  · have hself : p.shape = (p.shape.eraseIdx axis).insertIdx axis (p.grid.lengthAt axis) := by
      rw [insertIdx_eraseIdx_of_getElem?]
      simp [Grid.lengthAt, grid, hlt]
    rw [agreesOff_iff haxis, offAxis, if_pos hlt, Except.ok.injEq]
    refine ⟨fun h => ⟨?_, hlt⟩, fun h => ?_⟩
    · conv_lhs => rw [h]
      exact List.eraseIdx_insertIdx_self _
    · rwa [← h.1]
  · exact iff_of_false (fun h => hlt (lt_of_lt_of_eq haxis h.1.symm)) fun h => hlt h.2

theorem lengthAt_eq_ok (h : axis < p.shape.length) :
    lengthAt axis p.shape = .ok (p.grid.lengthAt axis) := by
  simp [lengthAt, Grid.lengthAt, grid, h]

theorem lt_of_lengthAt {shape : List Nat} {n : Nat} (h : lengthAt axis shape = .ok n) :
    axis < shape.length := by
  unfold lengthAt at h
  split at h
  · next hn => exact (List.getElem?_eq_some_iff.1 hn).1
  · simp at h

theorem checkParts_eq_ok_iff {common : List Nat} {shapes : List (List Nat)} {u : Unit} :
    checkParts common axis shapes = .ok u ↔ ∀ s ∈ shapes, offAxis s axis = .ok common := by
  induction shapes with
  | nil => simp [checkParts]
  | cons s shapes ih =>
    rw [checkParts, bind_eq_ok, List.forall_mem_cons, ← ih]
    constructor
    · rintro ⟨a, ha, h⟩
      split at h
      · next heq => exact ⟨heq ▸ ha, h⟩
      · exact absurd h throw_ne_ok
    · rintro ⟨hs, h⟩
      exact ⟨common, hs, by rwa [if_pos rfl]⟩

/-- The two checks of a concatenation pass if all parts agree with the first one. -/
theorem checks_iff (haxis : axis < first.rank) {lengths : List Nat} :
    (∃ u, checkParts (first.shape.eraseIdx axis) axis (parts.map shape) = .ok u) ∧
        (parts.map shape).mapM (lengthAt axis) = .ok lengths ↔
      (∀ p ∈ parts, AgreesOff axis first p) ∧ lengths = parts.map fun p => p.grid.lengthAt axis := by
  have hlengths (hlt : ∀ p ∈ parts, axis < p.shape.length) :
      (parts.map shape).mapM (lengthAt axis) = .ok (parts.map fun p => p.grid.lengthAt axis) := by
    refine mapM_eq_ok_of_forall₂ ?_
    rw [List.forall₂_map_left_iff, List.forall₂_map_right_iff, List.forall₂_same]
    exact fun p hp => lengthAt_eq_ok (hlt p hp)
  constructor
  · rintro ⟨⟨u, hcheck⟩, hok⟩
    have hlt : ∀ p ∈ parts, axis < p.shape.length := fun p hp => by
      obtain ⟨n, -, hn⟩ := exists_mem_of_forall₂ (forall₂_of_mapM_ok hok) (List.mem_map_of_mem hp)
      exact lt_of_lengthAt hn
    refine ⟨fun p hp => (agreesOff_iff_offAxis haxis).2 ⟨?_, hlt p hp⟩, ?_⟩
    · exact checkParts_eq_ok_iff.1 hcheck p.shape (List.mem_map_of_mem hp)
    · exact Except.ok.inj (hok.symm.trans (hlengths hlt))
  · rintro ⟨hagree, rfl⟩
    have hoff := fun p hp => (agreesOff_iff_offAxis haxis).1 (hagree p hp)
    refine ⟨⟨(), checkParts_eq_ok_iff.2 fun s hs => ?_⟩, hlengths fun p hp => (hoff p hp).2⟩
    obtain ⟨p, hp, rfl⟩ := List.mem_map.1 hs
    exact (hoff p hp).1

/-! ### One kind of elements -/

/-- Reading the elements of a tensor, and making elements of a list, are inverse for one type of
elements. -/
structure Reads {α : Type} (read : Tensor → Except Error (List α)) (wrap : List α → Elements)
    (c : α → Scalar) (type : ElementType) : Prop where
  read_eq : ∀ t l, read t = .ok l ↔ t.elements = wrap l
  scalars : ∀ l, (wrap l).scalars = l.map c
  elementType_iff : ∀ e : Elements, e.elementType = type ↔ ∃ l, e = wrap l

theorem reads_singles : Reads singles .f32 .single .f32 where
  read_eq t l := by
    unfold singles
    split <;> simp_all
  scalars _ := rfl
  elementType_iff e := by cases e <;> simp [Elements.elementType]

theorem reads_ints : Reads ints .i64 .word .i64 where
  read_eq t l := by
    unfold ints
    split <;> simp_all
  scalars _ := rfl
  elementType_iff e := by cases e <;> simp [Elements.elementType]

section Kind

variable {α : Type} {read : Tensor → Except Error (List α)} {wrap : List α → Elements}
  {c : α → Scalar} {type : ElementType} (hR : Reads read wrap c type)

/-- The elements that reading yields. -/
def payload (read : Tensor → Except Error (List α)) (t : Tensor) : List α :=
  (read t).toOption.getD []

include hR

theorem read_eq_ok (h : p.elementType = type) : read p = .ok (payload read p) := by
  obtain ⟨l, hl⟩ := (hR.elementType_iff _).1 h
  rw [payload, (hR.read_eq p l).2 hl]
  rfl

theorem scalars_payload (h : p.elementType = type) : p.grid.entries = (payload read p).map c := by
  rw [← hR.scalars, ← (hR.read_eq _ _).1 (read_eq_ok hR h)]
  rfl

theorem mapM_read_iff {data : List (List α)} :
    parts.mapM read = .ok data ↔
      (∀ p ∈ parts, p.elementType = type) ∧ data = parts.map (payload read) := by
  have hall (h : ∀ p ∈ parts, p.elementType = type) :
      parts.mapM read = .ok (parts.map (payload read)) := by
    refine mapM_eq_ok_of_forall₂ ?_
    rw [List.forall₂_map_right_iff, List.forall₂_same]
    exact fun p hp => read_eq_ok hR (h p hp)
  constructor
  · intro h
    have htype : ∀ p ∈ parts, p.elementType = type := fun p hp => by
      obtain ⟨l, -, hl⟩ := exists_mem_of_forall₂ (forall₂_of_mapM_ok h) hp
      exact (hR.elementType_iff _).2 ⟨l, (hR.read_eq p l).1 hl⟩
    exact ⟨htype, Except.ok.inj (h.symm.trans (hall htype))⟩
  · rintro ⟨htype, rfl⟩
    exact hall htype

omit hR in
theorem joinData_map (read : Tensor → Except Error (List α)) (shape : List Nat) :
    joinData shape axis (parts.map Tensor.shape) (parts.map (payload read)) =
      interleave (numel (shape.take axis))
        (parts.map fun p => (p.grid.lengthAt axis * numel (shape.drop (axis + 1)), payload read p)) := by
  rw [joinData, List.map_map, List.zip_map']
  simp [Grid.lengthAt, grid, List.getD_eq_getElem?_getD]

/-- The elements of a concatenation, as those of a tensor at run time. -/
theorem map_joinData (haxis : axis < first.rank) (htype : ∀ p ∈ parts, p.elementType = type) :
    (joinData first.shape axis (parts.map shape) (parts.map (payload read))).map c =
      interleave (numel ((first.shape.eraseIdx axis).take axis))
        ((parts.map grid).map fun p =>
          (p.lengthAt axis * numel ((first.shape.eraseIdx axis).drop axis), p.entries)) := by
  rw [joinData_map, map_interleave, List.map_map, List.map_map,
    List.take_eraseIdx_eq_take_of_le _ _ _ le_rfl, drop_eraseIdx_self (Nat.le_of_lt haxis)]
  congr 1
  refine List.map_congr_left fun p hp => ?_
  simp only [Function.comp_apply, scalars_payload hR (htype p hp)]

omit hR in
theorem agreeOff_grids (haxis : axis < first.rank) (hagree : ∀ p ∈ parts, AgreesOff axis first p) :
    Grid.AgreeOff axis (first.shape.eraseIdx axis) (parts.map grid) := by
  intro u hu
  obtain ⟨p, hp, rfl⟩ := List.mem_map.1 hu
  exact (agreesOff_iff haxis).1 (hagree p hp)

omit hR in
theorem le_length_eraseIdx (haxis : axis < first.rank) :
    axis ≤ (first.shape.eraseIdx axis).length := by
  rw [List.length_eraseIdx_of_lt haxis]
  exact Nat.le_sub_one_of_lt haxis

theorem length_joinData (haxis : axis < first.rank) (htype : ∀ p ∈ parts, p.elementType = type)
    (hagree : ∀ p ∈ parts, AgreesOff axis first p) :
    (joinData first.shape axis (parts.map shape) (parts.map (payload read))).length =
      numel (first.shape.set axis (Grid.startOf axis (parts.map grid))) := by
  have h := Grid.length_interleave_entries (le_length_eraseIdx haxis) (agreeOff_grids haxis hagree)
  rw [← map_joinData hR haxis htype, List.length_map] at h
  rw [set_eq_insertIdx haxis, h]

theorem length_wrap (l : List α) : (wrap l).length = l.length := by
  have h : ∀ e : Elements, e.length = e.scalars.length := fun e => by
    cases e <;> simp [Elements.length, Elements.scalars]
  rw [h, hR.scalars, List.length_map]

omit hR in
theorem startOf_map_grid (axis : Nat) (parts : List Tensor) :
    Grid.startOf axis (parts.map grid) =
      (parts.map fun p => p.grid.lengthAt axis).foldr (· + ·) 0 := by
  rw [Grid.startOf, List.map_map]
  rfl

/-- When reading the parts and assembling them succeeds, and with what. -/
theorem join_eq_ok_iff (haxis : axis < first.rank) :
    parts.mapM read >>= assemble wrap first.shape axis (parts.map shape) = .ok t ↔
      (∀ p ∈ parts, p.elementType = type) ∧ (∀ p ∈ parts, AgreesOff axis first p) ∧
        isAddressable (first.shape.set axis (Grid.startOf axis (parts.map grid))) = true ∧
          t.shape = first.shape.set axis (Grid.startOf axis (parts.map grid)) ∧
            t.elements =
              wrap (joinData first.shape axis (parts.map shape) (parts.map (payload read))) := by
  simp only [assemble, bind_eq_ok, mapM_read_iff hR]
  constructor
  · rintro ⟨data, ⟨htype, rfl⟩, u, hcheck, lengths, hlengths, h⟩
    obtain ⟨hagree, rfl⟩ := (checks_iff haxis).1 ⟨⟨u, hcheck⟩, hlengths⟩
    rw [startOf_map_grid]
    split at h
    · obtain ⟨-, hroom, hshape, helements⟩ := ofElements_eq_ok_iff.1 h
      exact ⟨htype, hagree, hroom, hshape, helements⟩
    · exact absurd h throw_ne_ok
  · rintro ⟨htype, hagree, hroom, hshape, helements⟩
    obtain ⟨⟨u, hcheck⟩, hlengths⟩ := (checks_iff haxis).2 ⟨hagree, rfl⟩
    refine ⟨_, ⟨htype, rfl⟩, u, hcheck, _, hlengths, ?_⟩
    rw [startOf_map_grid] at hroom hshape
    rw [if_pos hroom, ofElements_eq_ok_iff, length_wrap hR, length_joinData hR haxis htype hagree,
      startOf_map_grid]
    exact ⟨rfl, hroom, hshape, helements⟩

end Kind

/-- The concatenation reads the type of elements that the first part has. -/
theorem exists_reads_concat (rest : List Tensor) (haxis : axis < first.rank) :
    ∃ (α : Type) (read : Tensor → Except Error (List α)) (wrap : List α → Elements)
      (c : α → Scalar), Reads read wrap c first.elementType ∧
        concat (first :: rest) axis =
          (first :: rest).mapM read >>=
            assemble wrap first.shape axis ((first :: rest).map shape) := by
  cases helements : first.elements with
  | f32 data =>
    have htype : first.elementType = .f32 := congrArg Elements.elementType helements
    exact ⟨Single, singles, .f32, .single, htype ▸ reads_singles, by simp [concat, haxis, helements]⟩
  | i64 data =>
    have htype : first.elementType = .i64 := congrArg Elements.elementType helements
    exact ⟨Int, ints, .i64, .word, htype ▸ reads_ints, by simp [concat, haxis, helements]⟩

/-- When tensors can be laid end to end. -/
theorem exists_concat_cons_iff (first : Tensor) (rest : List Tensor) (axis : Nat) :
    (∃ t, concat (first :: rest) axis = .ok t) ↔
      axis < first.rank ∧ (∀ p ∈ rest, p.elementType = first.elementType) ∧
        (∀ p ∈ rest, AgreesOff axis first p) ∧ HasRoom first rest axis := by
  by_cases haxis : axis < first.rank
  · obtain ⟨α, read, wrap, c, hR, hconcat⟩ := exists_reads_concat rest haxis
    simp only [hconcat, join_eq_ok_iff hR haxis, List.forall_mem_cons]
    constructor
    · rintro ⟨t, ⟨-, htype⟩, ⟨-, hagree⟩, hroom, -, -⟩
      exact ⟨haxis, htype, hagree, hroom⟩
    · rintro ⟨-, htype, hagree, hroom⟩
      have htype' : ∀ p ∈ first :: rest, p.elementType = first.elementType :=
        List.forall_mem_cons.2 ⟨rfl, htype⟩
      have hagree' := List.forall_mem_cons.2 ⟨agreesOff_refl axis first, hagree⟩
      exact ⟨⟨_, wrap _, (length_wrap hR _).trans (length_joinData hR haxis htype' hagree')⟩,
        ⟨trivial, htype⟩, ⟨agreesOff_refl axis first, hagree⟩, hroom, rfl, rfl⟩
  · refine iff_of_false ?_ fun h => haxis h.1
    simp [concat, haxis]

/-- The concatenation of constants is their concatenation at run time. -/
theorem grid_concat (h : concat (first :: rest) axis = .ok t) :
    t.elementType = first.elementType ∧
      Grid.concat? axis ((first :: rest).map grid) = some t.grid := by
  have haxis : axis < first.rank := ((exists_concat_cons_iff first rest axis).1 ⟨t, h⟩).1
  obtain ⟨α, read, wrap, c, hR, hconcat⟩ := exists_reads_concat rest haxis
  rw [hconcat] at h
  obtain ⟨htype, hagree, -, hshape, helements⟩ := (join_eq_ok_iff hR haxis).1 h
  refine ⟨(hR.elementType_iff _).2 ⟨_, helements⟩, Grid.concat?_of_interleave (by simp)
    (le_length_eraseIdx haxis) (agreeOff_grids haxis hagree) ?_ ?_⟩
  · rw [← set_eq_insertIdx haxis, ← hshape]
    rfl
  · rw [← map_joinData hR haxis htype, ← hR.scalars, ← helements]
    rfl

theorem layout_of_concat (h : concat (first :: rest) axis = .ok t) :
    t.elementType = first.elementType ∧ t.partialShape = first.partialShape.setDim axis
      (.known (first.grid.lengthAt axis + Grid.startOf axis (rest.map grid))) := by
  obtain ⟨htype, hgrid⟩ := grid_concat h
  refine ⟨htype, ?_⟩
  have hshape : t.shape = first.shape.set axis _ := (Grid.shape_of_concat? hgrid).2
  rw [partialShape, hshape, Shape.ofLengths, List.map_set]
  rfl

theorem dim?_partialShape (h : axis < t.rank) :
    t.partialShape.dim? axis = some (.known (t.grid.lengthAt axis)) := by
  have hlt : axis < t.shape.length := h
  simp [partialShape, Shape.ofLengths, Shape.dim?, Grid.lengthAt, grid, hlt]

/-- The parts of the grids are the grids of the parts. -/
theorem exists_of_map_grid {before after : List Grid} {u : Grid}
    (h : parts.map grid = before ++ u :: after) :
    ∃ front p back, parts = front ++ p :: back ∧ before = front.map grid ∧ u = p.grid := by
  obtain ⟨front, back, rfl, rfl, hback⟩ := List.map_eq_append_iff.1 h
  obtain ⟨p, back, rfl, rfl, -⟩ := List.map_eq_cons_iff.1 hback
  exact ⟨front, p, back, rfl, rfl, rfl⟩

end Tensor

namespace Edit

variable {β : Type} {g : Graph β} {values : List Value} {parts rest : List Tensor}
  {first t : Tensor} {axis : Nat}

/-- The known lengths of constants on an axis are added up, as long as the sum is a word. -/
theorem apply_concatDim_of_constants
    (hvalues : List.Forall₂ g.HoldsConstant values parts) (haxis : axis < first.rank)
    (htype : ∀ p ∈ parts, p.elementType = first.elementType)
    (hagree : ∀ p ∈ parts, first.AgreesOff axis p) (n : Nat)
    (hword : n + Grid.startOf axis (parts.map Tensor.grid) < 2 ^ 64) :
    (concatDim (.planar first.partialShape first.elementType) axis values (.known n)).apply g =
      (.ok (.known (n + Grid.startOf axis (parts.map Tensor.grid))), g) := by
  induction hvalues generalizing n with
  | nil => rfl
  | @cons v p values parts hv _ ih =>
    obtain ⟨htype, htypes⟩ := List.forall_mem_cons.1 htype
    obtain ⟨hagree, hagrees⟩ := List.forall_mem_cons.1 hagree
    have hdim := Tensor.dim?_partialShape (lt_of_lt_of_eq haxis hagree.1.symm)
    have hstart : Grid.startOf axis ((p :: parts).map Tensor.grid) =
      p.grid.lengthAt axis + Grid.startOf axis (parts.map Tensor.grid) := rfl
    rw [hstart, ← Nat.add_assoc] at hword ⊢
    have hsum : (Layout.planar first.partialShape first.elementType).concatDim axis (.known n)
        (.planar p.partialShape p.elementType) = .ok (.known (n + p.grid.lengthAt axis)) := by
      have hrank : p.partialShape.rank = first.partialShape.rank := by
        simpa [Tensor.partialShape, Shape.ofLengths, Shape.rank, Tensor.rank] using hagree.1
      rw [Layout.concatDim, if_pos ⟨hrank, htype⟩]
      simp only [Layout.planar, hdim, Option.getD_some, Dim.add,
        Word.wrap_of_lt (Nat.lt_of_le_of_lt (Nat.le_add_right _ _) hword)]
    rw [concatDim, apply_bind_of_ok (apply_layoutOf_ok_iff.2 ⟨hv.declares.layout?, rfl⟩),
      apply_bind_of_ok (apply_pureExcept_ok_iff.2 ⟨hsum, rfl⟩), ih htypes hagrees _ hword]

/-- Constants that can be laid end to end are joined by a node, too, and it declares what the
joined constant has. -/
theorem apply_concat_of_constants {name : String} (h : Tensor.concat (first :: rest) axis = .ok t)
    (hvalues : List.Forall₂ g.HoldsConstant values (first :: rest)) :
    (concat name values axis).apply g = (.ok ⟨g.slots.length, 0⟩,
      g.push (concatSpec name values axis (.planar t.partialShape t.elementType))) := by
  obtain ⟨haxis, htype, hagree, hroom⟩ := (Tensor.exists_concat_cons_iff first rest axis).1 ⟨t, h⟩
  obtain ⟨htype', hshape⟩ := Tensor.layout_of_concat h
  have hin : ∀ v ∈ values, g.hasValue v = true := fun v hv => by
    obtain ⟨p, -, hp⟩ := exists_mem_of_forall₂ hvalues hv
    exact hp.declares.hasValue
  obtain ⟨v, rest', hv, hrest, rfl⟩ := List.forall₂_cons_right_iff.1 hvalues
  have hdim : (Layout.planar first.partialShape first.elementType).shape.dim? axis = some _ :=
    Tensor.dim?_partialShape haxis
  rw [concat, apply_bind_of_ok (apply_layoutOf_ok_iff.2 ⟨hv.declares.layout?, rfl⟩)]
  simp only [hdim]
  rw [apply_bind_of_ok
      (apply_concatDim_of_constants hrest haxis htype hagree _ (hroom.startOf_lt haxis)),
    apply_bind_of_ok (apply_addNode_ok_iff.2 ⟨hin, rfl, rfl⟩), htype', hshape]
  rfl

end Edit

namespace Tensor

/-- **Constants laid end to end.**  A list of tensors that is not empty, and for which there is room
end to end, can be joined along an axis exactly if the axis exists and the tensors have one type of
elements and agree off the axis.  Then every element of the result is that of the part whose
positions hold its index on the axis, counted from where the part begins, and every part is cut out
of the result again.  In every graph that holds the tensors as constants, a node that joins these is
added without an error, and declares the layout that the joined tensor has as a constant. -/
theorem concat_constants {β : Type} (first : Tensor) (rest : List Tensor) (axis : Nat) :
    (HasRoom first rest axis → ((∃ t, concat (first :: rest) axis = .ok t) ↔
      axis < first.rank ∧ (∀ p ∈ rest, p.elementType = first.elementType) ∧
        ∀ p ∈ rest, first.AgreesOff axis p)) ∧
    ∀ t, concat (first :: rest) axis = .ok t →
      (t.elementType = first.elementType ∧
        t.shape = first.shape.set axis (Grid.startOf axis ((first :: rest).map grid))) ∧
      (∀ index, List.Forall₂ (· < ·) index t.shape →
        ∃ before p after, first :: rest = before ++ p :: after ∧
          Grid.startOf axis (before.map grid) ≤ index.getD axis 0 ∧
          index.getD axis 0 < Grid.startOf axis (before.map grid) + p.grid.lengthAt axis ∧
          t.grid.entry index =
            p.grid.entry (index.modify axis (· - Grid.startOf axis (before.map grid)))) ∧
      (∀ before p after, first :: rest = before ++ p :: after →
        t.grid.slice? axis (Grid.startOf axis (before.map grid)) (p.grid.lengthAt axis) =
          some p.grid) ∧
      ∀ (g : Graph β) (name other : String) (values : List Value),
        List.Forall₂ g.HoldsConstant values (first :: rest) →
          ∃ w g' c g'' l, (Edit.concat name values axis).apply g = (.ok w, g') ∧
            (Edit.addConstant other t).apply g = (.ok c, g'') ∧
              g'.Declares w l ∧ g''.Declares c l := by
  refine ⟨fun hroom => ?_, fun t h => ?_⟩
  · rw [exists_concat_cons_iff]
    exact and_congr_right fun _ => and_congr_right fun _ => and_iff_left hroom
  obtain ⟨htype, hgrid⟩ := grid_concat h
  refine ⟨⟨htype, (Grid.shape_of_concat? hgrid).2⟩, fun index hindex => ?_, ?_, ?_⟩
  · obtain ⟨_, _, _, hparts, hge, hlt, hentry⟩ :=
      Grid.exists_part_of_index hgrid (by simp) hindex
    obtain ⟨before, p, after, hfirst, rfl, rfl⟩ := exists_of_map_grid hparts
    exact ⟨before, p, after, hfirst, hge, hlt, hentry⟩
  · intro before p after hparts
    rw [hparts, List.map_append, List.map_cons] at hgrid
    exact Grid.slice?_concat? hgrid
  · intro g name other values hvalues
    exact ⟨_, _, _, _, _, Edit.apply_concat_of_constants h hvalues, rfl,
      Graph.declares_push_new rfl, Graph.declares_push_new rfl⟩

/-- The first column of a matrix, no columns, and the other two columns. -/
def columns : List Tensor :=
  [⟨[2, 1], .i64 [1, 4], rfl⟩, ⟨[2, 0], .i64 [], rfl⟩, ⟨[2, 2], .i64 [2, 3, 5, 6], rfl⟩]

/-- The matrix of the columns. -/
def sixWords : Tensor :=
  ⟨[2, 3], .i64 [1, 2, 3, 4, 5, 6], rfl⟩

/-- The graph with the columns as constants. -/
def columnsGraph : Graph Unit :=
  .ofSpecs (columns.map (Graph.constantSpec "columns")) []

/-- There is room for the columns, so they can be joined.  They make the matrix, whose last entry is
one of the last two columns, which are cut out of it again; the node for them has its layout. -/
theorem concat_constants_columns :
    HasRoom columns[0] columns.tail 1 ∧ (∃ t, concat columns 1 = .ok t) ∧
      concat columns 1 = .ok sixWords ∧
      (∃ before p after, columns = before ++ p :: after ∧
        Grid.startOf 1 (before.map grid) ≤ 2 ∧
        2 < Grid.startOf 1 (before.map grid) + p.grid.lengthAt 1 ∧
        sixWords.grid.entry [1, 2] = p.grid.entry [1, 2 - Grid.startOf 1 (before.map grid)]) ∧
      sixWords.grid.slice? 1 1 2 = columns[2].grid ∧
      ∃ w g' c g'' l,
        (Edit.concat "joined" [⟨0, 0⟩, ⟨1, 0⟩, ⟨2, 0⟩] 1).apply columnsGraph = (.ok w, g') ∧
          (Edit.addConstant "folded" sixWords).apply columnsGraph = (.ok c, g'') ∧
            g'.Declares w l ∧ g''.Declares c l := by
  have h : concat columns 1 = .ok sixWords := by decide +kernel
  have hvalues : List.Forall₂ columnsGraph.HoldsConstant [⟨0, 0⟩, ⟨1, 0⟩, ⟨2, 0⟩] columns :=
    .cons (((Graph.holdsConstant_addConstant _ _ _).push _).push _)
      (.cons ((Graph.holdsConstant_addConstant _ _ _).push _)
        (.cons (Graph.holdsConstant_addConstant _ _ _) .nil))
  have hroom : HasRoom columns[0] columns.tail 1 := by decide +kernel
  have hagree : ∀ p ∈ columns.tail, columns[0].AgreesOff 1 p := fun p hp =>
    (agreesOff_iff (by decide)).2 (by revert p; decide +kernel)
  obtain ⟨hjoin, hall⟩ := concat_constants (β := Unit) columns[0] columns.tail 1
  obtain ⟨-, hentry, hslice, hnode⟩ := hall sixWords h
  exact ⟨hroom, (hjoin hroom).2 ⟨by decide, by decide, hagree⟩, h, hentry [1, 2] (by decide),
    hslice columns.dropLast columns[2] [] rfl, hnode columnsGraph _ _ _ hvalues⟩

end Tensor

end Dataflow
