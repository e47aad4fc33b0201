import Dataflow.Proofs.Runtime.ShapeCalls
import Dataflow.Proofs.Success

/-!
# Equal parts laid end to end

A value that is cut into equal parts along an axis gets its layout back when the parts are laid end
to end again.  The length on the axis is added up from the parts, one after the other, and a length
that is not known stays unknown.  An axis of unknown length can be cut into no parts at all, and
those do not make a value.

## Main definitions

* `Dim.times` : the length of equal pieces laid end to end.

## Main statements

* `Layout.times_of_part` : the length on the axis is that of the parts together.
* `Edit.apply_concatDim_of_same`, `Edit.apply_concat_of_same` : values of one layout.
* `Edit.concat_split` : what the parts of a value make together.
-/

namespace Dataflow

/-! ### Equal lengths -/

namespace Dim

/-- The length of `n` pieces of the same length laid end to end. -/
def times (n : Nat) : Dim → Dim
  | known m => known (n * m)
  | unknown => unknown

@[simp] theorem times_one (d : Dim) : d.times 1 = d := by
  cases d <;> simp [times]

/-- One more piece, as long as the length is a word. -/
theorem add_times {d : Dim} {n : Nat} (h : ∀ m, d = known m → (n + 1) * m < 2 ^ 64) :
    (d.times n).add d = d.times (n + 1) := by
  cases d with
  | known m => rw [times, times, add, ← Nat.succ_mul, Word.wrap_of_lt (h m rfl)]
  | unknown => rfl

end Dim

namespace Layout

variable {l p first : Layout} {axis parts : Nat}

/-- The parts of a value have the length on the axis together, and otherwise its layout. -/
theorem times_of_part (h : l.part axis parts = .ok p) :
    p.elementType = l.elementType ∧ ∃ d : Dim, p.shape.dim? axis = some d ∧
      p.shape.setDim axis (d.times parts) = l.shape ∧
        (parts = 0 → l.shape.dim? axis = some .unknown) := by
  unfold part at h
  split at h
  · next n hn =>
    obtain ⟨hlt, hget⟩ := List.getElem?_eq_some_iff.1 hn
    split at h
    · next hparts =>
      obtain rfl := Except.ok.inj h
      have hmul : parts * (n / parts) = n := Nat.mul_div_cancel' (Nat.dvd_of_mod_eq_zero hparts.2)
      refine ⟨rfl, .known (n / parts), List.getElem?_set_self hlt, ?_, by omega⟩
      rw [Dim.times, hmul, planar, Shape.setDim, Shape.setDim, List.set_set, ← hget,
        List.set_getElem_self]
    · simp at h
  · next hd =>
    obtain rfl := Except.ok.inj h
    refine ⟨rfl, .unknown, hd, ?_, fun _ => hd⟩
    obtain ⟨hlt, hget⟩ := List.getElem?_eq_some_iff.1 hd
    rw [Dim.times, planar, Shape.setDim, ← hget, List.set_getElem_self]
  · simp at h

end Layout

namespace Edit

variable {β : Type} {g g' : Graph β} {name : String} {v : Value} {values : List Value}
  {l p : Layout} {axis parts : Nat} {d : Dim}

/-! ### Values of one layout -/

/-- The lengths of further values of the same layout are added one by one. -/
theorem apply_concatDim_of_same (hvalues : ∀ v ∈ values, g.layout? v = some p)
    (hd : p.shape.dim? axis = some d) (n : Nat)
    (hword : ∀ m, d = .known m → (n + values.length) * m < 2 ^ 64) :
    (concatDim p axis values (d.times n)).apply g = (.ok (d.times (n + values.length)), g) := by
  induction values generalizing n with
  | nil => rfl
  | cons v rest ih =>
    obtain ⟨hv, hrest⟩ := List.forall_mem_cons.1 hvalues
    rw [List.length_cons, ← Nat.add_assoc, Nat.add_right_comm] at hword ⊢
    have hone : ∀ m, d = .known m → (n + 1) * m < 2 ^ 64 := fun m hm =>
      Nat.lt_of_le_of_lt (Nat.mul_le_mul_right m (Nat.le_add_right _ _)) (hword m hm)
    have hsum : p.concatDim axis (d.times n) p = .ok (d.times (n + 1)) := by
      rw [Layout.concatDim, if_pos ⟨rfl, rfl⟩, hd, Option.getD_some, Dim.add_times hone]
    rw [concatDim, apply_bind_of_ok (apply_layoutOf_ok_iff.2 ⟨hv, rfl⟩),
      apply_bind_of_ok (apply_pureExcept_ok_iff.2 ⟨hsum, rfl⟩), ih hrest _ hword]

/-- Values of the same layout can be laid end to end along any of their axes, if there are any. -/
theorem apply_concat_of_same (hne : values ≠ []) (hvalues : ∀ v ∈ values, g.Declares v p)
    (hd : p.shape.dim? axis = some d)
    (hword : ∀ m, d = .known m → values.length * m < 2 ^ 64) :
    (concat name values axis).apply g = (.ok ⟨g.slots.length, 0⟩,
      g.push (concatSpec name values axis
        (.planar (p.shape.setDim axis (d.times values.length)) p.elementType))) := by
  cases values with
  | nil => exact absurd rfl hne
  | cons v rest =>
    obtain ⟨hv, hrest⟩ := List.forall_mem_cons.1 hvalues
    rw [List.length_cons, Nat.add_comm] at hword
    have hsum := apply_concatDim_of_same (fun w hw => (hrest w hw).layout?) hd 1 hword
    rw [Dim.times_one, Nat.add_comm] at hsum
    rw [concat, apply_bind_of_ok (apply_layoutOf_ok_iff.2 ⟨hv.layout?, rfl⟩)]
    simp only [hd]
    rw [apply_bind_of_ok hsum, apply_bind_of_ok (apply_addNode_ok_iff.2
      ⟨fun w hw => (hvalues w hw).hasValue, rfl, rfl⟩)]
    rfl

/-- The parts of a value have one layout. -/
theorem declares_split (h : (split name v axis parts).apply g = (.ok values, g')) :
    values.length = parts ∧ ∃ l p, g.Declares v l ∧ l.part axis parts = .ok p ∧
      ∀ w ∈ values, g'.Declares w p := by
  obtain ⟨l, p, hl, hp, hv, rfl, rfl⟩ := apply_split_ok h
  refine ⟨by simp, l, p, Graph.declares_of_layout? hv hl, hp, fun w hw => ?_⟩
  obtain ⟨i, hi, rfl⟩ := List.mem_map.1 hw
  refine Graph.declares_push_new ?_
  rw [splitSpec, List.getElem?_replicate, if_pos (List.mem_range.1 hi)]

/-- **Parts laid end to end.**  Let a value be cut into equal parts along an axis.  There are as
many of them as asked for.  Laying them end to end along the axis succeeds, with a value of the same
shape and element type, exactly if there is a part; a known length on the axis is a word.  If there is
no part, then the length on the axis is unknown, and laying nothing end to end is refused. -/
theorem concat_split (other : String)
    (h : (split name v axis parts).apply g = (.ok values, g'))
    (hword : ∀ l n, g.layout? v = some l → l.shape.dim? axis = some (.known n) → n < 2 ^ 64) :
    values.length = parts ∧ ∃ l, g.Declares v l ∧
      ((∃ w g'' l', (concat other values axis).apply g' = (.ok w, g'') ∧ g''.Declares w l' ∧
        l'.shape = l.shape ∧ l'.elementType = l.elementType) ↔ 0 < parts) ∧
      (parts = 0 → l.shape.dim? axis = some .unknown ∧
        (concat other values axis).apply g' = (.error (.internal .concatOfNoValues), g')) := by
  obtain ⟨hlen, l, p, hl, hp, hvalues⟩ := declares_split h
  obtain ⟨htype, d, hd, hshape, hzero⟩ := Layout.times_of_part hp
  have hnone (hparts : parts = 0) :
      (concat other values axis).apply g' = (.error (.internal .concatOfNoValues), g') := by
    obtain rfl := List.length_eq_zero_iff.1 (hlen.trans hparts)
    exact apply_throw ..
  refine ⟨hlen, l, hl, ⟨?_, fun hpos => ?_⟩, fun hparts => ⟨hzero hparts, hnone hparts⟩⟩
  · rintro ⟨w, g'', l', hconcat, -⟩
    refine Nat.pos_of_ne_zero fun hparts => ?_
    simp [hnone hparts] at hconcat
  · have hne : values ≠ [] := List.ne_nil_of_length_pos (hlen ▸ hpos)
    rw [hlen.symm] at hshape
    have hlength : ∀ m, d = .known m → values.length * m < 2 ^ 64 := by
      rintro m rfl
      refine hword l _ hl.layout? ?_
      rw [← hshape, Shape.dim?, Shape.setDim,
        List.getElem?_set_self (List.getElem?_eq_some_iff.1 hd).1]
      rfl
    exact ⟨_, _, _, apply_concat_of_same hne hvalues hd hlength, Graph.declares_push_new rfl, hshape,
      htype⟩

/-- A matrix with six columns and an unknown number of rows. -/
def openRows : Graph Unit :=
  .ofSpecs [{ op := .parameter, outputs := [.planar ⟨[.unknown, .known 6]⟩ .f32] }] []

/-- The columns in three pairs, and side by side again. -/
theorem concat_split_openRows :
    let run := (split "pairs" ⟨0, 0⟩ 1 3).apply openRows
    run.1 = .ok [⟨1, 0⟩, ⟨1, 1⟩, ⟨1, 2⟩] ∧
      ∃ w g'' l', (concat "all" [⟨1, 0⟩, ⟨1, 1⟩, ⟨1, 2⟩] 1).apply run.2 = (.ok w, g'') ∧
        g''.Declares w l' ∧ l'.shape = ⟨[.unknown, .known 6]⟩ ∧ l'.elementType = .f32 := by
  intro run
  have hrun : run.1 = .ok [⟨1, 0⟩, ⟨1, 1⟩, ⟨1, 2⟩] := by decide +kernel
  have hsplit : (split "pairs" ⟨0, 0⟩ 1 3).apply openRows =
      (.ok [⟨1, 0⟩, ⟨1, 1⟩, ⟨1, 2⟩], run.2) := Prod.ext hrun rfl
  have hword : ∀ l n, openRows.layout? ⟨0, 0⟩ = some l → l.shape.dim? 1 = some (.known n) →
      n < 2 ^ 64 := by
    intro l n hl hn
    obtain rfl := Option.some.inj hl
    obtain rfl : 6 = n := Dim.known.inj (Option.some.inj hn)
    decide
  obtain ⟨-, l, hl, hiff, -⟩ := concat_split "all" hsplit hword
  obtain rfl := Option.some.inj hl.layout?
  exact ⟨hrun, hiff.2 (by decide)⟩

/-- The rows, of which nobody knows how many there are, can be cut into no parts, and then there is
nothing that could be laid end to end. -/
theorem exists_split_into_none :
    ∃ (g g' : Graph Unit) (v : Value) (axis parts : Nat) (values : List Value),
      (split "none" v axis parts).apply g = (.ok values, g') ∧
        ((concat "all" values axis).apply g').1 = .error (.internal .concatOfNoValues) := by
  have hsplit : ((split "none" ⟨0, 0⟩ 0 0).apply openRows).1 = .ok [] := by decide +kernel
  exact ⟨openRows, _, ⟨0, 0⟩, 0, 0, [], Prod.ext hsplit rfl, rfl⟩

end Edit

end Dataflow
