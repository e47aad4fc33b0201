import Dataflow.Proofs.Runtime.Builders
import Dataflow.Proofs.Runtime.Pairs
import Dataflow.Tensor.Concat

/-!
# What the builders make of two tensors side by side

Values that are laid end to end along an axis of length one become a pair, a pair is split into its
two tensors again, and with its axis moved and taken together with the last one it lies end to end
along that.

## Main statements

* `Tensor.grid_concat_pair` : two constants laid end to end.
* `Edit.computes_concat` : two values laid end to end.
* `Edit.computes_split` : the two parts of a pair.
* `Edit.computes_reshape_lastTwo` : the last two axes taken together.
-/

namespace Dataflow

/-! ### Constants -/

/-- The elements of two constants that are laid end to end along an axis of length one follow each
other. -/
theorem Tensor.assemble_pair {α : Type} {wrap : List α → Elements} {shape : List Nat} {c : Tensor}
    {data data' : List α} (hlen : data.length = numel shape) (hlen' : data'.length = numel shape)
    (h : assemble wrap (1 :: shape) 0 [1 :: shape, 1 :: shape] [data, data'] = .ok c) :
    c.shape = 2 :: shape ∧ c.elements = wrap (data ++ data') := by
  have hjoin : joinData (1 :: shape) 0 [1 :: shape, 1 :: shape] [data, data'] = data ++ data' := by
    simp [joinData, interleave, ← hlen, List.take_of_length_le (Nat.le_of_eq (hlen'.trans hlen.symm))]
  obtain ⟨_, -, h⟩ := bind_eq_ok.1 h
  obtain ⟨lengths, hlengths, h⟩ := bind_eq_ok.1 h
  obtain rfl : lengths = [1, 1] := (Except.ok.inj hlengths).symm
  dsimp only at h
  split at h
  · unfold ofElements at h
    split at h
    · obtain rfl := Except.ok.inj h
      exact ⟨rfl, congrArg wrap hjoin⟩
    · simp at h
  · exact absurd h throw_ne_ok

/-- Two constants laid end to end along an axis of length one. -/
theorem Tensor.grid_concat_pair {a b c : Tensor} {t u : Grid} (h : concat [a, b] 0 = .ok c)
    (ha : a.grid = t.insertAxis 0) (hb : b.grid = u.insertAxis 0) (hu : u.shape = t.shape) :
    c.grid = .pair 0 t u := by
  obtain ⟨shape, elements, hlen⟩ := a
  obtain ⟨shape', elements', hlen'⟩ := b
  obtain rfl : shape = 1 :: t.shape := congrArg Grid.shape ha
  obtain rfl : shape' = 1 :: t.shape := hu ▸ congrArg Grid.shape hb
  have hscalars : elements.scalars = t.entries := congrArg Grid.entries ha
  have hscalars' : elements'.scalars = u.entries := congrArg Grid.entries hb
  rw [numel_cons, Nat.one_mul] at hlen hlen'
  have hgrid : ∀ {e : Elements}, c.shape = 2 :: t.shape → c.elements = e →
      e.scalars = elements.scalars ++ elements'.scalars → c.grid = .pair 0 t u := by
    rintro _ hshape rfl he
    have hentries : c.elements.scalars = (Grid.pair 0 t u).entries := by
      rw [Grid.entries_pair_zero hu, ← hscalars, ← hscalars', he]
    exact (Grid.mk.injEq _ _ _ _ _ _).mpr ⟨hshape, hentries⟩
  cases elements with
  | f32 data =>
    cases elements' with
    | f32 data' =>
      obtain ⟨hshape, helements⟩ := assemble_pair hlen hlen' h
      exact hgrid hshape helements (by simp [Elements.scalars])
    | i64 data' => simp [concat, rank, singles, bind, Except.bind, List.mapM_cons] at h
  | i64 data =>
    cases elements' with
    | f32 data' => simp [concat, rank, ints, bind, Except.bind, List.mapM_cons] at h
    | i64 data' =>
      obtain ⟨hshape, helements⟩ := assemble_pair hlen hlen' h
      exact hgrid hshape helements (by simp [Elements.scalars])

/-! ### New nodes -/

namespace Edit

variable {g g' h : Graph Body} {I : Interpretation} {ρ : Environment} {old : Nat → Prop}
  {σ : Value → Value} {v v' w : Value} {t u : Grid} {name : String} {axis : Nat}
  (hk : g.Listed) (hs : g'.Substituted old σ h) (hid : ∀ i, old i → i < g.slots.length)
  (hv : ¬ old v.node)
include hk hs hid hv

/-- Two values laid end to end along an axis of length one. -/
theorem computes_concat (hv' : ¬ old v'.node) (hI : I.Concats)
    (happly : (concat name [v, v'] axis).apply g = (.ok w, g')) (haxis : axis ≤ t.shape.length)
    (hrank : t.shape.length + 1 < 2 ^ 63) (hu : u.shape = t.shape)
    (ht : h.Computes I ρ v (t.insertAxis axis)) (ht' : h.Computes I ρ v' (u.insertAxis axis)) :
    h.Computes I ρ w (.pair axis t u) := by
  obtain ⟨l, d, d', hl, hd, hdim, hin, rfl, rfl⟩ := apply_concat_ok happly
  simp only [List.tail_cons, concatDim, apply_bind_ok_iff, apply_layoutOf_ok_iff,
    apply_pureExcept_ok_iff, apply_pure, Prod.mk.injEq, Except.ok.injEq] at hdim
  obtain ⟨l', _, ⟨hl', rfl⟩, e, _, ⟨he, rfl⟩, rfl, -⟩ := hdim
  have hg : g.Substituted old σ h := .of_pushed hk hs
  have hone : ∀ s : Grid, s.shape = t.shape → (s.insertAxis axis).shape[axis]? = some 1 :=
    fun s hs => by rw [Grid.shape_insertAxis, List.getElem?_insertIdx_self, if_pos (by rwa [hs])]
  have hadmits := hg.admits hv (hin v (by simp)) ht hl
  have hadmits' := hg.admits hv' (hin v' (by simp)) ht' hl'
  -- Both lengths on the axis are one, as far as they are known.
  have htwo : e.admits (1 + 1) = true := by
    unfold Layout.concatDim at he
    split at he
    · obtain rfl := Except.ok.inj he
      refine Dim.admits_add (Layout.admits_getElem? hadmits hd (hone t rfl)) ?_ (by decide)
      cases hd' : l'.shape.dim? axis with
      | none => rfl
      | some d' => exact Layout.admits_getElem? hadmits' hd' (hone u hu)
    · simp at he
  refine hs.computes_single hid rfl (by simpa [concatSpec] using ⟨hv, hv'⟩)
    (.cons ht (.cons ht' .nil)) ?_ rfl (Layout.admits_setDim haxis rfl rfl hadmits htwo _)
  have hlen : (t.insertAxis axis).shape.length = t.shape.length + 1 := by
    rw [Grid.shape_insertAxis, List.length_insertIdx_of_le_length haxis]
  have hnorm := normalizeAxis_of_lt (Nat.lt_succ_of_le haxis) hrank
  rw [concatSpec, hI _ axis _ _ (by rw [Attributes.get?_insert, if_pos rfl]), hlen, hnorm,
    Option.bind_eq_bind, Option.bind_some, Grid.concat?_pair haxis hu]
  rfl

/-- The two parts of a pair. -/
theorem computes_split (hI : I.Splits) {parts : List Value}
    (happly : (split name v axis 2).apply g = (.ok parts, g')) (haxis : axis ≤ t.shape.length)
    (hrank : t.shape.length + 1 < 2 ^ 63) (hu : u.shape = t.shape)
    (ht : h.Computes I ρ v (.pair axis t u)) :
    parts = [⟨g.slots.length, 0⟩, ⟨g.slots.length, 1⟩] ∧
      h.Computes I ρ ⟨g.slots.length, 0⟩ (t.insertAxis axis) ∧
        h.Computes I ρ ⟨g.slots.length, 1⟩ (u.insertAxis axis) := by
  obtain ⟨l, part, hl, hpart, hval, rfl, rfl⟩ := apply_split_ok happly
  have hg : g.Substituted old σ h := .of_pushed hk hs
  have hadmits := hg.admits hv hval ht hl
  have hone : part.admits (t.insertAxis axis) = true :=
    Layout.admits_part (by decide) haxis (Grid.shape_pair axis t u) rfl hpart hadmits
  have hlen : (Grid.pair axis t u).shape.length = t.shape.length + 1 := by
    rw [Grid.shape_pair, List.length_insertIdx_of_le_length haxis]
  have hnorm := normalizeAxis_of_lt (Nat.lt_succ_of_le haxis) hrank
  have hsplit : I .split (splitSpec (β := Body) name v axis 2 part).attributes [.pair axis t u] =
      some [t.insertAxis axis, u.insertAxis axis] := by
    rw [splitSpec, hI _ axis 2 _ ?_ (by rw [Attributes.get?_insert, if_pos rfl]; rfl), hlen, hnorm,
      Option.bind_eq_bind, Option.bind_some]
    · exact Grid.split?_pair haxis hu
    · rw [Attributes.get?_insert, if_neg (by decide), Attributes.get?_insert, if_pos rfl]
  have hnew : ∀ {i : Nat} {s : Grid}, i < 2 → part.admits s = true →
      [t.insertAxis axis, u.insertAxis axis][i]? = some s →
        h.Computes I ρ ⟨g.slots.length, i⟩ s := fun hi hadmits hs' =>
    hs.computes_pushed hid rfl (by simpa [splitSpec] using hv) (.cons ht .nil) hsplit
      (by rw [splitSpec, List.getElem?_replicate, if_pos hi]) hadmits hs'
  refine ⟨rfl, hnew (by decide) hone rfl, hnew (by decide) ?_ rfl⟩
  rw [Layout.admits, Grid.shape_insertAxis, hu]
  exact hone

/-- The last two axes of a pair taken together.  The number of its elements is a word. -/
theorem computes_reshape_lastTwo (hI : I.Reshapes)
    (happly : (reshape name v [0, 0, -1]).apply g = (.ok w, g')) {m n width : Nat} {s : Grid}
    (hshape : t.shape = [m, n, width]) (hu : u.shape = t.shape) (hm : m ≠ 0) (hn : n ≠ 0)
    (hlt : 2 * width < 2 ^ 63) (hcount : numel s.shape < 2 ^ 64)
    (ht : h.Computes I ρ v (.pair 2 t u)) (hconcat : Grid.concat? 2 [t, u] = some s) :
    h.Computes I ρ w s := by
  obtain ⟨l, l', hl, hl', hval, rfl, rfl⟩ := apply_reshape_ok_iff.1 happly
  have hg : g.Substituted old σ h := .of_pushed hk (.of_pushed (hk.push _) hs)
  have hreshape := Grid.reshape?_pair hshape hu hm hn
  rw [hconcat] at hreshape
  have hpair : (Grid.pair 2 t u).shape = [m, n, 2, width] := by simp [hshape]
  have hs' : s.shape = [m, n, 2 * width] := by
    obtain ⟨-, hs'⟩ := Grid.shape_of_concat? hconcat
    simpa [Grid.lengthAt, hu, hshape, Nat.two_mul] using hs'
  have hpairCount : numel (Grid.pair 2 t u).shape < 2 ^ 64 := by
    rw [hpair]
    simpa [hs', Nat.mul_assoc] using hcount
  have hadmits :=
    Layout.admits_reshape_lastTwo hl' (hg.admits hv hval ht hl) hpair hlt hpairCount hs'
  refine hs.computes_pushWithInts hk hid hv rfl (by decide) ht ?_ hadmits
  rw [hI, Grid.ints?_vector, Option.bind_eq_bind, Option.bind_some, hreshape]
  rfl

end Edit

end Dataflow
