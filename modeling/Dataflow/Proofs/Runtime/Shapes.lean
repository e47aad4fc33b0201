import Dataflow.Layout.Result
import Dataflow.Proofs.Lists
import Dataflow.Proofs.Runtime.Reshaping

/-!
# Shapes that are right

A declared shape leaves some lengths open and may say nothing false about the others.  The shape that
is declared for the result of an operation is right if those that are declared for the operands are,
whatever the lengths are that these leave open.

## Main definitions

* `Dim.Agrees`, `Shape.Agrees` : a declaration that says nothing false about lengths.
* `Reshapes` : the lengths that a reshape target allows.

## Main statements

* `Shape.Agrees.insertAxis`, `Shape.Agrees.dropAxis`, `Shape.Agrees.setDim`, `Shape.Agrees.permuted` :
  what is done to axes.
* `Shape.Agrees.reshape` : copied, given and inferred lengths.
* `Layout.agrees_part`, `Layout.agrees_concatDim` : parts, and values laid end to end.
-/

namespace Dataflow

theorem bind_eq_ok {ε α γ : Type} {x : Except ε α} {f : α → Except ε γ} {c : γ} :
    x >>= f = .ok c ↔ ∃ a, x = .ok a ∧ f a = .ok c := by
  cases x <;> simp [bind, Except.bind]

theorem throw_ne_ok {ε α : Type} {e : ε} {a : α} : (throw e : Except ε α) ≠ .ok a := by
  simp [throw, throwThe, MonadExceptOf.throw]

/-- The dimension says nothing false about a length. -/
def Dim.Agrees (d : Dim) (n : Nat) : Prop :=
  ∀ m, d = .known m → m = n

/-- The shape has the rank of a tensor with the given lengths, and says nothing false about any of
them. -/
def Shape.Agrees (s : Shape) (lengths : List Nat) : Prop :=
  List.Forall₂ Dim.Agrees s.dims lengths

namespace Dim

variable {d e : Dim} {m n : Nat}

theorem agrees_known : (known m).Agrees n ↔ m = n :=
  ⟨fun h => h m rfl, fun h _ hk => (known.inj hk).symm.trans h⟩

theorem agrees_unknown (n : Nat) : unknown.Agrees n :=
  fun _ h => absurd h (by simp)

/-- The sum of two dimensions is known if both of them are. -/
theorem add_eq_known_iff : d.add e = known n ↔
    ∃ a b, d = known a ∧ e = known b ∧ Word.wrap (a + b) = n := by
  cases d <;> cases e <;> simp [add]

theorem Agrees.add (hd : d.Agrees m) (he : e.Agrees n) (hlt : m + n < 2 ^ 64) :
    (d.add e).Agrees (m + n) := by
  intro k hk
  obtain ⟨a, b, rfl, rfl, rfl⟩ := add_eq_known_iff.1 hk
  rw [agrees_known.1 hd, agrees_known.1 he, Word.wrap_of_lt hlt]

end Dim

/-- The given lengths are those of a tensor reshaped to a target: there are as many elements, an entry
zero of the target copies the length at its place, and an entry other than zero and `-1` is the length
itself. -/
structure Reshapes (lengths : List Nat) (target : List Int) (result : List Nat) : Prop where
  numel_eq : numel result = numel lengths
  length_eq : result.length = target.length
  copied : ∀ (i n : Nat), target[i]? = some 0 → result[i]? = some n → lengths[i]? = some n
  given : ∀ (i : Nat) (t : Int) (n : Nat), target[i]? = some t → t ≠ 0 → t ≠ -1 →
    result[i]? = some n → t = n

/-! ### Axes -/

namespace Shape

variable {s s' : Shape} {xs ys : List Nat} {axis n : Nat} {d : Dim}

theorem Agrees.length_eq (h : s.Agrees xs) : xs.length = s.rank :=
  (List.Forall₂.length_eq h).symm

theorem agrees_ofLengths (xs : List Nat) : (ofLengths xs).Agrees xs := by
  rw [Agrees, ofLengths, List.forall₂_map_left_iff, List.forall₂_same]
  exact fun n _ => Dim.agrees_known.2 rfl

/-- A declared dimension says nothing false about the length at its place. -/
theorem Agrees.dim (h : s.Agrees xs) (hd : s.dim? axis = some d) (hn : xs[axis]? = some n) :
    d.Agrees n := by
  obtain ⟨m, hm, hagrees⟩ := exists_of_forall₂_left h hd
  rwa [Option.some.inj (hn.symm.trans hm)]

/-- Another length on one axis. -/
theorem Agrees.setDim (h : s.Agrees xs) (axis : Nat) (hd : d.Agrees n) :
    (s.setDim axis d).Agrees (xs.set axis n) :=
  forall₂_set h axis hd

theorem Agrees.insertAxis (h : s.Agrees xs) (haxis : axis ≤ xs.length) (hd : d.Agrees n) :
    (s.insertAxis axis d).Agrees (xs.insertIdx axis n) := by
  rw [insertIdx_eq_take_drop haxis]
  exact List.rel_append (List.forall₂_take axis h) (.cons hd (List.forall₂_drop axis h))

theorem Agrees.dropAxis (h : s.Agrees xs) (axis : Nat) :
    (s.dropAxis axis).Agrees (xs.eraseIdx axis) := by
  rw [Agrees, Shape.dropAxis, List.eraseIdx_eq_take_drop_succ, List.eraseIdx_eq_take_drop_succ]
  exact List.rel_append (List.forall₂_take axis h) (List.forall₂_drop (axis + 1) h)

theorem forall₂_of_permuted {order : List Nat} (h : s.permuted order = .ok s') :
    List.Forall₂ (fun i d => s.dim? i = some d) order s'.dims := by
  unfold permuted at h
  split at h
  · rw [bind_eq_ok] at h
    obtain ⟨dims, hdims, h⟩ := h
    obtain rfl := Except.ok.inj h
    refine (forall₂_of_mapM_ok hdims).imp fun i d hd => ?_
    split at hd
    · next e he => rw [he, Except.ok.inj hd]
    · simp at hd
  · simp at h

theorem Agrees.permuted {order : List Nat} (h : s.Agrees xs) (hs : s.permuted order = .ok s')
    (hys : List.Forall₂ (fun i n => xs[i]? = some n) order ys) : s'.Agrees ys := by
  have hdims := forall₂_of_permuted hs
  refine List.forall₂_iff_get.2 ⟨hdims.length_eq.symm.trans hys.length_eq, fun i hi hi' => ?_⟩
  have hlt : i < order.length := by rwa [hdims.length_eq]
  exact h.dim ((List.forall₂_iff_get.1 hdims).2 i hlt hi) ((List.forall₂_iff_get.1 hys).2 i hlt hi')

/-! ### Reshape targets -/

/-- What the entry `t` of a target at place `i` says about the dimension there. -/
inductive Asks (input : Shape) (i : Nat) : Int → Dim → Prop
  | copied {d : Dim} : input.dim? i = some d → Asks input i 0 d
  | inferred : Asks input i (-1) .unknown
  | given {t : Int} : 0 < t → Asks input i t (.known t.toNat)

/-- The first entry of a target asks for the first dimension.  It is the entry to infer if it is `-1`,
and otherwise that is left to the rest. -/
theorem exists_of_reshapeDims_cons {input : Shape} {target rest : List Int} {t : Int} {i : Nat}
    {inferred : Bool} {dims : List Dim} {at? : Option Nat}
    (h : reshapeDims input target i inferred (t :: rest) = .ok (dims, at?)) :
    ∃ d later later?, dims = d :: later ∧ Asks input i t d ∧
      (t ≠ -1 ∧ reshapeDims input target (i + 1) inferred rest = .ok (later, later?) ∧
          at? = later? ∨
        t = -1 ∧ inferred = false ∧
          reshapeDims input target (i + 1) true rest = .ok (later, later?) ∧ at? = some i) := by
  rw [reshapeDims] at h
  split at h
  · next ht =>
    cases hdim : input.dim? i with
    | none => simp [hdim] at h
    | some d =>
      rw [hdim, bind_eq_ok] at h
      obtain ⟨⟨later, later?⟩, hrest, h⟩ := h
      obtain ⟨rfl, rfl⟩ := Prod.mk.inj (Except.ok.inj h)
      exact ⟨d, later, later?, rfl, ht ▸ .copied hdim, .inl ⟨by omega, hrest, rfl⟩⟩
  · split at h
    · next ht =>
      obtain ⟨rfl, hinferred⟩ := ht
      rw [bind_eq_ok] at h
      obtain ⟨⟨later, later?⟩, hrest, h⟩ := h
      obtain ⟨rfl, rfl⟩ := Prod.mk.inj (Except.ok.inj h)
      exact ⟨.unknown, later, later?, rfl, .inferred, .inr ⟨rfl, hinferred, hrest, rfl⟩⟩
    · split at h
      · next ht =>
        rw [bind_eq_ok] at h
        obtain ⟨⟨later, later?⟩, hrest, h⟩ := h
        obtain ⟨rfl, rfl⟩ := Prod.mk.inj (Except.ok.inj h)
        exact ⟨_, later, later?, rfl, .given ht, .inl ⟨by omega, hrest, rfl⟩⟩
      · exact absurd h throw_ne_ok

/-- The dimensions that the entries of a target ask for, and the place of the entry to infer. -/
theorem asks_of_reshapeDims {input : Shape} {target entries : List Int} {i : Nat} {inferred : Bool}
    {dims : List Dim} {at? : Option Nat}
    (h : reshapeDims input target i inferred entries = .ok (dims, at?)) :
    dims.length = entries.length ∧
      (∀ j t d, entries[j]? = some t → dims[j]? = some d → Asks input (i + j) t d) ∧
        ∀ k, at? = some k → i ≤ k ∧ entries[k - i]? = some (-1) := by
  induction entries generalizing i inferred dims at? with
  | nil =>
    obtain ⟨rfl, rfl⟩ := Prod.mk.inj (Except.ok.inj h)
    simp
  | cons t rest ih =>
    obtain ⟨d, later, later?, rfl, hd, hrest⟩ := exists_of_reshapeDims_cons h
    obtain ⟨inferred', hrest', hat⟩ : ∃ inferred',
        reshapeDims input target (i + 1) inferred' rest = .ok (later, later?) ∧
          (at? = later? ∨ t = -1 ∧ at? = some i) := by
      obtain ⟨-, hrest, hat⟩ | ⟨ht, -, hrest, hat⟩ := hrest
      · exact ⟨_, hrest, .inl hat⟩
      · exact ⟨_, hrest, .inr ⟨ht, hat⟩⟩
    obtain ⟨hlen, hasks, hlater⟩ := ih hrest'
    refine ⟨by simp [hlen], fun j t' d' ht hd' => ?_, fun k hk => ?_⟩
    · cases j with
      | zero =>
        obtain rfl : t = t' := by simpa using ht
        obtain rfl : d = d' := by simpa using hd'
        exact hd
      | succ j =>
        have hnext := hasks j t' d' (by simpa using ht) (by simpa using hd')
        rwa [Nat.add_right_comm] at hnext
    · obtain rfl | ⟨rfl, rfl⟩ := hat
      · obtain ⟨hle, hk⟩ := hlater k hk
        rw [show k - i = k - (i + 1) + 1 by omega, List.getElem?_cons_succ]
        exact ⟨by omega, hk⟩
      · obtain rfl := Option.some.inj hk
        simp

theorem Asks.agrees {target : List Int} {i : Nat} {t : Int} (h : Asks s i t d) (hs : s.Agrees xs)
    (hys : Reshapes xs target ys) (ht : target[i]? = some t) (hn : ys[i]? = some n) :
    d.Agrees n := by
  cases h with
  | copied hd => exact hs.dim hd (hys.copied i n ht hn)
  | inferred => exact Dim.agrees_unknown n
  | given hpos =>
    have hgiven := hys.given i t n ht (by omega) (by omega) hn
    exact Dim.agrees_known.2 (by omega)

theorem isKnown_of_lengths? (h : s.lengths? = some xs) : s.isKnown = true := by
  refine List.all_eq_true.2 fun d hd => ?_
  obtain ⟨i, hi⟩ := List.getElem?_of_mem hd
  obtain ⟨n, -, hn⟩ := exists_of_forall₂_left (mapM_eq_some_iff.1 h) hi
  cases d with
  | known m => rfl
  | unknown => simp [Dim.length?] at hn

/-- Lengths that are all known are the lengths. -/
theorem Agrees.eq_of_lengths? {known : List Nat} (h : s.Agrees xs)
    (hknown : s.lengths? = some known) : known = xs := by
  obtain ⟨dims⟩ := s
  replace h : List.Forall₂ Dim.Agrees dims xs := h
  replace hknown := mapM_eq_some_iff.1 hknown
  induction h generalizing known with
  | nil => exact List.forall₂_nil_left_iff.1 hknown
  | @cons d n _ _ hd _ ih =>
    obtain ⟨m, rest, hm, hrest, rfl⟩ := List.forall₂_cons_left_iff.1 hknown
    rw [ih hrest]
    cases d with
    | known k => rw [← Option.some.inj hm, Dim.agrees_known.1 hd]
    | unknown => simp [Dim.length?] at hm

/-- A known number of elements is the number of elements, as a word. -/
theorem Agrees.knownCount {dims : List Dim} {count : Nat} (h : (Shape.mk dims).Agrees xs)
    (hcount : Shape.knownCount dims = some count) :
    (Shape.mk dims).lengths? = some xs ∧ count = wordCount xs := by
  obtain ⟨known, hknown, rfl⟩ := Option.map_eq_some_iff.1 hcount
  obtain rfl := h.eq_of_lengths? hknown
  exact ⟨hknown, rfl⟩

/-- The factor that is left of a number of elements which is a word. -/
theorem div_wordCount_of_eq_mul (h : numel xs = n * numel ys) (hlt : numel xs < 2 ^ 64)
    (hys : wordCount ys ≠ 0) : wordCount xs / wordCount ys = n := by
  have hxs : wordCount xs = numel xs := Word.wrap_of_lt hlt
  obtain rfl | hn := Nat.eq_zero_or_pos n
  · rw [hxs, h, Nat.zero_mul, Nat.zero_div]
  · have hle : numel ys ≤ numel xs := h ▸ Nat.le_mul_of_pos_left _ hn
    have hword : wordCount ys = numel ys := Word.wrap_of_lt (Nat.lt_of_le_of_lt hle hlt)
    rw [hword] at hys ⊢
    rw [hxs, h, Nat.mul_div_cancel _ (Nat.pos_of_ne_zero hys)]

/-- The inferred length is what the other ones leave of the number of elements, unless this number is
known and not a word. -/
theorem Agrees.reshape {target : List Int} (h : s.Agrees xs) (hs : s.reshape target = .ok s')
    (hys : Reshapes xs target ys)
    (hcount : -1 ∈ target → s.lengths? = some xs → numel xs < 2 ^ 64) : s'.Agrees ys := by
  rw [Shape.reshape, bind_eq_ok] at hs
  obtain ⟨⟨dims, at?⟩, hdims, hs⟩ := hs
  obtain ⟨hlen, hasks, hat⟩ := asks_of_reshapeDims hdims
  have hagrees : (Shape.mk dims).Agrees ys := by
    refine List.forall₂_iff_get.2 ⟨hlen.trans hys.length_eq.symm, fun i hi hi' => ?_⟩
    have ht : i < target.length := hlen ▸ hi
    have hask := hasks i target[i] dims[i] (List.getElem?_eq_getElem ht) (List.getElem?_eq_getElem hi)
    rw [Nat.zero_add] at hask
    exact hask.agrees h hys (List.getElem?_eq_getElem ht) (List.getElem?_eq_getElem hi')
  dsimp only at hs
  split at hs
  · obtain rfl := Except.ok.inj hs
    exact hagrees
  · next k =>
    split at hs
    · next total known htotal hknown =>
      split at hs
      · exact absurd hs throw_ne_ok
      · next hdivides =>
        obtain rfl := Except.ok.inj hs
        have hopen : target[k]? = some (-1) := (hat k rfl).2
        have hk : k < ys.length := hys.length_eq ▸ (List.getElem?_eq_some_iff.1 hopen).1
        -- The length at the place is a factor of the number of elements, which stays the same.
        have hfactor : numel xs = ys[k] * numel (ys.eraseIdx k) := by
          rw [← hys.numel_eq, ← numel_set _ hk, List.set_getElem_self]
        obtain ⟨hlengths, rfl⟩ := h.knownCount htotal
        obtain ⟨-, rfl⟩ := (hagrees.dropAxis k).knownCount hknown
        have hlt := hcount (List.mem_of_getElem? hopen) hlengths
        have hinferred : wordCount xs / wordCount (ys.eraseIdx k) = ys[k] :=
          div_wordCount_of_eq_mul hfactor hlt (fun hzero => hdivides (.inl hzero))
        have hset := hagrees.setDim k (d := .known (wordCount xs / wordCount (ys.eraseIdx k)))
          (n := ys[k]) (Dim.agrees_known.2 hinferred)
        rwa [List.set_getElem_self] at hset
    · obtain rfl := Except.ok.inj hs
      exact hagrees

end Shape

/-! ### Declared results -/

namespace Layout

variable {l l' first : Layout} {xs ys : List Nat} {axis : Nat}

theorem agrees_unsqueeze (h : l.shape.Agrees xs) (hl : l.unsqueeze axis = .ok l') :
    axis ≤ xs.length ∧ l'.shape.Agrees (xs.insertIdx axis 1) := by
  unfold unsqueeze at hl
  split at hl
  · next hrank =>
    obtain rfl := Except.ok.inj hl
    have hlen : axis ≤ xs.length := by rwa [h.length_eq]
    exact ⟨hlen, h.insertAxis hlen (Dim.agrees_known.2 rfl)⟩
  · simp at hl

theorem agrees_squeeze (h : l.shape.Agrees xs) (hl : l.squeeze axis = .ok l') :
    l'.shape.Agrees (xs.eraseIdx axis) := by
  unfold squeeze at hl
  split at hl
  · obtain rfl := Except.ok.inj hl
    exact h.dropAxis axis
  · obtain rfl := Except.ok.inj hl
    exact h.dropAxis axis
  · simp at hl

theorem agrees_transpose {order : List Nat} (h : l.shape.Agrees xs)
    (hl : l.transpose order = .ok l')
    (hys : List.Forall₂ (fun i n => xs[i]? = some n) order ys) : l'.shape.Agrees ys := by
  rw [transpose, bind_eq_ok] at hl
  obtain ⟨s, hs, hl⟩ := hl
  obtain rfl := Except.ok.inj hl
  exact h.permuted hs hys

theorem agrees_reshape {target : List Int} (h : l.shape.Agrees xs)
    (hl : l.reshape target = .ok l') (hys : Reshapes xs target ys)
    (hcount : -1 ∈ target → l.shape.lengths? = some xs → numel xs < 2 ^ 64) :
    l'.shape.Agrees ys := by
  rw [reshape, bind_eq_ok] at hl
  obtain ⟨s, hs, hl⟩ := hl
  obtain rfl := Except.ok.inj hl
  exact h.reshape hs hys hcount

/-- One of the equal parts along an axis. -/
theorem agrees_part {parts n : Nat} (h : l.shape.Agrees xs) (hl : l.part axis parts = .ok l')
    (hparts : 0 < parts) (hlen : xs[axis]? = some (parts * n)) : l'.shape.Agrees (xs.set axis n) := by
  unfold part at hl
  split at hl
  · next d hd =>
    split at hl
    · obtain rfl := Except.ok.inj hl
      have hdim : d = parts * n := Dim.agrees_known.1 (h.dim hd hlen)
      exact h.setDim axis (Dim.agrees_known.2 (by rw [hdim, Nat.mul_div_cancel_left n hparts]))
    · simp at hl
  · next hd =>
    obtain rfl := Except.ok.inj hl
    have hset := h.setDim axis (Dim.agrees_unknown n)
    have hsame : l.shape.setDim axis .unknown = l.shape := by
      obtain ⟨hi, heq⟩ := List.getElem?_eq_some_iff.1 hd
      rw [Shape.setDim, ← heq, List.set_getElem_self]
    rwa [hsame] at hset
  · simp at hl

/-- A known sum of lengths along the axis of a concatenation has known summands. -/
theorem known_of_concatDim {d : Dim} {n : Nat} (h : first.concatDim axis d l = .ok (.known n)) :
    d ≠ .unknown ∧ l.shape.dim? axis ≠ some .unknown := by
  unfold concatDim at h
  split at h
  · obtain ⟨a, b, rfl, hb, -⟩ := Dim.add_eq_known_iff.1 (Except.ok.inj h)
    exact ⟨nofun, fun hdim => by simp [hdim] at hb⟩
  · simp at h

/-- One more summand of the length along the axis of a concatenation. -/
theorem agrees_concatDim {d d' : Dim} {n : Nat} (h : l.shape.Agrees xs) (hd : d.Agrees n)
    (hd' : first.concatDim axis d l = .ok d') (hlt : n + xs.getD axis 0 < 2 ^ 64) :
    d'.Agrees (n + xs.getD axis 0) := by
  unfold concatDim at hd'
  split at hd'
  · obtain rfl := Except.ok.inj hd'
    refine hd.add ?_ hlt
    cases hdim : l.shape.dim? axis with
    | none => exact Dim.agrees_unknown _
    | some e =>
      obtain ⟨m, hm, -⟩ := exists_of_forall₂_left h hdim
      rw [List.getD_eq_getElem?_getD, hm]
      exact h.dim hdim hm
  · simp at hd'

end Layout

end Dataflow
