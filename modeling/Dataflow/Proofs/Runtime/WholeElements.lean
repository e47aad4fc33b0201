import Dataflow.Proofs.Lists
import Dataflow.Proofs.Single
import Dataflow.Tensor

/-!
# Whole numbers as elements of a tensor

Axes, lengths and counts are read off tensors as signed words.  A single-precision element has to be a
whole number for that.  Whether it is small enough for a signed word is not asked, and the nearest word
is taken for one that is not.

## Main definitions

* `Tensor.numbers` : the numbers that the elements stand for.
* `Tensor.ReadsExactly` : the tensors of signed words are read, with their elements as entries, and no
  others are.

## Main statements

* `Single.toWord_eq_ok_iff` : how a single element is read.
* `Tensor.exists_toInts_iff`, `Tensor.forall₂_of_toInts` : which tensors are read, and with what entries.
* `Tensor.readsExactly_iff` : when that is exact.
* `Tensor.toInts_numbers` : all of it.
-/

namespace Dataflow

/-! ### Single elements -/

/-- The number is a whole one. -/
def IsWhole (q : Option Rat) : Prop :=
  ∃ n : Int, q = some (n : Rat)

/-- The number is a whole one, and a signed word holds it. -/
def IsWord (q : Option Rat) : Prop :=
  ∃ n : Int, Word.IsSigned n ∧ q = some (n : Rat)

theorem IsWord.isWhole {q : Option Rat} (h : IsWord q) : IsWhole q := by
  obtain ⟨n, -, hn⟩ := h
  exact ⟨n, hn⟩

namespace Single

variable {x : Single}

/-- The number as a signed word, if it is a whole one. -/
def toWord (x : Single) : Except Error Int :=
  if x.isIntegral then .ok x.toInt64 else .error (.invalidType (.nonIntegral x))

theorem isIntegral_iff_isWhole : x.isIntegral = true ↔ IsWhole x.value? :=
  ⟨fun h => ⟨x.integer, value?_of_isIntegral h⟩, fun ⟨_, hn⟩ => isIntegral_of_value? hn⟩

/-- A whole number is read as the nearest signed word. -/
theorem toWord_eq_ok_iff {n : Int} :
    x.toWord = .ok n ↔ ∃ m : Int, x.value? = some (m : Rat) ∧ n = Word.clamp m := by
  unfold toWord
  split
  · next h =>
    have hvalue := value?_of_isIntegral h
    rw [Except.ok.injEq, toInt64_eq]
    constructor
    · rintro rfl
      exact ⟨x.integer, hvalue, rfl⟩
    · rintro ⟨m, hm, rfl⟩
      rw [Int.cast_inj.1 (Option.some.inj (hvalue.symm.trans hm))]
  · next h =>
    refine iff_of_false (by simp) ?_
    rintro ⟨m, hm, -⟩
    exact h (isIntegral_of_value? hm)

theorem exists_toWord_iff : (∃ n, x.toWord = .ok n) ↔ IsWhole x.value? := by
  simp only [toWord_eq_ok_iff]
  exact ⟨fun ⟨_, m, hm, _⟩ => ⟨m, hm⟩, fun ⟨m, hm⟩ => ⟨_, m, hm, rfl⟩⟩

/-- Any other number is named by the error. -/
theorem toWord_eq_error_iff {e : Error} :
    x.toWord = .error e ↔ ¬ IsWhole x.value? ∧ e = .invalidType (.nonIntegral x) := by
  rw [← isIntegral_iff_isWhole, toWord]
  split
  · next h => simp [h]
  · next h => simp [h, eq_comm]

end Single

/-! ### All elements -/

namespace Tensor

variable {t : Tensor} {ns : List Int}

/-- The numbers that the elements stand for; infinities and NaNs stand for none. -/
def numbers (t : Tensor) : List (Option Rat) :=
  match t.elements with
  | .f32 data => data.map Single.value?
  | .i64 data => data.map fun n : Int => some (n : Rat)

/-- The integers among the elements are signed words. -/
def HoldsWords (t : Tensor) : Prop :=
  ∀ data, t.elements = .i64 data → ∀ n ∈ data, Word.IsSigned n

/-- Exactly the tensors of signed words are read, and the entries are the elements. -/
def ReadsExactly (t : Tensor) : Prop :=
  ((∃ ns, t.toInts = .ok ns) ↔ ∀ q ∈ t.numbers, IsWord q) ∧
    ∀ ns, t.toInts = .ok ns → List.Forall₂ (fun q n => q = some ((n : Int) : Rat)) t.numbers ns

theorem toInts_of_singles {data : List Single} (h : t.elements = .f32 data) :
    t.toInts = data.mapM Single.toWord := by
  rw [toInts, h]
  rfl

theorem toInts_of_words {data : List Int} (h : t.elements = .i64 data) : t.toInts = .ok data := by
  rw [toInts, h]

theorem exists_toInts_iff (t : Tensor) : (∃ ns, t.toInts = .ok ns) ↔ ∀ q ∈ t.numbers, IsWhole q := by
  cases h : t.elements with
  | f32 data =>
    rw [toInts_of_singles h, exists_mapM_ok_iff, numbers, h, List.forall_mem_map]
    simp only [Single.exists_toWord_iff]
  | i64 data =>
    rw [toInts_of_words h, numbers, h, List.forall_mem_map]
    exact iff_of_true ⟨data, rfl⟩ fun n _ => ⟨n, rfl⟩

/-- Each entry is the signed word nearest to its element. -/
theorem forall₂_of_toInts (ht : t.HoldsWords) (h : t.toInts = .ok ns) :
    List.Forall₂ (fun q n => ∃ m : Int, q = some (m : Rat) ∧ n = Word.clamp m) t.numbers ns := by
  cases helements : t.elements with
  | f32 data =>
    rw [toInts_of_singles helements] at h
    rw [numbers, helements, List.forall₂_map_left_iff]
    exact (forall₂_of_mapM_ok h).imp fun x n hx => Single.toWord_eq_ok_iff.1 hx
  | i64 data =>
    rw [toInts_of_words helements] at h
    obtain rfl := Except.ok.inj h
    rw [numbers, helements, List.forall₂_map_left_iff, List.forall₂_same]
    exact fun n hn => ⟨n, rfl, (Word.clamp_eq_self_iff.2 (ht data helements n hn)).symm⟩

/-- The error names the first element that is not a whole number. -/
theorem exists_of_toInts_error {e : Error} (h : t.toInts = .error e) :
    ∃ front x back, t.elements = .f32 (front ++ x :: back) ∧ (∀ y ∈ front, IsWhole y.value?) ∧
      ¬ IsWhole x.value? ∧ e = .invalidType (.nonIntegral x) := by
  cases helements : t.elements with
  | f32 data =>
    rw [toInts_of_singles helements] at h
    obtain ⟨front, x, back, rfl, hfront, hx⟩ := exists_of_mapM_error h
    obtain ⟨hx, he⟩ := Single.toWord_eq_error_iff.1 hx
    exact ⟨front, x, back, rfl, fun y hy => Single.exists_toWord_iff.1 (hfront y hy), hx, he⟩
  | i64 data =>
    rw [toInts_of_words helements] at h
    simp at h

/-- A tensor is read exactly unless all of its elements are whole numbers and one of them is too large
for a signed word. -/
theorem readsExactly_iff (ht : t.HoldsWords) :
    t.ReadsExactly ↔ ((∀ q ∈ t.numbers, IsWhole q) → ∀ q ∈ t.numbers, IsWord q) := by
  constructor
  · rintro ⟨hread, -⟩ hwhole
    exact hread.1 (t.exists_toInts_iff.2 hwhole)
  · intro hsmall
    refine ⟨t.exists_toInts_iff.trans ⟨hsmall, fun h q hq => (h q hq).isWhole⟩, fun ns hns => ?_⟩
    have hword := hsmall (t.exists_toInts_iff.1 ⟨ns, hns⟩)
    have hentries := (List.forall₂_and_left _ _).2 ⟨hword, forall₂_of_toInts ht hns⟩
    refine hentries.imp fun q n hq => ?_
    obtain ⟨⟨k, hk, hqk⟩, m, hqm, rfl⟩ := hq
    obtain rfl := Int.cast_inj.1 (Option.some.inj (hqk.symm.trans hqm))
    rw [hqk, Word.clamp_eq_self_iff.2 hk]

/-- **Elements read as signed words.**  Let the integers among the elements be signed words.  A tensor
is read exactly if every element is a whole number, and otherwise the error names the first element
that is none: a fraction, an infinity or a NaN.  Each entry is the signed word nearest to its element.
So exactly the tensors of signed words are read, and the entries are the elements, unless all elements
are whole numbers and some of them are too large for a signed word. -/
theorem toInts_numbers (t : Tensor) (ht : t.HoldsWords) :
    ((∃ ns, t.toInts = .ok ns) ↔ ∀ q ∈ t.numbers, IsWhole q) ∧
    (∀ e, t.toInts = .error e → ∃ front x back, t.elements = .f32 (front ++ x :: back) ∧
      (∀ y ∈ front, IsWhole y.value?) ∧ ¬ IsWhole x.value? ∧ e = .invalidType (.nonIntegral x)) ∧
    (∀ ns, t.toInts = .ok ns →
      List.Forall₂ (fun q n => ∃ m : Int, q = some (m : Rat) ∧ n = Word.clamp m) t.numbers ns) ∧
    (t.ReadsExactly ↔ ((∀ q ∈ t.numbers, IsWhole q) → ∀ q ∈ t.numbers, IsWord q)) :=
  ⟨t.exists_toInts_iff, fun _ => exists_of_toInts_error, fun _ => forall₂_of_toInts ht,
    readsExactly_iff ht⟩

/-- Three, minus zero, and the numbers `-2 ^ 63` and `2 ^ 63`. -/
def extremes : Tensor :=
  ⟨[2, 2], .f32 [⟨0x40400000⟩, ⟨0x80000000⟩, ⟨0xdf000000⟩, ⟨0x5f000000⟩], rfl⟩

/-- All of them are whole numbers, and the last one is too large: it is read as the number before it. -/
theorem toInts_numbers_extremes :
    extremes.HoldsWords ∧ extremes.toInts = .ok [3, 0, -2 ^ 63, 2 ^ 63 - 1] ∧
      (∀ q ∈ extremes.numbers, IsWhole q) ∧
      (∃ m : Int, extremes.numbers[3]? = some (some (m : Rat)) ∧ 2 ^ 63 - 1 = Word.clamp m ∧
        m = 2 ^ 63) ∧ ¬ extremes.ReadsExactly := by
  have ht : extremes.HoldsWords := fun data h => by simp [extremes] at h
  have hread : extremes.toInts = .ok [3, 0, -2 ^ 63, 2 ^ 63 - 1] := by decide
  have hlast : extremes.numbers[3]? = some (some ((2 ^ 63 : Int) : Rat)) :=
    congrArg some (Single.value?_of_isIntegral (x := ⟨0x5f000000⟩) (by decide))
  obtain ⟨hwhole, -, hentries, hexact⟩ := toInts_numbers extremes ht
  have hall := hwhole.1 ⟨_, hread⟩
  obtain ⟨q, hq, m, rfl, hm⟩ := exists_of_forall₂_right (i := 3) (hentries _ hread) rfl
  have h63 : m = 2 ^ 63 := Int.cast_inj.1 (Option.some.inj (Option.some.inj (hq.symm.trans hlast)))
  refine ⟨ht, hread, hall, ⟨m, hq, hm, h63⟩, fun hexactly => ?_⟩
  obtain ⟨k, hk, hkm⟩ := hexact.1 hexactly hall _ (List.mem_of_getElem? hq)
  rw [← Int.cast_inj.1 (Option.some.inj hkm), h63] at hk
  exact absurd hk.2 (by decide)

/-- The number `2 ^ 63` alone. -/
def justTooLarge : Tensor :=
  ⟨[1], .f32 [⟨0x5f000000⟩], rfl⟩

/-- A number that is too large for a signed word is read as another number. -/
theorem exists_not_readsExactly : ¬ ∀ t : Tensor, t.HoldsWords → t.ReadsExactly := by
  intro hall
  have ht : justTooLarge.HoldsWords := fun data h => by simp [justTooLarge] at h
  have hread : justTooLarge.toInts = .ok [2 ^ 63 - 1] := by decide
  have hvalue : justTooLarge.numbers = [some ((2 ^ 63 : Int) : Rat)] :=
    congrArg ([·]) (Single.value?_of_isIntegral (x := ⟨0x5f000000⟩) (by decide))
  have hentries := (hall justTooLarge ht).2 _ hread
  rw [hvalue, List.forall₂_cons] at hentries
  exact absurd (Int.cast_inj.1 (Option.some.inj hentries.1)) (by decide)

end Tensor

end Dataflow
