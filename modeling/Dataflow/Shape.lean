import Dataflow.Word

/-!
# Shapes with unknown dimensions

A shape has a known rank.  Each of its dimensions is either a known length or unknown until the
graph runs.

## Main definitions

* `Dim`, `Shape` : one dimension, and the list of all of them.
* `Shape.text` : the printed form, with a question mark for an unknown dimension.
* `Shape.insertAxis`, `Shape.dropAxis`, `Shape.setDim` : editing at one axis.
* `numel`, `wordCount` : the number of elements of a tensor of known lengths, and its word.
* `isAddressable` : whether the lengths leave room for the positions of a tensor.
-/

namespace Dataflow

/-- The length of a tensor along one axis. -/
inductive Dim
  | known (length : Nat)
  | unknown
deriving DecidableEq

namespace Dim

/-- A negative length stands for an unknown one. -/
def ofInt (n : Int) : Dim :=
  if n < 0 then unknown else known n.toNat

def isKnown : Dim → Bool
  | known _ => true
  | unknown => false

def length? : Dim → Option Nat
  | known n => some n
  | unknown => none

/-- The printed form of a dimension. -/
def text : Dim → String
  | known n => Nat.repr n
  | unknown => "?"

/-- The length of two tensors laid end to end.  The sum is a word. -/
def add : Dim → Dim → Dim
  | known m, known n => known (Word.wrap (m + n))
  | _, _ => unknown

end Dim

/-- The dimensions of a tensor, outermost first. -/
structure Shape where
  dims : List Dim
deriving DecidableEq

namespace Shape

/-- The shape with the given lengths, a negative one being unknown. -/
def ofInts (lengths : List Int) : Shape :=
  ⟨lengths.map Dim.ofInt⟩

/-- The shape with the given known lengths. -/
def ofLengths (lengths : List Nat) : Shape :=
  ⟨lengths.map Dim.known⟩

def rank (s : Shape) : Nat :=
  s.dims.length

def dim? (s : Shape) (axis : Nat) : Option Dim :=
  s.dims[axis]?

/-- Whether every length is known. -/
def isKnown (s : Shape) : Bool :=
  s.dims.all Dim.isKnown

/-- Whether some length is unknown. -/
def isDynamic (s : Shape) : Bool :=
  !s.isKnown

/-- The lengths, when all of them are known. -/
def lengths? (s : Shape) : Option (List Nat) :=
  s.dims.mapM Dim.length?

/-- The shape without the dimension at `axis`; an axis past the rank drops nothing. -/
def dropAxis (s : Shape) (axis : Nat) : Shape :=
  ⟨s.dims.eraseIdx axis⟩

/-- The shape with `d` before the dimension at `axis`; an axis past the rank appends. -/
def insertAxis (s : Shape) (axis : Nat) (d : Dim) : Shape :=
  ⟨s.dims.take axis ++ d :: s.dims.drop axis⟩

/-- The shape with `d` at `axis`; an axis past the rank changes nothing. -/
def setDim (s : Shape) (axis : Nat) (d : Dim) : Shape :=
  ⟨s.dims.set axis d⟩

/-- The printed form: the dimensions between brackets, separated by commas without blanks. -/
def text (s : Shape) : String :=
  "[" ++ ",".intercalate (s.dims.map Dim.text) ++ "]"

end Shape

/-- The number of elements of a tensor with the given lengths. -/
def numel (lengths : List Nat) : Nat :=
  lengths.foldr (· * ·) 1

@[simp] theorem numel_nil : numel [] = 1 :=
  rfl

@[simp] theorem numel_cons (n : Nat) (lengths : List Nat) :
    numel (n :: lengths) = n * numel lengths :=
  rfl

/-- The number of elements of a tensor with the given lengths, multiplied as words. -/
def wordCount (lengths : List Nat) : Nat :=
  Word.wrap (numel lengths)

/-- Whether the lengths of a tensor can be told apart by positions in memory: the lengths other than
zero multiply to a signed word.  A tensor without elements needs that, too. -/
def isAddressable (lengths : List Nat) : Bool :=
  decide (numel (lengths.filter (· != 0)) < 0x8000_0000_0000_0000)

theorem numel_append (l m : List Nat) : numel (l ++ m) = numel l * numel m := by
  induction l with
  | nil => simp
  | cons n l ih => simp [ih, Nat.mul_assoc]

theorem mem_of_numel_eq_zero {lengths : List Nat} (h : numel lengths = 0) : 0 ∈ lengths := by
  induction lengths with
  | nil => simp at h
  | cons n rest ih =>
    rw [numel_cons] at h
    obtain h | h := Nat.mul_eq_zero.1 h
    · exact h ▸ List.mem_cons_self
    · exact List.mem_cons_of_mem n (ih h)

theorem dvd_numel {lengths : List Nat} {n : Nat} (h : n ∈ lengths) : n ∣ numel lengths := by
  induction lengths with
  | nil => simp at h
  | cons m rest ih =>
    rw [numel_cons]
    obtain rfl | h := List.mem_cons.1 h
    · exact Nat.dvd_mul_right _ _
    · exact Nat.dvd_mul_left_of_dvd (ih h) m

/-- Leaving out the lengths that are zero does not lower the product. -/
theorem numel_le_numel_filter (lengths : List Nat) :
    numel lengths ≤ numel (lengths.filter (· != 0)) := by
  induction lengths with
  | nil => simp
  | cons n l ih =>
    rcases Nat.eq_zero_or_pos n with rfl | hn
    · simp
    · rw [List.filter_cons_of_pos (by simpa using Nat.ne_of_gt hn), numel_cons, numel_cons]
      exact Nat.mul_le_mul_left n ih

/-- The lengths of a tensor whose positions fit into memory are signed words. -/
theorem lt_of_isAddressable {lengths : List Nat} {n : Nat} (h : isAddressable lengths = true)
    (hn : n ∈ lengths) : n < 0x8000_0000_0000_0000 := by
  obtain rfl | hpos := Nat.eq_zero_or_pos n
  · decide
  · have hmem : n ∈ lengths.filter (· != 0) :=
      List.mem_filter.2 ⟨hn, bne_iff_ne.2 (Nat.ne_of_gt hpos)⟩
    have hfactors : 0 < numel (lengths.filter (· != 0)) := by
      refine Nat.pos_of_ne_zero fun hzero => ?_
      exact absurd (List.mem_filter.1 (mem_of_numel_eq_zero hzero)).2 (by decide)
    exact Nat.lt_of_le_of_lt (Nat.le_of_dvd hfactors (dvd_numel hmem)) (of_decide_eq_true h)

/-- The number of elements of a tensor whose positions fit into memory is a word. -/
theorem wordCount_of_isAddressable {lengths : List Nat} (h : isAddressable lengths) :
    wordCount lengths = numel lengths :=
  Word.wrap_of_lt (Nat.lt_of_le_of_lt (numel_le_numel_filter lengths)
    (Nat.lt_trans (of_decide_eq_true h) (by decide)))

end Dataflow
