import Dataflow.Error
import Dataflow.Word

/-!
# Constant tensors

A tensor lists its elements in row-major order, so the last axis varies fastest.  Its elements are
single-precision numbers or signed words.

## Main definitions

* `Elements` : a list of elements of one of the two types.
* `Tensor` : lengths, together with as many elements as they call for.
* `Tensor.ofSingles`, `Tensor.ofInts`, `Tensor.vector`, `Tensor.scalar` : building tensors.
* `Tensor.toInts` : the elements as signed words.
* `Tensor.same` : equality, with numbers compared as numbers.
-/

namespace Dataflow

/-- The elements of a tensor. -/
inductive Elements
  | f32 (data : List Single)
  | i64 (data : List Int)
deriving DecidableEq

namespace Elements

def length : Elements → Nat
  | f32 data => data.length
  | i64 data => data.length

def elementType : Elements → ElementType
  | f32 _ => .f32
  | i64 _ => .i64

/-- Equality of the elements, numbers being compared as numbers. -/
def same : Elements → Elements → Bool
  | f32 a, f32 b => a.length == b.length && (a.zip b).all fun p => p.1.equals p.2
  | i64 a, i64 b => a == b
  | _, _ => false

end Elements

/-- A tensor of known lengths. -/
structure Tensor where
  shape : List Nat
  elements : Elements
  length_elements : elements.length = numel shape
deriving DecidableEq

namespace Tensor

/-- The tensor with the given lengths and elements, if their numbers agree as words and there is room
for the positions of the elements. -/
def ofElements (elements : Elements) (shape : List Nat) : Except Error Tensor :=
  if h : elements.length = wordCount shape then
    if hroom : isAddressable shape then
      .ok ⟨shape, elements, h.trans (wordCount_of_isAddressable hroom)⟩
    else .error (.internal .tensorLengths)
  else .error (.shapeMismatch (.dataLength elements.length shape))

def ofSingles (data : List Single) (shape : List Nat) : Except Error Tensor :=
  ofElements (.f32 data) shape

def ofInts (data : List Int) (shape : List Nat) : Except Error Tensor :=
  ofElements (.i64 data) shape

/-- The tensor of rank one with the given elements. -/
def vector (data : List Int) : Tensor :=
  ⟨[data.length], .i64 data, by simp [Elements.length]⟩

/-- The tensor of rank zero with one element. -/
def scalar (n : Int) : Tensor :=
  ⟨[], .i64 [n], rfl⟩

def elementType (t : Tensor) : ElementType :=
  t.elements.elementType

def rank (t : Tensor) : Nat :=
  t.shape.length

/-- The shape, as one without unknown dimensions. -/
def partialShape (t : Tensor) : Shape :=
  .ofLengths t.shape

def size (t : Tensor) : Nat :=
  t.elements.length

/-- The elements of a single-precision tensor. -/
def singles (t : Tensor) : Except Error (List Single) :=
  match t.elements with
  | .f32 data => .ok data
  | .i64 _ => .error (.invalidType (.expected .f32 .i64))

/-- The elements of an integer tensor. -/
def ints (t : Tensor) : Except Error (List Int) :=
  match t.elements with
  | .i64 data => .ok data
  | .f32 _ => .error (.invalidType (.expected .i64 .f32))

/-- The elements as signed words.  Numbers must be whole; those outside the range of a signed word
are held to it. -/
def toInts (t : Tensor) : Except Error (List Int) :=
  match t.elements with
  | .i64 data => .ok data
  | .f32 data => data.mapM fun x =>
    if x.isIntegral then .ok x.toInt64 else .error (.invalidType (.nonIntegral x))

/-- Whether every element equals `n`; numbers are compared with the number nearest to `n`. -/
def allEqual (t : Tensor) (n : Int) : Bool :=
  match t.elements with
  | .i64 data => data.all (· == n)
  | .f32 data => data.all (·.equals (.ofInt n))

/-- Inserting an axis of length one keeps the number of elements. -/
theorem numel_insert_one (shape : List Nat) (axis : Nat) :
    numel (shape.take axis ++ 1 :: shape.drop axis) = numel shape := by
  rw [numel_append, numel_cons, Nat.one_mul, ← numel_append, List.take_append_drop]

/-- The tensor with an axis of length one before the axis number `axis`. -/
def insertAxis (t : Tensor) (axis : Nat) : Except Error Tensor :=
  if axis ≤ t.rank then
    .ok ⟨t.shape.take axis ++ 1 :: t.shape.drop axis, t.elements,
      t.length_elements.trans (numel_insert_one t.shape axis).symm⟩
  else .error (.invalidAxis (Word.signed axis) t.rank)

/-- Equality of tensors, numbers being compared as numbers: a tensor that holds a NaN differs from
itself. -/
def same (t u : Tensor) : Bool :=
  t.shape == u.shape && t.elements.same u.elements

end Tensor

end Dataflow
