import Dataflow.Attribute
import Dataflow.Op
import Dataflow.Proofs.Runtime.Shapes

/-!
# Lengths at run time

What the operations that change shapes do to the lengths of their operands when a graph runs.  An
operation that reads axes, lengths or positions from a further operand needs the entries of that
operand as well, so that a tensor is described here by its lengths and, as far as they matter, its
entries.

## Main definitions

* `Extent` : the lengths of a tensor, and its entries if they are whole numbers.
* `Op.RunsTo` : the extents of the results of an operation.
-/

namespace Dataflow

/-- A tensor at run time, as far as the shapes of results depend on it: its lengths, and its entries
if it lists whole numbers. -/
structure Extent where
  lengths : List Nat
  ints? : Option (List Int) := none

/-- The axis that a number names, counted from the end if it is negative. -/
def namedAxis? (a : Int) (rank : Nat) : Option Nat :=
  let b := if a < 0 then a + rank else a
  if 0 ≤ b ∧ b < rank then some b.toNat else none

theorem namedAxis?_natCast {axis rank k : Nat} (h : namedAxis? axis rank = some k) :
    k = axis ∧ axis < rank := by
  have hfront : ¬ (axis : Int) < 0 := by omega
  simp only [namedAxis?, if_neg hfront] at h
  split at h
  · next hlt =>
    obtain rfl := Option.some.inj h
    omega
  · simp at h

/-- A tensor with the first lengths can be repeated so that it has the second ones: they are matched
from the end, and a length of one may become any other. -/
def Repeats (lengths result : List Nat) : Prop :=
  ∃ lead tail, result = lead ++ tail ∧ List.Forall₂ (fun m n => m = 1 ∨ m = n) lengths tail

/-- The extents of the results that an operation has for operands of the given extents.  An operation
is left without results where it is not defined. -/
inductive Op.RunsTo (a : Attributes) : Op → List Extent → List Extent → Prop
  | constant {t : Tensor} : a.get? "value" = some (.tensor t) →
      RunsTo a .constant [] [⟨t.shape, t.toInts.toOption⟩]
  | unsqueeze {x axes y : Extent} {i : Int} {axis : Nat} : axes.ints? = some [i] →
      namedAxis? i (x.lengths.length + 1) = some axis → y.lengths = x.lengths.insertIdx axis 1 →
        RunsTo a .unsqueeze [x, axes] [y]
  | squeeze {x axes y : Extent} {i : Int} {axis : Nat} : axes.ints? = some [i] →
      namedAxis? i x.lengths.length = some axis → x.lengths[axis]? = some 1 →
        y.lengths = x.lengths.eraseIdx axis → RunsTo a .squeeze [x, axes] [y]
  | transpose {x axes y : Extent} {order : List Nat} : axes.ints? = some (order.map Int.ofNat) →
      order.Perm (List.range x.lengths.length) →
        List.Forall₂ (fun i n => x.lengths[i]? = some n) order y.lengths →
          RunsTo a .transpose [x, axes] [y]
  | reshape {x shape y : Extent} {target : List Int} : shape.ints? = some target →
      Reshapes x.lengths target y.lengths → RunsTo a .reshape [x, shape] [y]
  | concat {x y : Extent} {rest : List Extent} {i : Int} {axis : Nat} :
      a.get? "axis" = some (.int i) → namedAxis? i x.lengths.length = some axis →
        (∀ z ∈ rest, z.lengths.length = x.lengths.length ∧
          ∀ j ≠ axis, z.lengths[j]? = x.lengths[j]?) →
          y.lengths = x.lengths.set axis ((x :: rest).map (·.lengths.getD axis 0)).sum →
            RunsTo a .concat (x :: rest) [y]
  | split {x : Extent} {ys : List Extent} {i : Int} {axis parts n : Nat} :
      a.get? "axis" = some (.int i) → a.get? "num_splits" = some (.int parts) →
        namedAxis? i x.lengths.length = some axis → 0 < parts →
          x.lengths[axis]? = some (parts * n) → ys.length = parts →
            (∀ y ∈ ys, y.lengths = x.lengths.set axis n) → RunsTo a .split [x] ys
  | shapeOf {x y : Extent} : y.lengths = [x.lengths.length] →
      y.ints? = some (x.lengths.map Int.ofNat) → RunsTo a .shapeOf [x] [y]
  | gather {x positions y : Extent} {entries indices results : List Int} :
      a.get? "axis" = some (.int 0) → x.lengths = [entries.length] → x.ints? = some entries →
        positions.ints? = some indices →
          List.Forall₂ (fun i n => 0 ≤ i ∧ entries[i.toNat]? = some n) indices results →
            y.lengths = positions.lengths → y.ints? = some results →
              RunsTo a .gather [x, positions] [y]
  | broadcast {x shape y : Extent} : shape.ints? = some (y.lengths.map Int.ofNat) →
      Repeats x.lengths y.lengths →
        (∀ n, x.ints? = some [n] → y.ints? = some (List.replicate (numel y.lengths) n)) →
          RunsTo a .broadcast [x, shape] [y]

end Dataflow
