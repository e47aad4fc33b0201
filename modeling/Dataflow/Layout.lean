import Dataflow.ElementType
import Dataflow.Shape

/-!
# Layouts of values

What a graph declares about a value before it runs: its shape, the type of its elements and the
order of its elements in memory.

## Main definitions

* `Format` : an order of elements in memory, and the planar one of each rank.
* `Layout` : the declaration.
* `Kernel` : the kind of implementation that a node asks for.
-/

namespace Dataflow

/-- The order of the elements of a tensor in memory. -/
inductive Format
  | bfyx
  | bfzyx
  | bfwzyx
  | byxf
  | fsv16
deriving DecidableEq

namespace Format

/-- The planar format of a rank. -/
def planar (rank : Nat) : Format :=
  if rank ≤ 4 then bfyx else if rank = 5 then bfzyx else bfwzyx

def text : Format → String
  | bfyx => "bfyx"
  | bfzyx => "bfzyx"
  | bfwzyx => "bfwzyx"
  | byxf => "byxf"
  | fsv16 => "fsv16"

end Format

/-- The declared layout of a value. -/
structure Layout where
  shape : Shape
  elementType : ElementType
  format : Format
deriving DecidableEq

namespace Layout

/-- The layout in the planar format of the shape's rank. -/
def planar (shape : Shape) (elementType : ElementType) : Layout :=
  ⟨shape, elementType, .planar shape.rank⟩

def isDynamic (l : Layout) : Bool :=
  l.shape.isDynamic

/-- The printed form: element type, shape and format. -/
def text (l : Layout) : String :=
  l.elementType.text ++ l.shape.text ++ ":" ++ l.format.text

end Layout

/-- The kind of implementation that a node prefers. -/
inductive Kernel
  | any
  | ocl
  | cpu
deriving DecidableEq

namespace Kernel

def text : Kernel → String
  | any => "any"
  | ocl => "ocl"
  | cpu => "cpu"

end Kernel

end Dataflow
