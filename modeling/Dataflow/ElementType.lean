/-!
# Element types

The scalar types that tensors of a graph may have.
-/

namespace Dataflow

/-- The type of the elements of a tensor. -/
inductive ElementType
  | f32
  | f16
  | i64
  | i32
  | u8
  | boolean
deriving DecidableEq, Repr

namespace ElementType

/-- The number of bytes of one element. -/
def size : ElementType → Nat
  | f32 | i32 => 4
  | f16 => 2
  | i64 => 8
  | u8 | boolean => 1

def isFloat : ElementType → Bool
  | f32 | f16 => true
  | _ => false

/-- Whether the type is an integer type; truth values are not integers. -/
def isInt : ElementType → Bool
  | i64 | i32 | u8 => true
  | _ => false

/-- The name of the type. -/
def text : ElementType → String
  | f32 => "f32"
  | f16 => "f16"
  | i64 => "i64"
  | i32 => "i32"
  | u8 => "u8"
  | boolean => "boolean"

end ElementType

end Dataflow
