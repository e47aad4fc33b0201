import Dataflow.ElementType
import Dataflow.Shape
import Dataflow.Single.Text

/-!
# Reported errors

The ways in which an operation on a graph is refused, and the text that reports each of them.

Every error but two is an answer: the operation found its arguments unsuitable.  The exceptions are
`Error.outOfRange`, a list read past its end, and `Error.tooLong`, a list that no memory holds.
They end whatever is running, so a run that is told to go on after errors still stops at them.

## Main definitions

* `PatternFault`, `ShapeFault`, `TypeFault`, `InternalFault` : the causes of one kind of error.
* `Error` : an error of any kind.
* `Error.message` : the report.
* `Error.isReported` : every error but those two.
-/

namespace Dataflow

/-- The printed form of a list: its entries between brackets, separated by commas and blanks. -/
def bracketed {α : Type} (text : α → String) (l : List α) : String :=
  "[" ++ ", ".intercalate (l.map text) ++ "]"

/-- The printed form of a list of integers. -/
def intsText (l : List Int) : String :=
  bracketed Int.repr l

/-- The printed form of a list of sizes. -/
def sizesText (l : List Nat) : String :=
  bracketed Nat.repr l

/-- Why a pattern cannot be built. -/
inductive PatternFault
  /-- An optional pattern has exactly one input pattern. -/
  | optionalInputs (given : Nat)
  /-- An optional pattern names at least one operation. -/
  | optionalWithoutOps
  | described (text : String)
deriving DecidableEq

/-- Why shapes do not fit together. -/
inductive ShapeFault
  /-- The number of elements is not the one that the lengths call for. -/
  | dataLength (given : Nat) (lengths : List Nat)
  /-- An axis order names another number of axes than there are. -/
  | permutation (order : List Nat) (rank : Nat)
  /-- A reshape target has a negative entry that asks for nothing. -/
  | reshapeTarget (target : List Int)
  /-- The elements cannot be spread over a reshape target. -/
  | reshape (shape : Shape) (target : List Int)
  /-- The dimension to drop is absent or known to differ from one. -/
  | squeeze (axis : Nat) (shape : Shape)
  /-- The dimension to split is absent or does not divide into equal parts. -/
  | split (axis : Nat) (shape : Shape) (parts : Nat)
  /-- Two values to lay end to end differ in rank or element type. -/
  | concat (first other : Shape)
  /-- Two tensors to lay end to end differ off the axis. -/
  | incompatibleParts
  /-- The lengths of tensors laid end to end leave no room for the positions. -/
  | joinedLengths
  /-- A sequence needs a batch axis and a time axis. -/
  | sequenceInput (shape : Shape)
  | described (text : String)
deriving DecidableEq

/-- Why element types do not fit. -/
inductive TypeFault
  | expected (wanted given : ElementType)
  /-- An element of an index tensor has a fractional part or is not finite. -/
  | nonIntegral (element : Single)
  | described (text : String)
deriving DecidableEq

/-- Requests that no well-formed caller makes. -/
inductive InternalFault
  | noInput (node input : Nat)
  /-- The lengths of a tensor leave no room for the positions of its elements. -/
  | tensorLengths
  | concatOfNoTensors
  | concatOfNoValues
  | described (text : String)
deriving DecidableEq

/-- An error of an operation on a graph. -/
inductive Error
  | invalidPattern (cause : PatternFault)
  | invalidNode (node : Nat)
  | missingField (field : String)
  | constantNotFound (node input : Nat)
  | shapeMismatch (cause : ShapeFault)
  | invalidAxis (axis : Int) (rank : Nat)
  | invalidType (cause : TypeFault)
  | internal (cause : InternalFault)
  /-- A list was read past its end. -/
  | outOfRange
  /-- A list was asked for that is too long for any memory. -/
  | tooLong
deriving DecidableEq

/-- The report of lengths that leave no room for the positions of a tensor. -/
def lengthOverflowText : String :=
  "ShapeError/Overflow: arithmetic overflow"

def PatternFault.text : PatternFault → String
  | optionalInputs given => "optional takes exactly one input pattern, got " ++ Nat.repr given
  | optionalWithoutOps => "optional needs at least one op type"
  | described text => text

def ShapeFault.text : ShapeFault → String
  | dataLength given lengths =>
    "data length " ++ Nat.repr given ++ " does not match shape " ++ sizesText lengths
      ++ " (expected " ++ Nat.repr (wordCount lengths) ++ ")"
  | permutation order rank =>
    "permutation " ++ sizesText order ++ " does not fit rank " ++ Nat.repr rank
  | reshapeTarget target => "invalid reshape target " ++ intsText target
  | reshape shape target => "cannot reshape " ++ shape.text ++ " to " ++ intsText target
  | squeeze axis shape => "cannot squeeze axis " ++ Nat.repr axis ++ " of " ++ shape.text
  | split axis shape parts =>
    "cannot split axis " ++ Nat.repr axis ++ " of " ++ shape.text ++ " into " ++ Nat.repr parts
  | concat first other => "cannot concat " ++ first.text ++ " with " ++ other.text
  | incompatibleParts => "ShapeError/IncompatibleShape: incompatible shapes"
  | joinedLengths => lengthOverflowText
  | sequenceInput shape => "sequence input " ++ shape.text ++ " needs batch and time axes"
  | described text => text

def TypeFault.text : TypeFault → String
  | expected wanted given => "expected " ++ wanted.text ++ " payload, got " ++ given.text
  | nonIntegral element => "non-integral value " ++ element.text ++ " in index tensor"
  | described text => text

def InternalFault.text : InternalFault → String
  | noInput node input => "node " ++ Nat.repr node ++ " has no input " ++ Nat.repr input
  | tensorLengths => lengthOverflowText
  | concatOfNoTensors => "concat of zero tensors"
  | concatOfNoValues => "concat of zero inputs"
  | described text => text

namespace Error

/-- The report of an error. -/
def message : Error → String
  | invalidPattern cause => "Invalid pattern: " ++ cause.text
  | invalidNode node => "Invalid node: " ++ Nat.repr node
  | missingField field => "Missing required field: " ++ field
  | constantNotFound node input =>
    "Constant not found for input " ++ Nat.repr input ++ " of node " ++ Nat.repr node
  | shapeMismatch cause => "Shape mismatch: " ++ cause.text
  | invalidAxis axis rank =>
    "Axis " ++ Int.repr axis ++ " out of bounds for rank " ++ Nat.repr rank
  | invalidType cause => "Invalid data type: " ++ cause.text
  | internal cause => "Internal error: " ++ cause.text
  | outOfRange => "index out of range"
  | tooLong => "list too long"

/-- Whether the error is an answer that a run may be told to step over. -/
def isReported : Error → Bool
  | outOfRange | tooLong => false
  | _ => true

end Error

end Dataflow
