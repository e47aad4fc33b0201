import Dataflow.Op
import Dataflow.Word

/-!
# Recurrent cells

The three kinds of recurrent cells.  A cell computes the next hidden state of a network, and the
long short-term memory also the next cell state, from one position of its input.
-/

namespace Dataflow

/-- A kind of recurrent cell. -/
inductive Cell
  | lstm
  | rnn
  | gru
deriving DecidableEq

namespace Cell

/-- The operation of one step. -/
def stepOp : Cell → Op
  | lstm => .lstmCell
  | rnn => .rnnCell
  | gru => .gruCell

/-- The operation of a whole sequence. -/
def sequenceOp : Cell → Op
  | lstm => .lstmSequence
  | rnn => .rnnSequence
  | gru => .gruSequence

/-- The number of gates, each of which has rows of its own in the weights. -/
def gates : Cell → Nat
  | lstm => 4
  | rnn => 1
  | gru => 3

/-- Whether there is a cell state beside the hidden state. -/
def hasCellState : Cell → Bool
  | lstm => true
  | rnn | gru => false

/-- The number of states that a step takes and returns. -/
def stateCount (c : Cell) : Nat :=
  if c.hasCellState then 2 else 1

/-- The number of rows of the weights when there are `hidden` rows per gate.  The product is a
word. -/
def rows (c : Cell) (hidden : Nat) : Nat :=
  Word.wrap (c.gates * hidden)

/-- Whether a bias of the given length fits: `hidden` entries per gate, and for the gated recurrent
unit possibly as many more. -/
def fitsBias (c : Cell) (hidden length : Nat) : Bool :=
  length == c.rows hidden || (c == gru && length == Word.wrap ((c.gates + 1) * hidden))

end Cell

end Dataflow
