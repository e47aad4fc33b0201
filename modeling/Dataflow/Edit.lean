import Dataflow.Graph.Mutate

/-!
# Sequences of changes

An edit changes a graph step by step and ends in a result or an error.  After an error the steps
that went before it stay done.

## Main definitions

* `Edit` : a sequence of changes.
* `Edit.always`, `Edit.attempt`, `Edit.ask` : one step that succeeds, one that may fail and then
  changes nothing, and one that only reads.
-/

namespace Dataflow

/-- A change of a graph with a result of type `α` or an error. -/
abbrev Edit (β α : Type) : Type :=
  ExceptT Error (StateM (Graph β)) α

namespace Edit

variable {β α : Type}

/-- The change that a function makes. -/
def always (f : Graph β → α × Graph β) : Edit β α :=
  modifyGet f

/-- The change that a function makes unless it fails. -/
def attempt (f : Graph β → Except Error (α × Graph β)) : Edit β α := do
  match f (← get) with
  | .ok (a, g) => set g; return a
  | .error e => throw e

/-- A question that may have no answer. -/
def ask (f : Graph β → Except Error α) : Edit β α := do
  match f (← get) with
  | .ok a => return a
  | .error e => throw e

/-- The result of an edit, and the graph it leaves behind. -/
def apply (e : Edit β α) (g : Graph β) : Except Error α × Graph β :=
  e.run.run g

def addNode (spec : NodeSpec β) : Edit β Nat :=
  attempt (·.addNode spec)

def addConstant (name : String) (data : Tensor) : Edit β Value :=
  always (·.addConstant name data)

/-- A constant of rank one. -/
def addInts (name : String) (values : List Int) : Edit β Value :=
  addConstant name (.vector values)

/-- The readers of one value read another one; their number. -/
def redirect (v w : Value) : Edit β Nat :=
  always (·.redirect v w)

def markEliminated (id : Nat) : Edit β Bool :=
  always (·.markEliminated id)

end Edit

end Dataflow
