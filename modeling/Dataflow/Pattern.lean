import Dataflow.Error
import Dataflow.Graph.Query

/-!
# Patterns

A pattern describes a value of a graph together with the values that it is computed from.  Its
nodes are numbered in the order in which they are made, and a node refers to its inputs by their
numbers; the last node describes the value itself.  A node that is referred to twice describes one
and the same value.

## Main definitions

* `Condition` : a property of a value of a graph, with the usual ones.
* `PatternNode`, `Pattern` : one node, and a list of nodes with the last one first.
* `PatternBuilder` : making the nodes of a pattern one by one.
* `Pattern.optional` : a node for an operation that may be absent.
-/

namespace Dataflow

/-! ### Conditions -/

/-- A property of a value of a graph. -/
abbrev Condition (β : Type) : Type :=
  Graph β → Value → Bool

namespace Condition

variable {β : Type}

/-- The value has the given number of uses. -/
def useCount (n : Nat) : Condition β :=
  fun g v => (g.uses v).length == n

/-- The value has the given rank. -/
def rank (n : Nat) : Condition β :=
  fun g v => (g.layout? v).any (·.shape.rank == n)

/-- Every dimension of the value is known. -/
def knownShape : Condition β :=
  fun g v => (g.layout? v).any (·.shape.isKnown)

/-- The value has a declared layout, and therefore a known rank. -/
def knownRank : Condition β :=
  fun g v => (g.layout? v).isSome

/-- The value has the given element type. -/
def elementType (t : ElementType) : Condition β :=
  fun g v => g.elementType? v == some t

/-- A constant node produces the value. -/
def constant : Condition β :=
  fun g v => g.isConstant v

/-- All of the given conditions hold. -/
def all (conditions : List (Condition β)) : Condition β :=
  fun g v => conditions.all fun c => c g v

end Condition

/-! ### Nodes of a pattern -/

/-- What a node of a pattern stands for. -/
inductive PatternKind
  /-- Any value. -/
  | any
  /-- A value of a node with one of the operations.  If inputs are listed, they describe all inputs
  of the node in order. -/
  | op (ops : List Op) (inputs : List Nat)
  /-- A value of a node with one of the operations that passes the value of its input through, or
  else the value of the input itself. -/
  | optional (ops : List Op) (input : Nat)

/-- A node of a pattern. -/
structure PatternNode (β : Type) where
  kind : PatternKind
  /-- The condition on the value that the node describes. -/
  accepts : Condition β := fun _ _ => true
  /-- The name under which the value is found in a match. -/
  label : Option String := none

/-- The numbers of the pattern nodes that a node refers to. -/
def PatternKind.inputs : PatternKind → List Nat
  | any => []
  | op _ inputs => inputs
  | optional _ input => [input]

/-- The nodes of a pattern, the last one first: a node is numbered by the nodes behind it. -/
structure Pattern (β : Type) where
  nodes : List (PatternNode β)

namespace Pattern

variable {β : Type}

/-- The number of the node that describes the value that is looked for. -/
def root (p : Pattern β) : Nat :=
  p.nodes.length - 1

/-- The node with a number. -/
def node? (p : Pattern β) (i : Nat) : Option (PatternNode β) :=
  if i < p.nodes.length then p.nodes[p.nodes.length - 1 - i]? else none

/-- Every node refers only to nodes before it, and there is a last one. -/
def WellFormed (p : Pattern β) : Prop :=
  p.nodes ≠ [] ∧ ∀ i e, p.node? i = some e → ∀ j ∈ e.kind.inputs, j < i

/-- A node for an operation that may be absent.  It has one input, and names an operation. -/
def optional (ops : List Op) (inputs : List Nat) (accepts : Condition β) :
    Except Error (PatternNode β) :=
  match inputs, ops with
  | [input], _ :: _ => .ok { kind := .optional ops input, accepts }
  | [_], [] => .error (.invalidPattern .optionalWithoutOps)
  | _, _ => .error (.invalidPattern (.optionalInputs inputs.length))

end Pattern

/-! ### Making patterns -/

/-- Makes the nodes of a pattern one by one; the state lists the nodes made so far, the last one
first. -/
abbrev PatternBuilder (β : Type) : Type → Type :=
  StateM (List (PatternNode β))

namespace PatternBuilder

variable {β α : Type}

/-- A further node, and its number. -/
def add (e : PatternNode β) : PatternBuilder β Nat :=
  modifyGet fun nodes => (nodes.length, e :: nodes)

/-- A node for any value. -/
def any : PatternBuilder β Nat :=
  add { kind := .any }

/-- A node for any value that satisfies a condition. -/
def anyWith (accepts : Condition β) : PatternBuilder β Nat :=
  add { kind := .any, accepts }

/-- A node for an operation with the given inputs. -/
def op (ops : List Op) (inputs : List Nat) : PatternBuilder β Nat :=
  add { kind := .op ops inputs }

/-- A node for an operation with the given inputs that satisfies a condition. -/
def opWith (ops : List Op) (inputs : List Nat) (accepts : Condition β) : PatternBuilder β Nat :=
  add { kind := .op ops inputs, accepts }

/-- A node for an operation that may be absent. -/
def optional (op : Op) (input : Nat) (accepts : Condition β) : PatternBuilder β Nat :=
  add { kind := .optional [op] input, accepts }

/-- The pattern that has been made, and the result of making it. -/
def build (b : PatternBuilder β α) : Pattern β × α :=
  let (a, nodes) := b.run []
  (⟨nodes⟩, a)

end PatternBuilder

end Dataflow
