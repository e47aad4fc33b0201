import Dataflow.Pattern

/-!
# Matching

A pattern matches at a value when its nodes can be assigned values of the graph: the last node the
value itself, and the inputs of an assigned node the inputs of the graph node that produces its
value.  The search runs depth first and never takes a choice back, because an assignment leaves
none.  A value that a node finds through its operation is owned by that node alone.

## Main definitions

* `MatchState` : the assignment made so far.
* `embed` : the assignment of a pattern node, and of those it refers to.
* `Match` : a finished assignment.
* `Pattern.matchValue`, `Pattern.matchNode`, `Pattern.findAll` : the matches at a value, at the
  first fitting output of a node, and at all live nodes.
-/

namespace Dataflow

/-- The assignment made so far.  Newer entries come first. -/
structure MatchState where
  bindings : List (Nat × Value) := []
  labels : List (String × Value) := []
  /-- The values found through their operation, each with the pattern node that owns it. -/
  owners : List (Value × Nat) := []
  /-- The nodes of the owned values, in the order in which they were found. -/
  nodes : List Nat := []

namespace MatchState

/-- The value that is assigned to a pattern node. -/
def get? (s : MatchState) (i : Nat) : Option Value :=
  s.bindings.lookup i

/-- The state in which a pattern node has a value, which is also found under its label. -/
def bind (s : MatchState) (i : Nat) (label : Option String) (v : Value) : MatchState :=
  { s with
    bindings := (i, v) :: s.bindings
    labels := (label.map (·, v)).toList ++ s.labels }

/-- The state in which a pattern node owns a value, unless another one does. -/
def claim (s : MatchState) (i : Nat) (v : Value) : Option MatchState :=
  match s.owners.lookup v with
  | some owner => if owner = i then some s else none
  | none =>
    some { s with
      owners := (v, i) :: s.owners
      nodes := if s.nodes.contains v.node then s.nodes else s.nodes ++ [v.node] }

end MatchState

variable {β : Type}

/-- Whether a node passes the value of its first input through: it has one output, and its first
input is the only one that is not constant. -/
def Graph.passesThrough (g : Graph β) (n : Node β) : Bool :=
  match n.inputs with
  | [] => false
  | first :: _ =>
    n.outputs.length == 1 && n.inputs.countP (!g.isConstant ·) == 1 && !g.isConstant first

/-- The assignment of several pattern nodes in turn. -/
def embedAll (embed : Nat → Value → MatchState → Option MatchState) :
    List (Nat × Value) → MatchState → Option MatchState
  | [], s => some s
  | (i, v) :: rest, s => (embed i v s).bind (embedAll embed rest)

/-- The assignment of a pattern node that has no value yet, by its kind.  The inputs that it refers
to are assigned by `embed`. -/
def embedKind (g : Graph β) (embed : Nat → Value → MatchState → Option MatchState)
    (e : PatternNode β) (i : Nat) (v : Value) (n : Node β) (s : MatchState) : Option MatchState :=
  match e.kind with
  | .any => some (s.bind i e.label v)
  | .op ops inputs =>
    if ops.contains n.op then
      (s.claim i v).bind fun s =>
        let s := s.bind i e.label v
        if inputs.isEmpty then some s
        else if inputs.length = n.inputs.length then embedAll embed (inputs.zip n.inputs) s
        else none
    else none
  | .optional ops input =>
    if ops.contains n.op then
      match n.inputs with
      | [] => none
      | first :: _ =>
        if g.passesThrough n then
          (s.claim i v).bind fun s => embed input first (s.bind i e.label v)
        else none
    else embed input v (s.bind i e.label v)

/-- The assignment of the pattern node number `i`.  A node that has a value keeps it. -/
def embed (g : Graph β) : List (PatternNode β) → Nat → Value → MatchState → Option MatchState
  | [], _, _, _ => none
  | e :: rest, i, v, s =>
    if i = rest.length then
      match s.get? i with
      | some w => if w = v then some s else none
      | none =>
        match g.source? v with
        | none => none
        | some n => if e.accepts g v then embedKind g (embed g rest) e i v n s else none
    else embed g rest i v s

/-- A finished assignment. -/
structure Match where
  root : Value
  bindings : List (Nat × Value)
  labels : List (String × Value)
  /-- The graph nodes that were found through their operation. -/
  nodes : List Nat

namespace Match

/-- The value of a pattern node. -/
def get? (m : Match) (i : Nat) : Option Value :=
  m.bindings.lookup i

/-- The value of the last pattern node that was assigned under a label. -/
def label? (m : Match) (name : String) : Option Value :=
  m.labels.lookup name

/-- The number of pattern nodes with a value. -/
def size (m : Match) : Nat :=
  m.bindings.length

end Match

namespace Pattern

/-- The match at a value. -/
def matchValue (p : Pattern β) (g : Graph β) (v : Value) : Option Match :=
  (embed g p.nodes p.root v {}).map fun s => ⟨v, s.bindings, s.labels, s.nodes⟩

/-- The match at the first output of a stored node that has one. -/
def matchNode (p : Pattern β) (g : Graph β) (id : Nat) : Option Match :=
  (g.node? id).bind fun n => n.values.findSome? (p.matchValue g)

/-- The matches at the live nodes, in processing order. -/
def findAll (p : Pattern β) (g : Graph β) : List Match :=
  g.liveNodes.filterMap fun n => p.matchNode g n.id

end Pattern

end Dataflow
