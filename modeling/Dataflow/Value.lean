/-!
# Values and their uses

A value is one output of a node, a use is one input of a node.  Nodes are named by numbers.

## Main definitions

* `Value`, `Use` : an output and an input of a node.
* `Value.lt` : values in order of their node, then of the output.
-/

namespace Dataflow

/-- Output number `index` of a node. -/
structure Value where
  node : Nat
  index : Nat
deriving DecidableEq

/-- Input number `input` of a node. -/
structure Use where
  node : Nat
  input : Nat
deriving DecidableEq

def Use.text (u : Use) : String :=
  Nat.repr u.node ++ ":" ++ Nat.repr u.input

namespace Value

def text (v : Value) : String :=
  Nat.repr v.node ++ ":" ++ Nat.repr v.index

/-- Values in order of their node, then of the output. -/
def lt (v w : Value) : Prop :=
  v.node < w.node ∨ (v.node = w.node ∧ v.index < w.index)

instance (v w : Value) : Decidable (v.lt w) :=
  inferInstanceAs (Decidable (_ ∨ _))

theorem lt_irrefl (v : Value) : ¬ v.lt v := by
  unfold lt
  omega

theorem lt_trans {u v w : Value} (h : u.lt v) (h' : v.lt w) : u.lt w := by
  unfold lt at *
  omega

theorem lt_of_not_lt {v w : Value} (h : ¬ v.lt w) (hne : w ≠ v) : w.lt v := by
  cases v
  cases w
  simp only [lt, ne_eq, mk.injEq] at *
  omega

end Value

end Dataflow
