import Dataflow.Node

/-!
# Directions of sequence nodes

A sequence node runs its cell forward, backward, or both ways, as its attribute says; a node
without the attribute runs forward.
-/

namespace Dataflow

/-- The direction that a sequence node runs in, forward by default. -/
def Node.direction {β : Type} (n : Node β) : String :=
  (n.str? "direction").getD "forward"

/-- The attributes with another direction. -/
def Attributes.withDirection (a : Attributes) (direction : String) : Attributes :=
  a.insert "direction" (.str direction)

end Dataflow
