/-!
# Reports of passes

What a pass over a graph has done.
-/

namespace Dataflow

/-- The tally of a pass. -/
structure Report where
  /-- Matches that were found, whether or not they led to a change. -/
  matched : Nat := 0
  applied : Nat := 0
  eliminated : Nat := 0
  iterations : Nat := 0
  /-- The roots of the changes, in order. -/
  nodes : List Nat := []
deriving DecidableEq

namespace Report

/-- The tally with a further change, at a node. -/
def record (r : Report) (id : Nat) : Report :=
  { r with applied := r.applied + 1, nodes := r.nodes ++ [id] }

/-- The tally with further eliminated nodes. -/
def recordElimination (r : Report) (count : Nat) : Report :=
  { r with eliminated := r.eliminated + count }

/-- The tally with further matches. -/
def countMatches (r : Report) (count : Nat) : Report :=
  { r with matched := r.matched + count }

/-- The tally with further iterations. -/
def countIterations (r : Report) (count : Nat) : Report :=
  { r with iterations := r.iterations + count }

/-- Whether anything was changed or eliminated. -/
def changed (r : Report) : Bool :=
  decide (0 < r.applied) || decide (0 < r.eliminated)

/-- The tally of two passes, one after the other. -/
def merge (r s : Report) : Report where
  matched := r.matched + s.matched
  applied := r.applied + s.applied
  eliminated := r.eliminated + s.eliminated
  iterations := r.iterations + s.iterations
  nodes := r.nodes ++ s.nodes

end Report

end Dataflow
