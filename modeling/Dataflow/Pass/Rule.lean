import Dataflow.Edit
import Dataflow.Pattern.Match

/-!
# Rules

A rule pairs a pattern with an action on its matches.  The action changes the graph and answers
whether it did so; an action that answers no has declined the match.

## Main definitions

* `RunConfig` : how a rule or a set of rules is run.
* `Rule` : a pattern and an action.
* `Rule.attempt` : the rule tried at one node.
-/

namespace Dataflow

/-- How rules are run. -/
structure RunConfig where
  /-- The largest number of traversals. -/
  maxIterations : Nat := 100
  /-- Whether an error of an action counts as a declined match. -/
  continueOnError : Bool := false
  /-- Whether the graph is compacted after every traversal. -/
  compactAfter : Bool := true

/-- A pattern with an action on its matches. -/
structure Rule (β : Type) where
  name : String
  pattern : Pattern β
  action : Match → Edit β Bool
  config : RunConfig := {}

/-- What came of trying a rule at a node. -/
inductive Outcome
  | noMatch
  | declined
  /-- The rule was applied; the list holds the graph nodes that its pattern matched. -/
  | applied (nodes : List Nat)
deriving DecidableEq

namespace Rule

variable {β : Type}

/-- The rule tried at some outputs of a node in turn, up to the first one at which it applies.
Before them the outcome was `sofar`. -/
def attemptAt (rule : Rule β) (id : Nat) : List Nat → (sofar : Outcome) → Edit β Outcome
  | [], sofar => return sofar
  | i :: rest, sofar => do
    match rule.pattern.matchValue (← get) ⟨id, i⟩ with
    | none => attemptAt rule id rest sofar
    | some m =>
      if ← rule.action m then return .applied m.nodes
      else attemptAt rule id rest .declined

/-- The rule tried at the outputs that a live node has at the start. -/
def attempt (rule : Rule β) (id : Nat) : Edit β Outcome := do
  match (← get).live? id with
  | none => return .noMatch
  | some n => rule.attemptAt id (List.range n.outputs.length) .noMatch

end Rule

end Dataflow
