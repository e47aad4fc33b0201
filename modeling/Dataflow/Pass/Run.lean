import Dataflow.Graph.Compact
import Dataflow.Pass.Report
import Dataflow.Pass.Rule

/-!
# Running rules to a fixed point

A traversal visits the nodes that the processing order lists when it begins, and tries the rules at
each of them in turn until one applies.  Nodes that were part of an applied match are not visited
any more in the same traversal.  Traversals are repeated until one applies nothing.

## Main definitions

* `visitNode` : the rules at one node.
* `traverse` : one traversal.
* `runRules` : traversals up to a fixed point.
-/

namespace Dataflow

variable {β : Type}

/-- A rule tried at a node; nothing if its action failed and the run goes on after errors. -/
def Rule.attemptOrSkip (config : RunConfig) (rule : Rule β) (id : Nat) :
    Edit β (Option Outcome) :=
  tryCatch (some <$> rule.attempt id) fun e =>
    if config.continueOnError && e.isReported then return none else throw e

/-- The rules tried at a node in turn up to the first one that applies, and the graph nodes that it
matched. -/
def visitNode (config : RunConfig) (id : Nat) :
    List (Rule β) → Report → Edit β (Report × Option (List Nat))
  | [], report => return (report, none)
  | rule :: rest, report => do
    match ← rule.attemptOrSkip config id with
    | some .noMatch => visitNode config id rest report
    | some .declined | none => visitNode config id rest (report.countMatches 1)
    | some (.applied nodes) => return ((report.countMatches 1).record id, some nodes)

/-- The rules tried at the listed nodes in turn.  Nodes that are not live any more, or are in
`matched`, are passed over.  The second result tells whether any rule has applied. -/
def traverseFrom (config : RunConfig) (rules : List (Rule β)) :
    List Nat → (matched : List Nat) → Report → (changed : Bool) → Edit β (Report × Bool)
  | [], _, report, changed => return (report, changed)
  | id :: rest, matched, report, changed => do
    if matched.contains id || ((← get).live? id).isNone then
      traverseFrom config rules rest matched report changed
    else
      match ← visitNode config id rules report with
      | (report, none) => traverseFrom config rules rest matched report changed
      | (report, some nodes) =>
        traverseFrom config rules rest (id :: nodes ++ matched) report true

/-- One traversal of the nodes in the processing order. -/
def traverse (config : RunConfig) (rules : List (Rule β)) (report : Report) :
    Edit β (Report × Bool) := do
  traverseFrom config rules (← get).order [] report false

/-- At most `steps` traversals, up to the first one that applies nothing. -/
def runRulesFor (config : RunConfig) (rules : List (Rule β)) :
    (steps : Nat) → Report → Edit β Report
  | 0, report => return report
  | steps + 1, report => do
    let before := (← get).pendingCount
    let (report, changed) ← traverse config rules (report.countIterations 1)
    let report := report.recordElimination ((← get).pendingCount - before)
    if config.compactAfter then modify fun g => g.compact.2
    if changed then runRulesFor config rules steps report else return report

/-- The rules run to a fixed point, or as often as the configuration allows. -/
def runRules (config : RunConfig) (rules : List (Rule β)) : Edit β Report :=
  runRulesFor config rules config.maxIterations {}

end Dataflow
