import Dataflow.Pass.Run

/-!
# Passes

A pass is anything that can be run over a graph and reports what it did.  Passes are chained; a
chain leaves out those that declare themselves not applicable.

## Main definitions

* `Pass` : a named edit with a test for applicability.
* `Rule.toPass`, `RuleSet.toPass` : one rule, or several rules together, run to a fixed point.
* `Pass.chain` : passes run one after the other.
-/

namespace Dataflow

/-- A named edit of a graph. -/
structure Pass (β : Type) where
  name : String
  /-- Whether the pass can have an effect on a graph. -/
  applicable : Graph β → Bool := fun _ => true
  run : Edit β Report

/-- Rules that are run together, earlier ones being tried first. -/
structure RuleSet (β : Type) where
  name : String
  rules : List (Rule β)
  config : RunConfig := {}

variable {β : Type}

/-- The rule run to a fixed point under its own configuration. -/
def Rule.toPass (rule : Rule β) : Pass β where
  name := rule.name
  run := runRules rule.config [rule]

/-- The rules run together to a fixed point. -/
def RuleSet.toPass (set : RuleSet β) : Pass β where
  name := set.name
  run := runRules set.config set.rules

namespace Pass

/-- The applicable ones of several passes run in turn, after what `report` tells. -/
def runChain : List (Pass β) → Report → Edit β Report
  | [], report => return report
  | pass :: rest, report => do
    if pass.applicable (← get) then runChain rest (report.merge (← pass.run))
    else runChain rest report

/-- The passes run one after the other, each one if it is applicable when its turn comes. -/
def chain (passes : List (Pass β)) : Pass β where
  name := "pass_chain"
  run := runChain passes {}

end Pass

end Dataflow
