import Dataflow.Pass.Action
import Dataflow.Proofs.Graph.Steps

/-!
# Actions made of steps

The action of a rule is any edit.  What can be said about all rules can be said about those whose
actions change graphs step by step, whether or not they succeed in the end.

## Main definitions

* `Rule.TakesOnly` : the action of a rule changes graphs only by steps with a property.

## Main statements

* `Rule.TakesOnly.attempt` : so does trying the rule at a node.
* `Action.takesOnly_answer`, `Action.takesOnly_replaceOp` : an answer, and another operation in the
  place of the root's.
-/

namespace Dataflow

open Edit (Keeps)

variable {β : Type} {P : Step β → Prop}

namespace Rule

variable {rule : Rule β}

/-- Whatever match it is given, the action of the rule changes a graph only by steps with the property
`P`, also where it fails. -/
def TakesOnly (P : Step β → Prop) (rule : Rule β) : Prop :=
  ∀ m (g : Graph β), g.LeadsTo P ((rule.action m).apply g).2

/-- Trying a rule at a node keeps what its action keeps. -/
theorem keeps_attempt {Q : Graph β → Prop} (h : ∀ m, Keeps Q (fun _ => True) (rule.action m))
    (id : Nat) : Keeps Q (fun _ => True) (rule.attempt id) := by
  have hat (indices : List Nat) (sofar : Outcome) :
      Keeps Q (fun _ => True) (rule.attemptAt id indices sofar) := by
    induction indices generalizing sofar with
    | nil => exact .pure trivial
    | cons i rest ih =>
      refine Keeps.get.bind fun g _ => ?_
      split
      · exact ih sofar
      · exact (h _).bind fun _ _ => .ite (fun _ => .pure trivial) fun _ => ih _
  refine Keeps.get.bind fun g _ => ?_
  split
  · exact .pure trivial
  · exact hat _ _

/-- Trying a rule at a node takes the steps of its action. -/
theorem TakesOnly.attempt (h : rule.TakesOnly P) (g : Graph β) (id : Nat) :
    g.LeadsTo P ((rule.attempt id).apply g).2 :=
  (keeps_attempt (fun m k hk => ⟨hk.trans (h m k), fun _ _ => trivial⟩) id g .refl).1

end Rule

/-! ### Stock actions -/

namespace Action

variable {rule : Rule β}

theorem takesOnly_answer {applied : Bool} (h : rule.action = answer applied) : rule.TakesOnly P :=
  fun _ _ => by rw [h]; exact .refl

theorem takesOnly_replaceOp (hP : ∀ s : Step β, ¬ s.Compacts → P s) {op : Op}
    (h : rule.action = replaceOp op) : rule.TakesOnly P := by
  intro m g
  have hQ := Graph.replaceable_leadsTo hP g
  refine ((?_ : Keeps (g.LeadsTo P) (fun _ => True) _) g .refl).1
  rw [h, replaceOp]
  refine Keeps.get.bind fun g' _ => ?_
  split
  · exact .pure trivial
  · exact (hQ.addNode rfl fun _ _ => trivial).bind fun _ _ => (hQ.redirect trivial trivial).bind
      fun _ _ => hQ.markEliminated _

end Action

end Dataflow
