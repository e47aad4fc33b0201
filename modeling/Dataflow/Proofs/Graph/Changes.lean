import Dataflow.Proofs.Edit
import Dataflow.Proofs.Graph.Redirect

/-!
# Graphs reached by changes

A graph begins empty and is then changed step by step; any step may fail.  Whatever the steps are
and in whatever order they come, slots, processing order and index of uses stay in step, as long as
no input of a node that is marked as eliminated is set.  (Setting one lists a use that no live node
makes.)

## Main definitions

* `Change` : one step, with all its arguments.
* `Change.edit` : the step as an edit, which fails when the step does.
* `Change.runAll` : several steps in turn.

## Main statements

* `Graph.eliminateDead_induction` and its companions : a property that redirections and marks keep
  is kept by every removal.
* `Change.wellKept` : one step keeps a graph well kept.
* `Change.slots_order_uses_runAll` : what holds of every graph that steps lead to.
-/

namespace Dataflow

variable {β : Type}

namespace Graph

/-! ### Removals -/

section Removal

variable {P : Graph β → Prop} (hmark : ∀ g id, P g → P (g.markEliminated id).2)

include hmark

theorem eliminateIfUnused_induction (id : Nat) {g : Graph β} (h : P g) :
    P (g.eliminateIfUnused id).2 := by
  unfold eliminateIfUnused
  split
  · exact hmark g id h
  · exact h

theorem eliminateUnusedConstants_induction (values : List Value) {g : Graph β} (h : P g) :
    P (eliminateUnusedConstants values g).2 := by
  induction values generalizing g with
  | nil => exact h
  | cons v rest ih =>
    simp only [eliminateUnusedConstants]
    split
    · exact ih (eliminateIfUnused_induction hmark v.node h)
    · exact ih h

theorem eliminateAll_induction (ids : List Nat) {g : Graph β} (h : P g) :
    P (eliminateAll ids g).2 := by
  induction ids generalizing g with
  | nil => exact h
  | cons id rest ih => exact ih (hmark g id h)

theorem eliminateRounds_induction (rounds : Nat) {g : Graph β} (h : P g) :
    P (eliminateRounds rounds g).2 := by
  induction rounds generalizing g with
  | zero => exact h
  | succ rounds ih =>
    simp only [eliminateRounds]
    split
    · exact h
    · exact ih (eliminateAll_induction hmark _ h)

theorem eliminateDead_induction {g : Graph β} (h : P g) : P g.eliminateDead.2 :=
  eliminateRounds_induction hmark _ h

theorem bridge_induction (hredirect : ∀ g v w, P g → P (g.redirect v w).2) {id input count : Nat}
    {g g' : Graph β} (h : P g) (hb : g.bridge id input = some (count, g')) : P g' := by
  simp only [bridge, Option.bind_eq_bind, Option.bind_eq_some_iff] at hb
  obtain ⟨n, -, v, -, hb⟩ := hb
  obtain rfl : _ = g' := congrArg Prod.snd (Option.some.inj hb)
  exact hmark _ _ (hredirect _ _ _ h)

end Removal

end Graph

/-! ### Changes -/

/-- One step of changing a graph. -/
inductive Change (β : Type)
  | addNode (spec : NodeSpec β)
  | addParameter (name : String) (layout : Layout)
  | addConstant (name : String) (data : Tensor)
  | setOutputs (outputs : List Value)
  | addOutput (v : Value)
  | setInput (id input : Nat) (v : Value)
  | redirect (v w : Value)
  | markEliminated (id : Nat)
  | compact
  | bridge (id input : Nat)
  | eliminateIfUnused (id : Nat)
  | eliminateUnusedConstants (values : List Value)
  | eliminateDead

namespace Change

/-- The step as an edit.  Bridging a node that has no such input changes nothing. -/
def edit : Change β → Edit β Unit
  | addNode spec => discard (Edit.addNode spec)
  | addParameter name layout => discard (Edit.always (·.addParameter name layout))
  | addConstant name data => discard (Edit.addConstant name data)
  | setOutputs outputs => modify (·.setOutputs outputs)
  | addOutput v => modify (·.addOutput v)
  | setInput id input v => Edit.attempt fun g => (g.setInput id input v).map ((), ·)
  | redirect v w => discard (Edit.redirect v w)
  | markEliminated id => discard (Edit.markEliminated id)
  | compact => discard (Edit.always Graph.compact)
  | bridge id input => modify fun g => ((g.bridge id input).map (·.2)).getD g
  | eliminateIfUnused id => discard (Edit.always (·.eliminateIfUnused id))
  | eliminateUnusedConstants values =>
    discard (Edit.always (Graph.eliminateUnusedConstants values))
  | eliminateDead => discard (Edit.always Graph.eliminateDead)

/-- The graph after the step, whether or not it fails. -/
def run (c : Change β) (g : Graph β) : Graph β :=
  (c.edit.apply g).2

/-- The step sets no input of a node that is marked as eliminated. -/
def SparesMarked (c : Change β) (g : Graph β) : Prop :=
  match c with
  | setInput id _ _ => g.isEliminated id = false
  | _ => True

/-- A step that fails leaves the graph as it was. -/
theorem run_of_error {c : Change β} {g : Graph β} {e : Error}
    (h : (c.edit.apply g).1 = .error e) : c.run g = g := by
  cases c with
  | addNode spec =>
    simp only [run, edit, Edit.addNode, Edit.apply_discard, Edit.apply_attempt] at h ⊢
    cases hr : g.addNode spec with
    | error e' => rfl
    | ok p => simp [hr, Except.map] at h
  | setInput id input v => exact Edit.apply_attempt_error h
  | _ => simp [edit, Except.map] at h

/-! ### The graph after a step -/

section Run

variable (g : Graph β)

theorem run_addNode (spec : NodeSpec β) :
    (addNode spec).run g = g ∨ (addNode spec).run g = g.push spec := by
  simp only [run, edit, Edit.addNode, Edit.apply_discard, Edit.apply_attempt, Graph.addNode]
  cases g.checkValues spec.inputs with
  | error e => exact .inl rfl
  | ok _ => exact .inr rfl

/-- Setting an input rewires the use that the input was. -/
theorem run_setInput {id : Nat} (h : g.isEliminated id = false) (input : Nat) (v : Value) :
    (setInput id input v).run g = g ∨
      ∃ w, g.Reads ⟨id, input⟩ w ∧ (setInput id input v).run g = g.rewire ⟨id, input⟩ w v := by
  simp only [run, edit, Edit.apply_attempt]
  cases hs : g.setInput id input v with
  | error e => exact .inl rfl
  | ok g' =>
    refine .inr ?_
    simp only [Graph.setInput] at hs
    split at hs
    · cases hn : g.node? id with
      | none => simp [hn] at hs
      | some n =>
        cases hw : n.inputs[input]? with
        | none => simp [hn, hw] at hs
        | some w =>
          simp only [hn, hw, Except.ok.injEq] at hs
          exact ⟨w, ⟨n, Graph.live?_of_node? hn h, hw⟩, hs.symm⟩
    · simp at hs

end Run

/-- One step keeps a graph well kept. -/
theorem wellKept {c : Change β} {g : Graph β} (h : g.WellKept) (hc : c.SparesMarked g) :
    (c.run g).WellKept := by
  have hmark : ∀ (g : Graph β) (id : Nat), g.WellKept → (g.markEliminated id).2.WellKept :=
    fun _ id hg => hg.markEliminated id
  cases c with
  | addNode spec =>
    rcases run_addNode g spec with hr | hr
    · rwa [hr]
    · rw [hr]
      exact h.push spec
  | addParameter name layout => exact h.push _
  | addConstant name data => exact h.push _
  | setOutputs outputs => exact h.setOutputs outputs
  | addOutput v => exact h.setOutputs (g.outputs ++ [v])
  | setInput id input v =>
    rcases run_setInput g hc input v with hr | ⟨w, hw, hr⟩
    · rwa [hr]
    · rw [hr]
      exact h.rewire hw v
  | redirect v w => exact h.redirect v w
  | markEliminated id => exact h.markEliminated id
  | compact => exact h.compact
  | bridge id input =>
    simp only [run, edit, Edit.apply_modify]
    cases hb : g.bridge id input with
    | none => exact h
    | some p =>
      exact Graph.bridge_induction hmark (fun _ v w hg => hg.redirect v w) h hb
  | eliminateIfUnused id => exact Graph.eliminateIfUnused_induction hmark id h
  | eliminateUnusedConstants values =>
    exact Graph.eliminateUnusedConstants_induction hmark values h
  | eliminateDead => exact Graph.eliminateDead_induction hmark h

end Change

/-! ### Runs -/

namespace Change

/-- The graph after several steps in turn, whether or not they fail. -/
def runAll : List (Change β) → Graph β → Graph β
  | [], g => g
  | c :: cs, g => runAll cs (c.run g)

/-- No step sets an input of a node that is marked as eliminated by then. -/
def AllSpareMarked : List (Change β) → Graph β → Prop
  | [], _ => True
  | c :: cs, g => c.SparesMarked g ∧ AllSpareMarked cs (c.run g)

/-- Any number of steps keep a graph well kept. -/
theorem wellKept_runAll {cs : List (Change β)} {g : Graph β} (h : g.WellKept)
    (hcs : AllSpareMarked cs g) : (runAll cs g).WellKept := by
  induction cs generalizing g with
  | nil => exact h
  | cons c cs ih => exact ih (c.wellKept h hcs.1) hcs.2

/-- **Slots, order and uses after any steps.**  Whatever steps are taken from the empty graph on,
and whichever of them fail: slot number `id` is empty or holds the node `id`; the processing order
lists every stored node once; the uses listed for a value are exactly the inputs of stored, unmarked
nodes that hold it, each once, and the index has no entry without uses; and a step that fails leaves
the graph as it is. -/
theorem slots_order_uses_runAll (cs : List (Change β)) (hcs : AllSpareMarked cs Graph.empty) :
    let g := runAll cs Graph.empty
    (∀ id s, g.slot? id = some s → s.node.id = id) ∧
      (g.order.Nodup ∧ ∀ id, id ∈ g.order ↔ g.hasNode id = true) ∧
      (∀ v, (g.uses v).Nodup ∧ ∀ u, u ∈ g.uses v ↔
        ∃ s, g.slot? u.node = some s ∧ s.eliminated = false ∧ s.node.inputs[u.input]? = some v) ∧
      (∀ e ∈ g.index.entries, e.2 ≠ []) ∧
      ∀ (c : Change β) (e : Error), (c.edit.apply g).1 = .error e → (c.edit.apply g).2 = g := by
  intro g
  have hk : g.WellKept := wellKept_runAll Graph.WellKept.empty hcs
  refine ⟨fun id s hs => ?_, ⟨hk.ordered.nodup, hk.ordered.mem_iff⟩, fun v => ⟨?_, fun u => ?_⟩,
    hk.indexed.tight, fun c e he => run_of_error he⟩
  · exact hk.numbered id s.node (Graph.node?_eq_some.2 ⟨s, hs, rfl⟩)
  · exact hk.indexed.nodup v
  · rw [hk.indexed.mem_uses, Graph.Reads]
    constructor
    · rintro ⟨n, hn, hv⟩
      obtain ⟨s, hs, he, rfl⟩ := Graph.live?_eq_some.1 hn
      exact ⟨s, hs, he, hv⟩
    · rintro ⟨s, hs, he, hv⟩
      exact ⟨s.node, Graph.live?_of_slot? hs he, hv⟩

/-- A sum of a parameter with itself, read by a rectifier whose input is set and then redirected to
a value that does not exist; at last the rectifier is marked, and the graph compacted.  One step
asks for an input that there is not, and one for a node that reads nothing real: both fail. -/
def sumChanges : List (Change Unit) :=
  [.addParameter "x" (.planar (.ofLengths [2]) .f32),
    .addNode { op := .add, inputs := [⟨0, 0⟩, ⟨0, 0⟩], outputs := [.planar (.ofLengths [2]) .f32] },
    .addNode { op := .relu, inputs := [⟨1, 0⟩], outputs := [.planar (.ofLengths [2]) .f32] },
    .setInput 2 0 ⟨0, 0⟩, .redirect ⟨0, 0⟩ ⟨1, 0⟩, .setInput 2 5 ⟨0, 0⟩, .redirect ⟨1, 0⟩ ⟨9, 3⟩,
    .addNode { op := .relu, inputs := [⟨9, 3⟩] }, .markEliminated 2, .compact]

/-- After the compaction the parameter and the sum are left, and the two uses that the sum makes of
the parameter are listed in the order of its operands. -/
theorem slots_order_uses_sumChanges :
    AllSpareMarked sumChanges Graph.empty ∧
      let g := runAll sumChanges Graph.empty
      (g.order = [0, 1] ∧ ∀ id, id ∈ g.order ↔ g.hasNode id = true) ∧
        (g.uses ⟨0, 0⟩ = [⟨1, 0⟩, ⟨1, 1⟩] ∧ ∀ u, u ∈ g.uses ⟨0, 0⟩ ↔
          ∃ s, g.slot? u.node = some s ∧ s.eliminated = false ∧
            s.node.inputs[u.input]? = some ⟨0, 0⟩) ∧
        ∀ e ∈ g.index.entries, e.2 ≠ [] := by
  have h : AllSpareMarked sumChanges Graph.empty :=
    ⟨trivial, trivial, trivial, rfl, trivial, rfl, trivial, trivial, trivial, trivial, trivial⟩
  obtain ⟨-, ⟨-, stored⟩, uses, tight, -⟩ := slots_order_uses_runAll sumChanges h
  exact ⟨h, ⟨by decide, stored⟩, ⟨by decide, (uses _).2⟩, tight⟩

end Change

end Dataflow
