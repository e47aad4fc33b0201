import Dataflow.Proofs.Graph.Rerouting
import Dataflow.Proofs.Recurrent.LoopConversion

/-!
# References to a replaced loop

The replacement of a loop puts something in the place of the outputs that the body of the loop
describes.  A reference to any other output of the loop node is left dangling.

## Main definitions

* `LoopPlan.portValues` : the values of the loop node that lose their readers.
* `Graph.Describes` : the outputs of a loop node that its body describes.

## Main statements

* `LoopPlan.Fits.rerouted_build` : the values of the loop node that lose their readers.
* `LoopPlan.noDangling_convert_iff` : when no reference dangles after the replacement.
-/

namespace Dataflow

namespace LoopPlan

variable {g g' h : Graph Body} {plan : LoopPlan} {v : Value} {values : List Value}
  {outputs : List Nat} {result : LoopResult}

/-! ### Readers taken from the loop node -/

/-- The values that the readers of some outputs of the loop node have been taken from. -/
def portValues (loop : Nat) (outputs : List Nat) : List Value :=
  (outputs.map (⟨loop, ·⟩)).reverse

theorem mem_portValues {loop : Nat} :
    v ∈ portValues loop outputs ↔ v.node = loop ∧ v.index ∈ outputs := by
  simp only [portValues, List.mem_reverse, List.mem_map]
  constructor
  · rintro ⟨i, hi, rfl⟩
    exact ⟨rfl, hi⟩
  · rintro ⟨rfl, hi⟩
    exact ⟨v.index, hi, rfl⟩

section Rerouting

variable (hloop : plan.loop < g.slots.length)
include hloop

theorem rerouted_redirected (hr : g.Rerouted [plan.loop] values h) (hv : h.hasValue v = true)
    (hnew : g.slots.length ≤ v.node) :
    g.Rerouted [plan.loop] (portValues plan.loop outputs ++ values)
      (redirected plan.loop v outputs h) := by
  induction outputs generalizing h values with
  | nil => exact hr
  | cons i rest ih =>
    have hnext := hr.redirect (v := ⟨plan.loop, i⟩) (by simpa using hloop) hv hnew
    have hval : (h.redirect ⟨plan.loop, i⟩ v).2.hasValue v = true := by
      rwa [Graph.hasValue_redirect hr.listed.live]
    simpa [portValues, redirected] using ih hnext hval

theorem rerouted_connected (hr : g.Rerouted [plan.loop] values h) {transposed : Bool}
    (hv : g.slots.length ≤ v.node) (hc : Connected plan result transposed v h g') :
    g.Rerouted [plan.loop] (portValues plan.loop (plan.outputsOf result) ++ values) g' := by
  by_cases hnil : plan.outputsOf result = []
  · rw [hc.unused hnil, hnil]
    exact hr
  · obtain ⟨suffix, y, h₁, hpresent, rfl⟩ := hc.connected hnil
    have hfresh : ∀ u : Value, g.slots.length ≤ u.node → u.node ∉ [plan.loop] := by
      intro u hu
      rw [List.mem_singleton]
      omega
    obtain ⟨hy, -⟩ := built_present hpresent (S := (·.node ∉ [plan.loop])) (hfresh v hv)
      fun u hu => hfresh u (Nat.le_trans hr.length_le hu)
    exact rerouted_redirected hloop (hr.grows hy.grows) hy.hasValue
      (Nat.le_trans hr.length_le hy.new)

end Rerouting

section Fits

variable {loop : Node Body} {body : Body} {step : CellStep} {walk : Walk}

/-- After the outputs of the loop node have been connected, the values of the loop node are the only
ones that have lost their readers. -/
theorem Fits.rerouted_connected (hf : plan.Fits g loop body step walk) (hk : g.Listed)
    (hd : g.NoDangling) (ha : g.Acyclic) (hloop : g.live? plan.loop = some loop) {a : Assembly}
    (hready : a.Ready g plan) {g₁ g₂ g₃ : Graph Body} {transposed : Bool}
    (h₁ : Connected plan .sequence transposed ⟨(a.weighted plan).slots.length, 0⟩
      ((a.weighted plan).push (a.spec plan)) g₁)
    (h₂ : Connected plan .hidden false ⟨(a.weighted plan).slots.length, 1⟩ g₁ g₂)
    (h₃ : Connected plan .cell false ⟨(a.weighted plan).slots.length, 2⟩ g₂ g₃) :
    g.Rerouted [plan.loop] (portValues plan.loop (plan.outputsOf .cell) ++
      (portValues plan.loop (plan.outputsOf .hidden) ++
        (portValues plan.loop (plan.outputsOf .sequence) ++ []))) g₃ := by
  have hlt : plan.loop < g.slots.length := Graph.lt_length_of_live? hloop
  have hread : ∀ v ∈ loop.inputs, v.node ∉ [plan.loop] := fun v hv hmem =>
    ha.not_feeds_self (List.mem_singleton.1 hmem ▸ Graph.Feeds.of_mem hloop hv)
  have hfresh : ∀ v : Value, g.slots.length ≤ v.node → v.node ∉ [plan.loop] := by
    intro v hv
    rw [List.mem_singleton]
    omega
  have hx := hread _ hf.x_mem
  have hstates := fun v hv => hread v (hf.states_mem v hv)
  have hle := (hready.grows_operands hx hstates hfresh).1.length_le
  have hr₀ := (Graph.Rerouted.refl hk hd).grows (hready.grows hx hstates hfresh)
  have hr₁ := LoopPlan.rerouted_connected hlt hr₀ hle h₁
  exact LoopPlan.rerouted_connected hlt (LoopPlan.rerouted_connected hlt hr₁ hle h₂) hle h₃

/-- The values of the loop node are the only ones that lose their readers, and of these the
described ones. -/
theorem Fits.rerouted_build (hf : plan.Fits g loop body step walk) (hk : g.Listed)
    (hd : g.NoDangling) (ha : g.Acyclic) (hloop : g.live? plan.loop = some loop)
    (h : plan.build.apply g = (.ok true, g')) :
    ∃ k moved values, g.Rerouted [plan.loop] moved k ∧
      (∀ v, v.node = plan.loop → (v ∈ moved ↔ (body.outputFor? v.index).isSome = true)) ∧
      (∀ x ∈ values, k.Feeds x.node plan.loop) ∧
      g' = (Graph.eliminateUnusedConstants values (Graph.eliminateAll [plan.loop] k).2).2 := by
  obtain ⟨a, g₁, g₂, g₃, hready, h₁, h₂, h₃, -, rfl⟩ := apply_build_ok h
  have hr₃ := hf.rerouted_connected hk hd ha hloop hready h₁ h₂ h₃
  refine ⟨g₃, _, _, hr₃, fun v hv => ?_, hr₃.feeds_of_mem hloop, rfl⟩
  rw [← hf.exists_result_iff]
  simp only [List.mem_append, mem_portValues, hv, true_and, List.not_mem_nil, or_false]
  constructor
  · rintro (h | h | h)
    exacts [⟨_, h⟩, ⟨_, h⟩, ⟨_, h⟩]
  · rintro ⟨result, h⟩
    cases result with
    | sequence => exact .inr (.inr h)
    | hidden => exact .inr (.inl h)
    | cell => exact .inl h

end Fits

end LoopPlan

/-- The body of the loop node with the given number describes an output of the node. -/
def Graph.Describes (g : Graph Body) (id output : Nat) : Prop :=
  ∃ loop body, g.live? id = some loop ∧ loop.body = some body ∧ (body.outputFor? output).isSome = true

namespace LoopPlan

variable {g g' : Graph Body}

/-- **References after a loop is replaced.**  Where a rule has replaced a loop, no reference dangles
afterwards exactly when every output of the loop node is described by the body or has no readers. -/
theorem noDangling_convert_iff (hk : g.WellKept) (ha : g.Acyclic) (hd : g.NoDangling)
    {rule : Rule Body} (hrule : rule ∈ conversions) {id : Nat} {nodes : List Nat}
    (h : (rule.attempt id).apply g = (.ok (.applied nodes), g')) :
    g'.NoDangling ↔ ∀ i, g.Describes id i ∨ g.isUnused ⟨id, i⟩ = true := by
  obtain ⟨plan, loop, body, step, walk, rfl, hf, hloop, -, hbuild⟩ :=
    exists_plan_of_applied hrule h
  have hdescribes : ∀ i, g.Describes plan.loop i ↔ (body.outputFor? i).isSome = true := fun i =>
    ⟨fun ⟨n, b, hn, hb, hi⟩ => by
      obtain rfl := Option.some.inj (hn.symm.trans hloop)
      obtain rfl := Option.some.inj (hb.symm.trans hf.nested)
      exact hi, fun hi => ⟨loop, body, hloop, hf.nested, hi⟩⟩
  obtain ⟨k, moved, values, hr, hmoved, hvalues, rfl⟩ :=
    hf.rerouted_build hk.listed hd ha hloop hbuild
  rw [hr.noDangling_iff]
  · simp only [hdescribes, hk.indexed.isUnused_iff, List.mem_singleton]
    constructor
    · intro hall i
      refine or_iff_not_imp_left.2 fun hi => ?_
      obtain ⟨hout, hread⟩ := hall ⟨plan.loop, i⟩ rfl (mt (hmoved _ rfl).1 hi)
      -- A reader of the loop node would be the loop node itself.
      exact ⟨hout, fun u hu => ha.not_feeds_self (hread u hu ▸ hu.feeds)⟩
    · rintro hall ⟨_, i⟩ rfl hi
      obtain ⟨hout, hread⟩ := (hall i).resolve_left (mt (hmoved ⟨plan.loop, i⟩ rfl).2 hi)
      exact ⟨hout, fun u hu => absurd hu (hread u)⟩
  · intro u v hv _ _ hread
    exact hr.notMem_of_reads ha (Graph.lt_length_of_live? hloop) hvalues (List.mem_singleton.1 hv)
      hread

/-- Both outputs of the loop are described, and the node that takes its place leaves no dangling
reference. -/
theorem attempt_recurrentLoop :
    ((recurrentLoop bothOutputs).WellKept ∧ (recurrentLoop bothOutputs).Acyclic ∧
      (recurrentLoop bothOutputs).NoDangling) ∧ iteratorRule .rnn ∈ conversions ∧
        (((iteratorRule .rnn).attempt 2).apply (recurrentLoop bothOutputs)).1 =
          .ok (.applied [2]) ∧
          (((iteratorRule .rnn).attempt 2).apply (recurrentLoop bothOutputs)).2.NoDangling := by
  obtain ⟨hk, ha, hd⟩ := recurrentLoop_sound bothOutputs
  have hrule : iteratorRule .rnn ∈ conversions := by
    simp [conversions]
  have happlied : (((iteratorRule .rnn).attempt 2).apply (recurrentLoop bothOutputs)).1 =
      .ok (.applied [2]) := by
    decide +kernel
  refine ⟨⟨hk, ha, hd⟩, hrule, happlied,
    (noDangling_convert_iff hk ha hd hrule (Prod.ext happlied rfl)).2 fun i => ?_⟩
  match i with
  | 0 => exact .inl ⟨_, _, rfl, rfl, rfl⟩
  | 1 => exact .inl ⟨_, _, rfl, rfl, rfl⟩
  | i + 2 =>
    -- The loop node has no further outputs that anything could read.
    refine .inr (hk.indexed.isUnused_iff.2 ⟨?_, fun u hu => ?_⟩)
    · simp [recurrentLoop, Graph.ofSpecs, Graph.setOutputs]
    · obtain ⟨n, hn, hlt⟩ := Graph.hasValue_iff.1 (hd.reads hu)
      obtain rfl : _ = n := Option.some.inj hn
      exact absurd hlt (Nat.not_lt.2 (Nat.le_add_left 2 i))

/-- A reference is left dangling when the body does not describe the second output. -/
theorem exists_dangling_after_conversion :
    ¬ ∀ (g g' : Graph Body) (rule : Rule Body) (id : Nat) (nodes : List Nat), g.WellKept →
      g.Acyclic → g.NoDangling → rule ∈ conversions →
        (rule.attempt id).apply g = (.ok (.applied nodes), g') → g'.NoDangling := by
  intro hall
  obtain ⟨hk, ha, hd⟩ := recurrentLoop_sound [.concat 0 0 (.full 1 (-1))]
  have hrule : iteratorRule .rnn ∈ conversions := by
    simp [conversions]
  have happlied : (((iteratorRule .rnn).attempt 2).apply
      (recurrentLoop [.concat 0 0 (.full 1 (-1))])).1 = .ok (.applied [2]) := by
    decide +kernel
  have hafter := hall _ _ _ 2 [2] hk ha hd hrule (Prod.ext happlied rfl)
  exact absurd (hafter.outputs ⟨2, 1⟩ (by decide +kernel)) (by decide +kernel)

end LoopPlan

end Dataflow
