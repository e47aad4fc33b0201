import Dataflow.Proofs.Recurrent.LoopReferences
import Dataflow.Proofs.Recurrent.SequenceNode
import Dataflow.Proofs.Runtime.Simulation

/-!
# The meaning of a replaced loop

The readers of a described output of a replaced loop read a result of the sequence node instead, with
the axes that the output has.  This is what the loop computes, so the graph computes what it has
computed.

## Main definitions

* `Value.substOutputs` : another value in the place of some outputs of a node.
* `LoopPlan.Presents` : a value that presents a result of the sequence node to the readers.

## Main statements

* `LoopPlan.exists_substituted` : what is read in the place of the described outputs.
* `LoopPlan.computes_convert` : the replacement keeps the meaning.
-/

namespace Dataflow

/-- Another value in the place of some outputs of a node. -/
def Value.substOutputs (id : Nat) (outputs : List Nat) (w v : Value) : Value :=
  if v.node = id ∧ v.index ∈ outputs then w else v

namespace Value

variable {id : Nat} {outputs : List Nat} {v w : Value}

theorem substOutputs_nil (id : Nat) (w v : Value) : substOutputs id [] w v = v := by
  simp [substOutputs]

theorem substOutputs_of_ne (w : Value) (hv : v.node ≠ id) : substOutputs id outputs w v = v :=
  if_neg fun h => hv h.1

/-- One output after the other. -/
theorem substOutputs_cons (i : Nat) (hw : w.node ≠ id) (v : Value) :
    substOutputs id (i :: outputs) w v = substOutputs id outputs w (subst ⟨id, i⟩ w v) := by
  by_cases hv : v = ⟨id, i⟩
  · simp [hv, substOutputs, subst, hw]
  · have hne : ¬ (v.node = id ∧ v.index = i) := fun h => hv (by cases v; simp_all)
    rw [subst_of_ne w hv]
    refine if_congr (and_congr_right fun hnode => ?_) rfl rfl
    rw [List.mem_cons, or_iff_right fun hi => hne ⟨hnode, hi⟩]

end Value

namespace LoopPlan

variable {I : Interpretation} {F : StepFunction} {ρ : Environment} {g g' h k : Graph Body}
  {plan : LoopPlan} {a : Assembly} {σ : Value → Value} {old : Nat → Prop} {v w : Value}
  {t u : Grid}

/-! ### The readers -/

/-- The readers of some outputs of the loop node read something that does not read the loop node. -/
theorem substituted_redirected {loop : Nat} {outputs : List Nat} (hk : g.Listed)
    (hw : w.node ≠ loop) {n : Node Body} (hn : g.live? w.node = some n)
    (hfree : ∀ x ∈ n.inputs, x.node ≠ loop) :
    g.Substituted (· = loop) (Value.substOutputs loop outputs w) (redirected loop w outputs g) := by
  induction outputs generalizing g with
  | nil =>
    have hsubst : Value.substOutputs loop [] w = fun v => v :=
      funext fun v => Value.substOutputs_nil loop w v
    rw [hsubst]
    exact .refl hk _
  | cons i rest ih =>
    have hfirst : g.Substituted (· = loop) (Value.subst ⟨loop, i⟩ w) (g.redirect ⟨loop, i⟩ w).2 :=
      .of_redirect hk rfl fun m hm => by
        obtain rfl := Option.some.inj (hn.symm.trans hm)
        exact hfree
    have hsubst : Value.substOutputs loop (i :: rest) w =
        fun v => Value.substOutputs loop rest w (Value.subst ⟨loop, i⟩ w v) :=
      funext fun v => Value.substOutputs_cons i hw v
    rw [hsubst]
    exact hfirst.trans (ih hfirst.listed (hfirst.live?_of_free hw hn hfree))

/-- What the readers of an output read instead is a result of the sequence node, with the axes that
the output has. -/
theorem computes_present {suffix : String} {transposed : Bool}
    (happly : (present plan suffix transposed v).apply g = (.ok w, g')) (hI : I.Follows F)
    (hk : g.Listed) (hs : g'.Substituted old σ h) (hid : ∀ i, old i → i < g.slots.length)
    (hv : ¬ old v.node) (ht : h.Computes I ρ v (t.insertAxis 1)) (hle : 1 ≤ t.shape.length)
    (hrank : t.shape.length ≤ 3)
    (hu : (if transposed then t.permute? [1, 0, 2] else some t) = some u) : h.Computes I ρ w u := by
  obtain ⟨y, g₁, hsqueeze, hlast⟩ := apply_present_ok happly
  have hbuilt : Edit.Built (fun _ => True) g g₁ y := .squeeze hsqueeze trivial fun _ _ => trivial
  have hk₁ := hbuilt.grows.listed hk
  have hy : ¬ old y.node := Graph.not_old_of_le hid hbuilt.new
  have hword : t.shape.length + 1 < 2 ^ 63 := Nat.lt_of_le_of_lt (Nat.succ_le_succ hrank) (by decide)
  obtain ⟨htransposed, htranspose⟩ | ⟨htransposed, rfl, rfl⟩ := hlast
  · rw [if_pos htransposed] at hu
    have hswap : Edit.Built (fun _ => True) g₁ g' w :=
      .transpose htranspose trivial fun _ _ => trivial
    have hs₁ := (Graph.Substituted.of_grows hk₁ old hswap.grows).trans hs
    have hcomp := Edit.computes_squeeze hk hs₁ hid hv hI.squeeze hsqueeze ht hle hword
    exact Edit.computes_transpose hk₁ hs (Graph.lt_of_old hid hbuilt.grows.length_le) hy hI.transpose
      htranspose (by decide) hcomp hu
  · rw [if_neg htransposed] at hu
    obtain rfl := Option.some.inj hu
    exact Edit.computes_squeeze hk hs hid hv hI.squeeze hsqueeze ht hle hword

/-- The value `w` is no constant, and it is the given rearrangement of the value `v` of the sequence
node. -/
structure Presents (I : Interpretation) (ρ : Environment) (h : Graph Body)
    (arrange : Grid → Option Grid) (v w : Value) : Prop where
  exists_node : ∃ n, h.live? w.node = some n ∧ n.op ≠ .constant
  computes : ∀ ⦃t u⦄, h.Computes I ρ v (t.insertAxis 1) → 1 ≤ t.shape.length →
    t.shape.length ≤ 3 → arrange t = some u → h.Computes I ρ w u

/-- The readers of the outputs of the loop node that hold one of its results read something new. -/
theorem Connected.exists_substituted {result : LoopResult} {transposed : Bool}
    (hc : Connected plan result transposed v g g') (I : Interpretation) (ρ : Environment)
    (hI : I.Follows F) (hk : g.Listed) (hloop : plan.loop < g.slots.length)
    (hv : v.node ≠ plan.loop) :
    ∃ τ, g.Substituted (· = plan.loop) τ g' ∧
      (∀ i, i ∉ plan.outputsOf result → τ ⟨plan.loop, i⟩ = ⟨plan.loop, i⟩) ∧
      ∀ i ∈ plan.outputsOf result, (τ ⟨plan.loop, i⟩).node ≠ plan.loop ∧
        ∀ σ h, g'.Substituted (· = plan.loop) σ h → Presents I ρ h
          (fun t => if transposed then t.permute? [1, 0, 2] else some t) v (τ ⟨plan.loop, i⟩) := by
  by_cases hnil : plan.outputsOf result = []
  · rw [hc.unused hnil, hnil]
    exact ⟨_, .refl hk _, fun _ _ => rfl, fun i hi => absurd hi List.not_mem_nil⟩
  · obtain ⟨suffix, y, g₁, hpresent, rfl⟩ := hc.connected hnil
    have hid : ∀ i, i = plan.loop → i < g.slots.length := fun i hi => hi ▸ hloop
    have hlate : ∀ u : Value, g.slots.length ≤ u.node → u.node ≠ plan.loop := fun u hu hnode =>
      Nat.not_le_of_lt hloop (hnode ▸ hu)
    obtain ⟨hbuilt, n, hn, hop⟩ := built_present hpresent (S := (·.node ≠ plan.loop)) hv hlate
    have hk₁ := hbuilt.grows.listed hk
    have hy : y.node ≠ plan.loop := hlate y hbuilt.new
    have hfree := hbuilt.grows.mem_inputs hbuilt.new hn
    have hredirected : g₁.Substituted (· = plan.loop) (Value.substOutputs plan.loop
        (plan.outputsOf result) y) (redirected plan.loop y (plan.outputsOf result) g₁) :=
      substituted_redirected hk₁ hy hn hfree
    refine ⟨_, (Graph.Substituted.of_grows hk _ hbuilt.grows).trans hredirected,
      fun i hi => if_neg fun h => hi h.2, fun i hi => ?_⟩
    have hpresented : Value.substOutputs plan.loop (plan.outputsOf result) y ⟨plan.loop, i⟩ = y :=
      if_pos ⟨rfl, hi⟩
    rw [hpresented]
    refine ⟨hy, fun σ h hs => ?_⟩
    have hs₁ := hredirected.trans hs
    refine ⟨⟨_, hs₁.live?_of_free hy hn hfree, hop⟩, fun t u ht hle hrank hu => ?_⟩
    exact computes_present hpresent hI hk hs₁ hid hv ht hle hrank hu

end LoopPlan

/-- The output of the sequence node that holds a result. -/
def LoopResult.output : LoopResult → Nat
  | .sequence => 0
  | .hidden => 1
  | .cell => 2

/-- A result in the order of axes of the loop. -/
def LoopResult.arranged? (plan : LoopPlan) (t : Grid) : LoopResult → Option Grid
  | .sequence => plan.arranged? t
  | .hidden => some t
  | .cell => some t

namespace LoopPlan

variable {I : Interpretation} {F : StepFunction} {ρ : Environment} {g g' h k : Graph Body}
  {plan : LoopPlan} {a : Assembly} {σ : Value → Value} {old : Nat → Prop} {v w : Value}
  {x seq t u : Grid} {states : List Grid} {batch width steps : Nat}

/-- What is read in the place of the described outputs of the loop node. -/
theorem exists_substituted {sequence : Nat} {g₁ g₂ g₃ : Graph Body}
    (h₁ : Connected plan .sequence (decide (plan.timeAxis = 0)) ⟨sequence, 0⟩ g g₁)
    (h₂ : Connected plan .hidden false ⟨sequence, 1⟩ g₁ g₂)
    (h₃ : Connected plan .cell false ⟨sequence, 2⟩ g₂ g₃) (I : Interpretation) (ρ : Environment)
    (hI : I.Follows F) (hk : g.Listed) (hloop : plan.loop < g.slots.length)
    (hsequence : sequence ≠ plan.loop)
    (hunique : ∀ {r r' : LoopResult} {i : Nat}, (r, i) ∈ plan.results → (r', i) ∈ plan.results →
      r = r') :
    ∃ σ, g.Substituted (· = plan.loop) σ (g₃.markEliminated plan.loop).2 ∧
      ∀ r i, (r, i) ∈ plan.results → (σ ⟨plan.loop, i⟩).node ≠ plan.loop ∧
        Presents I ρ (g₃.markEliminated plan.loop).2 (fun t => r.arranged? plan t)
          ⟨sequence, r.output⟩ (σ ⟨plan.loop, i⟩) := by
  obtain ⟨τ₁, hs₁, hfix₁, hout₁⟩ := h₁.exists_substituted I ρ hI hk hloop hsequence
  have hloop₁ := Nat.lt_of_lt_of_le hloop hs₁.length_le
  obtain ⟨τ₂, hs₂, hfix₂, hout₂⟩ := h₂.exists_substituted I ρ hI hs₁.listed hloop₁ hsequence
  have hloop₂ := Nat.lt_of_lt_of_le hloop₁ hs₂.length_le
  obtain ⟨τ₃, hs₃, hfix₃, hout₃⟩ := h₃.exists_substituted I ρ hI hs₂.listed hloop₂ hsequence
  have hmark : g₃.Substituted (· = plan.loop) (fun v => v) (g₃.markEliminated plan.loop).2 :=
    .of_markEliminated hs₃.listed rfl
  have hlater := hs₃.trans hmark
  refine ⟨_, hs₁.trans (hs₂.trans hlater), fun r i hr => ?_⟩
  have hother : ∀ {r'}, r ≠ r' → i ∉ plan.outputsOf r' := fun hne hmem =>
    hne (hunique hr (mem_outputsOf.1 hmem))
  cases r with
  | sequence =>
    obtain ⟨hnode, hpresents⟩ := hout₁ i (mem_outputsOf.2 hr)
    rw [hs₂.fixes _ hnode, hs₃.fixes _ hnode]
    refine ⟨hnode, ?_⟩
    have harrange : (fun t : Grid => if decide (plan.timeAxis = 0) = true then
        t.permute? [1, 0, 2] else some t) = fun t => LoopResult.sequence.arranged? plan t := by
      funext t
      simp only [decide_eq_true_eq, LoopResult.arranged?, arranged?]
    exact harrange ▸ hpresents _ _ (hs₂.trans hlater)
  | hidden =>
    obtain ⟨hnode, hpresents⟩ := hout₂ i (mem_outputsOf.2 hr)
    rw [hfix₁ i (hother (by decide)), hs₃.fixes _ hnode]
    exact ⟨hnode, hpresents _ _ hlater⟩
  | cell =>
    obtain ⟨hnode, hpresents⟩ := hout₃ i (mem_outputsOf.2 hr)
    rw [hfix₁ i (hother (by decide)), hfix₂ i (hother (by decide))]
    exact ⟨hnode, hpresents _ _ hmark⟩

/-- What the sequence node computes for a result of the loop. -/
theorem Unrolled.exists_computes_result {hs : Nat → List Grid}
    (hu : Unrolled I F g ρ plan x hs batch width steps) (hI : I.Follows F)
    (hF : F.Ignores ["hidden_size", "direction"]) (hk : g.Listed) (ha : a.Ready g plan)
    (hsub : ((a.weighted plan).push (a.spec plan)).Substituted old σ h)
    (hid : ∀ i, old i → i < g.slots.length) (hxold : ¬ old plan.x.node)
    (hold : ∀ v ∈ plan.states, ¬ old v.node) (hx : h.Computes I ρ plan.x x)
    (hstates : List.Forall₂ (h.Computes I ρ) plan.states (hs 0))
    (hlen : plan.states.length = plan.kind.stateCount) {rows : Nat}
    (hhidden : plan.r.shape = [rows, plan.hidden]) (haxis : plan.timeAxis ≤ 1)
    {result : LoopResult} (hholds : result.Holds plan hs steps t) :
    ∃ y : Grid, h.Computes I ρ ⟨(a.weighted plan).slots.length, result.output⟩ (y.insertAxis 1) ∧
      1 ≤ y.shape.length ∧ y.shape.length ≤ 3 ∧ result.arranged? plan y = some t := by
  obtain ⟨y, hy, hrow, hcomp⟩ :=
    hu.exists_computes hI hF hk ha hsub hid hxold hold hx hstates hlen hhidden haxis
  have hstate : ∀ {i : Nat}, (hs steps)[i]? = some t →
      h.Computes I ρ ⟨(a.weighted plan).slots.length, i + 1⟩ (t.insertAxis 1) ∧
        t.shape = [batch, plan.hidden] := fun hi =>
    ⟨hcomp _ _ (by rw [List.getElem?_cons_succ, List.getElem?_map, hi, Option.map_some]),
      hu.shape_of_mem hlen (Nat.le_refl _) _ (List.mem_of_getElem? hi)⟩
  cases result with
  | sequence =>
    refine ⟨y, hcomp 0 _ rfl, ?_, ?_, hu.arranged?_eq hlen haxis hy hrow hholds⟩ <;> simp [hy]
  | hidden =>
    obtain ⟨hcomp, hshape⟩ := hstate hholds
    exact ⟨t, hcomp, by simp [hshape], by simp [hshape], rfl⟩
  | cell =>
    obtain ⟨hcomp, hshape⟩ := hstate hholds
    exact ⟨t, hcomp, by simp [hshape], by simp [hshape], rfl⟩

/-- No output of the loop node holds two results. -/
theorem Fits.result_unique {loop : Node Body} {body : Body} {step : CellStep} {walk : Walk}
    (hf : plan.Fits g loop body step walk) (hports : (body.outputs.map OutputMap.output).Nodup)
    {r r' : LoopResult} {i : Nat} (h : (r, i) ∈ plan.results) (h' : (r', i) ∈ plan.results) :
    r = r' := by
  have hnodup : (plan.results.map (·.2)).Nodup := hf.map_snd_results ▸ hports
  exact congrArg Prod.fst (List.inj_on_of_nodup_map hnodup h h' rfl)

/-- **The replacement of a loop keeps its meaning.**  In a graph whose index lists every read,
everything that has read an output of the loop node reads another value instead, which has the
tensor that the loop computes for this output, and the graph computes what it has computed. -/
theorem computes_convert (hk : g.Listed) (ha : g.Acyclic) (hd : g.NoDangling)
    {rule : Rule Body} (hrule : rule ∈ conversions) {id : Nat} {nodes : List Nat}
    (h : (rule.attempt id).apply g = (.ok (.applied nodes), g')) (hI : I.Follows F)
    (hF : F.Ignores ["hidden_size", "direction"])
    (hregular : ∀ loop body, g.live? id = some loop → loop.body = some body → body.Regular)
    (hnonzero : ∀ u v s, g.Reads u v → u.node = id → g.Computes I ρ v s → 0 ∉ s.shape) :
    ∃ σ : Value → Value, (∀ v, v.node ≠ id → σ v = v) ∧
      (∀ i, g.Describes id i → (σ ⟨id, i⟩).node ≠ id) ∧
      (∀ u i, g.Reads u ⟨id, i⟩ → g'.Reads u (σ ⟨id, i⟩)) ∧ g'.outputs = g.outputs.map σ ∧
      ∀ v t, v.node = id ∨ v ∈ g.outputs → g.Computes I ρ v t → g'.Computes I ρ (σ v) t := by
  obtain ⟨plan, loop, body, step, walk, rfl, hf, hloop, hop, hbuild⟩ :=
    exists_plan_of_applied hrule h
  have hb := hregular loop body hloop hf.nested
  obtain ⟨a, g₁, g₂, g₃, hready, h₁, h₂, h₃, -, rfl⟩ := apply_build_ok hbuild
  have hlt : plan.loop < g.slots.length := Graph.lt_length_of_live? hloop
  have hid : ∀ i, i = plan.loop → i < g.slots.length := fun i hi => hi ▸ hlt
  have hread : ∀ v ∈ loop.inputs, v.node ≠ plan.loop := fun v hv hmem =>
    ha.not_feeds_self (hmem ▸ Graph.Feeds.of_mem hloop hv)
  have hxold := hread _ hf.x_mem
  have hsold := fun v hv => hread v (hf.states_mem v hv)
  have hgrows := hready.grows (S := fun _ => True) trivial (fun _ _ => trivial) fun _ _ => trivial
  have hoperands := hready.grows_operands (S := fun _ => True) trivial (fun _ _ => trivial)
    fun _ _ => trivial
  have hnew : (a.weighted plan).slots.length ≠ plan.loop := fun heq =>
    Nat.not_le_of_lt hlt (heq ▸ hoperands.1.length_le)
  obtain ⟨σ, hs, hpresents⟩ := exists_substituted h₁ h₂ h₃ I ρ hI (hgrows.listed hk)
    (Nat.lt_of_lt_of_le hlt hgrows.length_le) hnew (hf.result_unique hb.nodup)
  have hfirst := (Graph.Substituted.of_grows hk (· = plan.loop) hgrows).trans hs
  have hr := hf.rerouted_connected hk hd ha hloop hready h₁ h₂ h₃
  obtain ⟨houtputs, -, hreads⟩ := Graph.eliminateUnusedConstants_spec
    (g₃.markEliminated plan.loop).2 (((g₃.node? plan.loop).map Node.inputs).getD [])
  -- The outputs of the loop node, when its operands have the same tensors as before.
  have hport : ∀ v t, v.node = plan.loop → (∀ x ∈ loop.inputs, ∀ s, g.Computes I ρ x s →
      (g₃.markEliminated plan.loop).2.Computes I ρ x s) → g.Computes I ρ v t →
      (g₃.markEliminated plan.loop).2.Computes I ρ (σ v) t ∧
        (g₃.markEliminated plan.loop).2.Lasting (σ v).node := by
    rintro ⟨_, i⟩ t rfl hsame ht
    obtain ⟨x, states, batch, width, steps, result, hu, hresult, hholds⟩ :=
      hf.exists_unrolled hI hb hloop hop (fun v hv s hs => by
        obtain ⟨u, hu, hnode⟩ := Graph.reads_of_mem hloop hv
        exact hnonzero u v s hu hnode hs) ht
    obtain ⟨rows, hrows⟩ := hf.hidden
    have hstates : List.Forall₂ ((g₃.markEliminated plan.loop).2.Computes I ρ) plan.states
        (states 0) := by
      refine List.forall₂_iff_zip.2 ⟨hu.initial.length_eq, fun {v s} hvs => ?_⟩
      exact hsame v (hf.states_mem v (List.of_mem_zip hvs).1) s (List.forall₂_zip hu.initial hvs)
    obtain ⟨y, hy, hle, hrank, harranged⟩ := hu.exists_computes_result hI hF hk hready hs hid hxold
      hsold (hsame _ hf.x_mem _ hu.input) hstates hf.length_states hrows hf.axis_le hholds
    obtain ⟨-, hpresent⟩ := hpresents result i hresult
    obtain ⟨n, hn, hop⟩ := hpresent.exists_node
    exact ⟨hpresent.computes hy hle hrank harranged, n, hn, .inl hop⟩
  have hall : ∀ v t, g.Computes I ρ v t → (g₃.markEliminated plan.loop).2.Computes I ρ (σ v) t :=
    fun v t => hfirst.computes ha (V := fun _ => True) (fun _ _ _ _ _ _ _ => trivial)
      (fun w s _ hw hbefore hs => (hport w s hw (fun x hx s hs => by
        have hkept := hbefore x s trivial (hw ▸ .single (.of_mem hloop hx)) hs
        rwa [hfirst.fixes x (hread x hx)] at hkept) hs).1) trivial
  refine ⟨σ, hfirst.fixes, fun i hi => ?_, fun u i hu => ?_, ?_, fun v t hv ht => ?_⟩
  · obtain ⟨n, b, hn, hbody, hdescribed⟩ := hi
    obtain rfl := Option.some.inj (hn.symm.trans hloop)
    obtain rfl := Option.some.inj (hbody.symm.trans hf.nested)
    obtain ⟨result, hresult⟩ := hf.exists_result_iff.2 hdescribed
    exact (hpresents result i (mem_outputsOf.1 hresult)).1
  · have hu' : u.node ≠ plan.loop := fun heq => ha.not_feeds_self (heq ▸ hu.feeds)
    exact hreads u _ (hfirst.reads hu' hu)
      (hr.notMem_of_reads ha hlt (hr.feeds_of_mem hloop) rfl hu)
  · rw [houtputs, hfirst.outputs]
  · have hlasting : (g₃.markEliminated plan.loop).2.Lasting (σ v).node := by
      obtain hv | hv := hv
      · refine (hport v t hv (fun x hx s hs => ?_) ht).2
        have hkept := hall x s hs
        rwa [hfirst.fixes x (hread x hx)] at hkept
      · have hwanted : (g₃.markEliminated plan.loop).2.Wanted (σ v) :=
          .inl (hfirst.outputs ▸ List.mem_map_of_mem hv)
        exact hwanted.lasting (hall v t ht).hasValue
    exact (hall v t ht).eliminateUnusedConstants hs.listed hlasting _

/-- The body of a recurrent loop is regular. -/
theorem regular_of_stepSpecs {body : Body}
    (hgraph : body.graph = .ofSpecs stepSpecs [⟨8, 0⟩, ⟨7, 0⟩]) (hparams : body.params = [0, 1])
    (hnodup : (body.outputs.map OutputMap.output).Nodup) : body.Regular := by
  have hk : body.graph.WellKept := hgraph ▸ (Graph.ofSpecs_sound _ _ (by rfl) (by rfl)).1
  refine ⟨hk, fun id hid => ?_, fun id n hn hop => ?_, hnodup⟩
  · rw [hparams] at hid
    rw [hgraph]
    simp only [List.mem_cons, List.not_mem_nil, or_false] at hid
    obtain rfl | rfl := hid <;> exact ⟨_, rfl, rfl⟩
  · -- There are no reshapes in the body.
    have hid : id ∈ body.graph.order :=
      (hk.ordered.mem_iff _).2 (Graph.hasNode_of_node? (Graph.node?_of_live? hn))
    rw [hgraph] at hid hn
    have hnone : ∀ id ∈ (Graph.ofSpecs stepSpecs [⟨8, 0⟩, ⟨7, 0⟩]).order,
        ((Graph.ofSpecs stepSpecs [⟨8, 0⟩, ⟨7, 0⟩]).live? id).all (·.op ≠ .reshape) = true := by
      decide +kernel
    have hne := hnone id hid
    rw [hn, Option.all_some, decide_eq_true_eq] at hne
    exact absurd hop hne

/-- The tensors of the parameters: the positions of the input, and the initial state. -/
def positions : Environment
  | 0 => some ⟨[1, 2, 1], [.word 1, .word 2], by decide⟩
  | 1 => some ⟨[1, 1], [.word 5], by decide⟩
  | _ => none

/-- The backward loop computes the state 12 at the second position and 25 at the first one, and so
does what is there after the conversion. -/
theorem computes_convert_recurrentLoop :
    (((iteratorRule .rnn).attempt 2).apply (recurrentLoop bothOutputs)).1 =
      .ok (.applied [2]) ∧
    (recurrentLoop bothOutputs).Computes StepFunction.doubling.interpretation positions ⟨2, 0⟩
      ⟨[1, 2, 1], [.word 25, .word 12], rfl⟩ ∧
    ∃ v, (((iteratorRule .rnn).attempt 2).apply (recurrentLoop bothOutputs)).2.outputs[0]? = some v ∧
      (((iteratorRule .rnn).attempt 2).apply (recurrentLoop bothOutputs)).2.Computes
        StepFunction.doubling.interpretation positions v ⟨[1, 2, 1], [.word 25, .word 12], rfl⟩ := by
  obtain ⟨hk, ha, hd⟩ := recurrentLoop_sound bothOutputs
  have hrule : iteratorRule .rnn ∈ conversions := by
    simp [conversions]
  have happlied : (((iteratorRule .rnn).attempt 2).apply (recurrentLoop bothOutputs)).1 =
      .ok (.applied [2]) := by
    decide +kernel
  have hcomputes : (recurrentLoop bothOutputs).Computes StepFunction.doubling.interpretation
      positions ⟨2, 0⟩ ⟨[1, 2, 1], [.word 25, .word 12], rfl⟩ :=
    ⟨20, by decide +kernel⟩
  have hregular : ∀ loop body, (recurrentLoop bothOutputs).live? 2 = some loop →
      loop.body = some body → body.Regular := by
    rintro loop body hloop hbody
    obtain rfl := Option.some.inj hloop
    obtain rfl := Option.some.inj hbody
    exact regular_of_stepSpecs rfl rfl (by decide)
  have hnonzero : ∀ u v s, (recurrentLoop bothOutputs).Reads u v → u.node = 2 →
      (recurrentLoop bothOutputs).Computes StepFunction.doubling.interpretation positions v s →
        0 ∉ s.shape := by
    rintro ⟨_, i⟩ v s ⟨n, hn, hin⟩ rfl hs
    obtain rfl := Option.some.inj hn
    obtain _ | _ | i := i
    · obtain rfl := Option.some.inj hin
      obtain ⟨-, hs, -⟩ := (Graph.computes_parameter_iff rfl rfl).1 hs
      obtain rfl := Option.some.inj hs
      decide
    · obtain rfl := Option.some.inj hin
      obtain ⟨-, hs, -⟩ := (Graph.computes_parameter_iff rfl rfl).1 hs
      obtain rfl := Option.some.inj hs
      decide
    · exact absurd hin (by simp [NodeSpec.build])
  have hconverted : ((iteratorRule .rnn).attempt 2).apply (recurrentLoop bothOutputs) =
      (.ok (.applied [2]), (((iteratorRule .rnn).attempt 2).apply (recurrentLoop bothOutputs)).2) :=
    Prod.ext happlied rfl
  obtain ⟨σ, -, -, -, houtputs, hkept⟩ := computes_convert hk.listed ha hd hrule hconverted
    (StepFunction.follows_interpretation _)
    (StepFunction.ignores_doubling _) hregular hnonzero
  refine ⟨happlied, hcomputes, σ ⟨2, 0⟩, ?_, hkept _ _ (.inl rfl) hcomputes⟩
  rw [houtputs]
  rfl

end LoopPlan

end Dataflow
