import Dataflow.Proofs.Graph.ListedReaders
import Dataflow.Proofs.Recurrent.LoopMeaning

/-!
# The listed readers of a replaced loop

Every listed reader of a described output of a loop holds a new value after the replacement.  The
value presents an output of the sequence node, and its layout is the one of this output, without the
axis for the directions and in the axis order of the loop.

## Main definitions

* `Layout.presented` : the layout of an output of the sequence node, as it is presented.
* `LoopPlan.Shown` : a value that presents an output of the sequence node.

## Main statements

* `LoopPlan.exists_relisted_connected` : the values that the readers of the loop node come to hold.
* `LoopPlan.exists_relisted_build` : the stages of a replacement.
-/

namespace Dataflow

/-- The layout of an output of the sequence node without the axis for the directions, and with the
first two axes of the rest exchanged if asked for. -/
def Layout.presented (l : Layout) (transposed : Bool) : Except Error Layout := do
  let l ← l.squeeze 1
  if transposed then l.transpose [1, 0, 2] else return l

namespace LoopPlan

open Dataflow.Graph (KeepsNode)

variable {g h h' : Graph Body} {plan : LoopPlan} {σ : Value → Value} {v w : Value}
  {result : LoopResult} {transposed : Bool} {suffix : String} {l : Layout}

/-- The value is no constant, and its layout is the presented one. -/
structure Shown (l : Layout) (transposed : Bool) (h : Graph Body) (w : Value) : Prop where
  exists_node : ∃ n, h.live? w.node = some n ∧ n.op ≠ .constant
  declares : ∃ l', l.presented transposed = .ok l' ∧ h.Declares w l'

theorem Shown.keeps (hw : Shown l transposed h w) (hk : h.KeepsNode h' w.node) :
    Shown l transposed h' w := by
  obtain ⟨⟨n, hn, hop⟩, l', hl', hdeclares⟩ := hw
  obtain ⟨inputs, hn'⟩ := hk n hn
  exact ⟨⟨_, hn', hop⟩, l', hl', hk.declares hdeclares⟩

/-- What `present` makes has the presented layout. -/
theorem shown_of_present (happly : (present plan suffix transposed v).apply h = (.ok w, h'))
    (hv : h.Declares v l) : Shown l transposed h' w := by
  refine ⟨(built_present (S := fun _ => True) happly trivial fun _ _ => trivial).2, ?_⟩
  obtain ⟨y, h₁, hsqueeze, hlast⟩ := apply_present_ok happly
  obtain ⟨m, l₁, hm, hl₁, -, rfl, rfl⟩ := Edit.apply_squeeze_ok_iff.1 hsqueeze
  obtain rfl := Option.some.inj (hv.layout?.symm.trans hm)
  have hpresented : l.presented transposed =
      if transposed = true then l₁.transpose [1, 0, 2] else .ok l₁ := by
    rw [Layout.presented, hl₁]
    rfl
  rw [hpresented]
  obtain ⟨htransposed, htranspose⟩ | ⟨htransposed, rfl, rfl⟩ := hlast
  · obtain ⟨m, l₂, hm, hl₂, -, rfl, rfl⟩ := Edit.apply_transpose_ok_iff.1 htranspose
    obtain rfl := Option.some.inj (Graph.declares_pushWithInts.layout?.symm.trans hm)
    exact ⟨l₂, (if_pos htransposed).trans hl₂, Graph.declares_pushWithInts⟩
  · exact ⟨l₁, if_neg htransposed, Graph.declares_pushWithInts⟩

/-! ### The outputs of the loop node -/

theorem relisted_redirected {loop : Nat} {outputs : List Nat} (hr : g.Relisted σ h)
    (hw : g.slots.length ≤ w.node) (hne : w.node ≠ loop) :
    g.Relisted (fun x => Value.substOutputs loop outputs w (σ x)) (redirected loop w outputs h) := by
  induction outputs generalizing h σ with
  | nil =>
    simp only [Value.substOutputs_nil]
    exact hr
  | cons i rest ih =>
    simp only [Value.substOutputs_cons i hne]
    exact ih (hr.redirect ⟨loop, i⟩ hw)

theorem keepsNode_redirected (loop : Nat) (w : Value) (outputs : List Nat) (h : Graph Body) (id : Nat) :
    h.KeepsNode (redirected loop w outputs h) id := by
  induction outputs generalizing h with
  | nil => exact .refl h id
  | cons i rest ih => exact (KeepsNode.of_redirect h ⟨loop, i⟩ w id).trans (ih _)

/-- The listed readers of the outputs of the loop node that hold one of its results are moved to
something new, which presents the result. -/
theorem Connected.exists_relisted (hc : Connected plan result transposed v h h')
    (hr : g.Relisted σ h) (hloop : plan.loop < g.slots.length) :
    ∃ y : Value, g.slots.length ≤ y.node ∧
      g.Relisted (fun x => Value.substOutputs plan.loop (plan.outputsOf result) y (σ x)) h' ∧
      (∀ id, h.KeepsNode h' id) ∧
      (plan.outputsOf result ≠ [] → ∀ l, h.Declares v l → Shown l transposed h' y) := by
  by_cases hnil : plan.outputsOf result = []
  · rw [hc.unused hnil, hnil]
    refine ⟨⟨g.slots.length, 0⟩, Nat.le_refl _, ?_, fun id => .refl h id, absurd rfl⟩
    simp only [Value.substOutputs_nil]
    exact hr
  · obtain ⟨suffix, y, h₁, hpresent, rfl⟩ := hc.connected hnil
    obtain ⟨hbuilt, -⟩ := built_present (S := fun _ => True) hpresent trivial fun _ _ => trivial
    have hy : g.slots.length ≤ y.node := Nat.le_trans hr.length_le hbuilt.new
    have hne : y.node ≠ plan.loop := (Nat.lt_of_lt_of_le hloop hy).ne'
    have hkeeps := keepsNode_redirected plan.loop y (plan.outputsOf result) h₁
    exact ⟨y, hy, relisted_redirected (hr.grows hbuilt.grows) hy hne,
      fun id => (KeepsNode.of_grows hbuilt.grows id).trans (hkeeps id),
      fun _ l hl => (shown_of_present hpresent hl).keeps (hkeeps y.node)⟩

/-- Whether the first two axes of an output of the sequence node are exchanged. -/
def swaps (plan : LoopPlan) (result : LoopResult) : Bool :=
  decide (result = .sequence ∧ plan.timeAxis = 0)

/-- The listed readers of the loop node, after all of its described outputs have been connected. -/
theorem exists_relisted_connected {sequence : Nat} {g₀ g₁ g₂ g₃ : Graph Body}
    (h₁ : Connected plan .sequence (decide (plan.timeAxis = 0)) ⟨sequence, 0⟩ g₀ g₁)
    (h₂ : Connected plan .hidden false ⟨sequence, 1⟩ g₁ g₂)
    (h₃ : Connected plan .cell false ⟨sequence, 2⟩ g₂ g₃) (ht : g₀.Traceable)
    (hloop : plan.loop < g₀.slots.length) :
    ∃ σ, g₀.Relisted σ g₃ ∧ (∀ v, v.node ≠ plan.loop → σ v = v) ∧
      ∀ r i, (r, i) ∈ plan.results → (∀ r', (r', i) ∈ plan.results → r' = r) →
        g₀.slots.length ≤ (σ ⟨plan.loop, i⟩).node ∧
          ∀ l, g₀.Declares ⟨sequence, r.output⟩ l →
            Shown l (plan.swaps r) g₃ (σ ⟨plan.loop, i⟩) := by
  obtain ⟨y₁, hy₁, hr₁, hk₁, hs₁⟩ := h₁.exists_relisted (.refl ht) hloop
  obtain ⟨y₂, hy₂, hr₂, hk₂, hs₂⟩ := h₂.exists_relisted hr₁ hloop
  obtain ⟨y₃, hy₃, hr₃, hk₃, hs₃⟩ := h₃.exists_relisted hr₂ hloop
  have hne : ∀ {y : Value}, g₀.slots.length ≤ y.node → y.node ≠ plan.loop := fun hy =>
    (Nat.lt_of_lt_of_le hloop hy).ne'
  refine ⟨_, hr₃, fun v hv => ?_, fun r i hr hunique => ?_⟩
  · rw [Value.substOutputs_of_ne _ hv, Value.substOutputs_of_ne _ hv, Value.substOutputs_of_ne _ hv]
  -- An output is described once, so the other two results leave its readers alone.
  have hhit : ∀ y, Value.substOutputs plan.loop (plan.outputsOf r) y ⟨plan.loop, i⟩ = y := fun y =>
    if_pos ⟨rfl, mem_outputsOf.2 hr⟩
  have hmiss : ∀ {r'}, r' ≠ r → ∀ y,
      Value.substOutputs plan.loop (plan.outputsOf r') y ⟨plan.loop, i⟩ = ⟨plan.loop, i⟩ :=
    fun hr' y => if_neg fun h => hr' (hunique _ (mem_outputsOf.1 h.2))
  have hsome : plan.outputsOf r ≠ [] := List.ne_nil_of_mem (mem_outputsOf.2 hr)
  cases r with
  | sequence =>
    rw [hhit, Value.substOutputs_of_ne _ (hne hy₁), Value.substOutputs_of_ne _ (hne hy₁)]
    refine ⟨hy₁, fun l hl => ?_⟩
    have hshown := hs₁ hsome l hl
    simpa [swaps] using hshown.keeps ((hk₂ _).trans (hk₃ _))
  | hidden =>
    rw [hmiss (by decide), hhit, Value.substOutputs_of_ne _ (hne hy₂)]
    exact ⟨hy₂, fun l hl => (hs₂ hsome l ((hk₁ _).declares hl)).keeps (hk₃ _)⟩
  | cell =>
    rw [hmiss (by decide), hmiss (by decide), hhit]
    exact ⟨hy₃, fun l hl => hs₃ hsome l (((hk₁ _).trans (hk₂ _)).declares hl)⟩

/-- The stages of a replacement, with what the listed readers come to hold. -/
theorem exists_relisted_build {g' : Graph Body} (hbuild : plan.build.apply g = (.ok true, g'))
    (ht : g.Traceable) (hloop : plan.loop < g.slots.length) :
    ∃ (a : Assembly) (g₃ : Graph Body) (σ : Value → Value), a.Ready g plan ∧
      ((a.weighted plan).push (a.spec plan)).Relisted σ g₃ ∧
      (∀ v, v.node ≠ plan.loop → σ v = v) ∧
      (∀ r i, (r, i) ∈ plan.results → (∀ r', (r', i) ∈ plan.results → r' = r) →
        g.slots.length ≤ (σ ⟨plan.loop, i⟩).node ∧
          ∀ l, ((a.weighted plan).push (a.spec plan)).Declares
            ⟨(a.weighted plan).slots.length, r.output⟩ l →
              Shown l (plan.swaps r) g₃ (σ ⟨plan.loop, i⟩)) ∧
      g' = (Graph.eliminateUnusedConstants (((g₃.node? plan.loop).map Node.inputs).getD [])
        (Graph.eliminateAll [plan.loop] g₃).2).2 := by
  obtain ⟨a, g₁, g₂, g₃, hready, h₁, h₂, h₃, -, rfl⟩ := apply_build_ok hbuild
  have hgrows := hready.grows (S := fun _ => True) trivial (fun _ _ => trivial) fun _ _ => trivial
  obtain ⟨σ, hr, hfix, hresults⟩ := exists_relisted_connected h₁ h₂ h₃ (ht.grows hgrows)
    (Nat.lt_of_lt_of_le hloop hgrows.length_le)
  refine ⟨a, g₃, σ, hready, hr, hfix, fun r i hmem hunique => ?_, rfl⟩
  obtain ⟨hnew, hshown⟩ := hresults r i hmem hunique
  exact ⟨Nat.le_trans hgrows.length_le hnew, hshown⟩

end LoopPlan

end Dataflow
