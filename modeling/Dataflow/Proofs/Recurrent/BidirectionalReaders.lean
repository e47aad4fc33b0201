import Dataflow.Proofs.Graph.ListedReaders
import Dataflow.Proofs.Recurrent.BidirectionalFusion

/-!
# The listed readers of two replaced directions

Every listed reader of the concatenation holds the joined result of the bidirectional node after the
replacement, and the readers of a state of a direction hold its part of the state of both.  All other
values keep their listed readers, until the replaced nodes are taken out.

## Main statements

* `BidirectionalPlan.exists_relisted_connectState` : the readers of the states.
* `BidirectionalPlan.exists_relisted_fuse` : the stages of a replacement.
-/

namespace Dataflow

variable {β : Type}

namespace BidirectionalPlan

open Dataflow.Graph (Carries)

variable {g g' h h' k : Graph β} {plan : BidirectionalPlan} {σ : Value → Value} {D : List Nat}
  {fused i : Nat} {name : String}

/-- The nodes whose values get a replacement. -/
def sources (plan : BidirectionalPlan) : List Nat :=
  [plan.concat, plan.forward, plan.backward]

/-- The readers of a state of either direction are moved to something new. -/
theorem exists_relisted_connectState
    (hc : (plan.connectState name fused i).apply h = (.ok (), h')) (hr : g.Relisted σ h)
    (hk : Carries plan.sources k h) :
    Carries plan.sources k h' ∧ ∃ τ : Value → Value, g.Relisted (fun v => τ (σ v)) h' ∧
      ∀ v, v.node ≠ plan.forward → v.node ≠ plan.backward → τ v = v := by
  obtain ⟨rfl, -, -⟩ | ⟨k', hsplit, rfl⟩ := apply_connectState_ok hc
  · exact ⟨hk, fun v => v, hr, fun _ _ _ => rfl⟩
  · obtain ⟨_, layout, -, -, -, -, rfl⟩ := Edit.apply_split_ok hsplit
    refine ⟨((hk.push _).redirect (by simp [sources]) _).redirect (by simp [sources]) _,
      fun v => Value.subst ⟨plan.backward, i⟩ ⟨h.slots.length, 1⟩
        (Value.subst ⟨plan.forward, i⟩ ⟨h.slots.length, 0⟩ v),
      ((hr.push _).redirect ⟨plan.forward, i⟩ hr.length_le).redirect ⟨plan.backward, i⟩ hr.length_le,
      fun v hf hb => ?_⟩
    have hfirst : Value.subst ⟨plan.forward, i⟩ ⟨h.slots.length, 0⟩ v = v :=
      Value.subst_of_ne _ fun heq => hf (congrArg Value.node heq)
    exact (congrArg _ hfirst).trans (Value.subst_of_ne _ fun heq => hb (congrArg Value.node heq))

/-- The stages of a replacement, with what the listed readers come to hold. -/
theorem exists_relisted_fuse (hfuse : plan.fuse.apply g = (.ok true, g')) (ht : g.Traceable) :
    ∃ (forward backward : Node β) (y : Value) (g₁ g₂ g₄ : Graph β) (fused : Nat)
      (σ : Value → Value), g.node? plan.forward = some forward ∧
        g.node? plan.backward = some backward ∧
        (addBoth forward backward).apply g = (.ok fused, g₁) ∧
        (joined plan.joint forward.name fused).apply g₁ = (.ok y, g₂) ∧
        g.Grows (fun _ => True) g₂ ∧ g.slots.length ≤ y.node ∧
        g.Relisted σ g₄ ∧ Carries plan.sources g₂ g₄ ∧
        (∀ v, v.node ∉ plan.sources → σ v = v) ∧ σ ⟨plan.concat, 0⟩ = y ∧
        g' = (Graph.eliminateUnusedConstants (forward.inputs ++ backward.inputs ++
          plan.squeezes.flatMap fun id => ((g₄.node? id).map Node.inputs).getD [])
            (Graph.eliminateAll plan.replaced g₄).2).2 := by
  obtain ⟨hfalse, -⟩ | ⟨forward, backward, y, g₁, g₂, g₃, g₄, fused, -, hforward, hbackward, hadd,
    hjoin, hfirst, hsecond, rfl⟩ := apply_fuse_ok hfuse
  · simp at hfalse
  obtain ⟨hg₁, hnew, hfused⟩ := grows_addBoth (S := fun _ => True) (fun _ _ => trivial)
    (fun _ _ => trivial) hadd
  obtain ⟨hg₂, -, hy⟩ := built_joined (S := fun _ => True) trivial (hfused 0 (by decide))
    (fun _ _ => trivial) hjoin
  have hy : g.slots.length ≤ y.node := by
    obtain rfl | hy := hy
    · exact hnew
    · exact Nat.le_trans hg₁.length_le hy
  have hgrows := hg₁.trans hg₂
  have hr := ((Graph.Relisted.refl ht).grows hgrows).redirect ⟨plan.concat, 0⟩ hy
  have hk := (Carries.refl (D := plan.sources) (ht.grows hgrows)).redirect
    (v := ⟨plan.concat, 0⟩) (by simp [sources]) y
  obtain ⟨hk, τ₁, hr, hτ₁⟩ := exists_relisted_connectState hfirst hr hk
  obtain ⟨hk, τ₂, hr, hτ₂⟩ := exists_relisted_connectState hsecond hr hk
  have hlt : ∀ {id n}, g.node? id = some n → id < g.slots.length := fun hn => by
    obtain ⟨s, hs, -⟩ := Graph.node?_eq_some.1 hn
    exact Graph.lt_length_of_slot? hs
  have hfix : ∀ v : Value, v.node ≠ plan.forward → v.node ≠ plan.backward → τ₂ (τ₁ v) = v :=
    fun v hf hb => by rw [hτ₁ v hf hb, hτ₂ v hf hb]
  refine ⟨forward, backward, y, g₁, g₂, g₄, fused, _, hforward, hbackward, hadd, hjoin, hgrows, hy,
    hr, hk, fun v hv => ?_, ?_, rfl⟩
  · simp only [sources, List.mem_cons, List.not_mem_nil, or_false, not_or] at hv
    rw [Value.subst_of_ne _ fun heq => hv.1 (congrArg Value.node heq)]
    exact hfix v hv.2.1 hv.2.2
  · rw [Value.subst, if_pos rfl]
    exact hfix y (Nat.lt_of_lt_of_le (hlt hforward) hy).ne' (Nat.lt_of_lt_of_le (hlt hbackward) hy).ne'

end BidirectionalPlan

end Dataflow
