import Dataflow.Proofs.Graph.Substitution
import Dataflow.Proofs.Runtime.Computing

/-!
# Tensors at later stages

When every reader of the values of some nodes reads other values instead, and these have the same
tensors, then all tensors stay the same.  Neither do they change when unused constants are taken out.

## Main statements

* `Graph.Substituted.computes` : the tensors after a substitution.
* `Graph.Computes.eliminateUnusedConstants` : the tensors of lasting nodes.
-/

namespace Dataflow

namespace Graph

variable {g h : Graph Body} {I : Interpretation} {ρ : Environment} {old : Nat → Prop}
  {σ : Value → Value} {v : Value} {t : Grid}

/-- A node computes the same in another graph when its operands have the same tensors there. -/
theorem exists_nodeValue?_of_inputs {n m : Node Body} (hop : m.op = n.op)
    (hattributes : m.attributes = n.attributes) (hbody : m.body = n.body) {bound i id : Nat}
    (hinputs : ∀ operands, n.inputs.mapM (eval I bound g ρ) = some operands →
      List.Forall₂ (h.Computes I ρ) m.inputs operands)
    (ht : g.nodeValue? I (eval I bound) bound ρ id n i = some t) :
    ∃ bound, h.nodeValue? I (eval I bound) bound ρ id m i = some t := by
  have hconstant : m.constant? = n.constant? := by
    rw [Node.constant?, Node.constant?, Node.attribute?, Node.attribute?, hop, hattributes]
  have hresult : ∀ f bound operands, m.result? I f bound operands i =
      n.result? I f bound operands i := by
    intro f bound operands
    simp only [Node.result?, Node.loopValue?, hop, hattributes, hbody]
  simp only [nodeValue?, hop, hconstant, hresult] at ht ⊢
  by_cases hparam : n.op = .parameter
  · rw [if_pos hparam] at ht
    exact ⟨0, (if_pos hparam).trans ht⟩
  · simp only [if_neg hparam] at ht ⊢
    by_cases hconst : n.op.isConstant = true
    · rw [if_pos hconst] at ht
      exact ⟨0, (if_pos hconst).trans ht⟩
    · simp only [if_neg hconst] at ht ⊢
      obtain ⟨operands, hoperands, ht⟩ := Option.bind_eq_some_iff.1 ht
      obtain ⟨bound', hbound⟩ := exists_eval_of_forall₂ (hinputs operands hoperands)
      refine ⟨max bound bound', Option.bind_eq_some_iff.2 ⟨operands, ?_, ?_⟩⟩
      · exact Finds.mapM (finds_eval I (Nat.le_max_right bound bound') h ρ) _ _ hbound
      · exact Node.finds_result? (finds_eval I (Nat.le_max_left bound bound')) I n operands i
          (Nat.le_max_left bound bound') _ ht

/-- **Substitution keeps the meaning.**  Among values of which only old nodes read others, those of
the old nodes may have others put in their place that have the same tensors, provided that the
values behind them keep theirs. -/
theorem Substituted.computes (hs : g.Substituted old σ h) (ha : g.Acyclic) {V : Value → Prop}
    (hV : ∀ v n, V v → ¬ old v.node → g.live? v.node = some n → ∀ x ∈ n.inputs, V x)
    (hport : ∀ v t, V v → old v.node →
      (∀ x s, V x → Relation.TransGen g.Feeds x.node v.node → g.Computes I ρ x s →
        h.Computes I ρ (σ x) s) → g.Computes I ρ v t → h.Computes I ρ (σ v) t)
    (hv : V v) (ht : g.Computes I ρ v t) : h.Computes I ρ (σ v) t := by
  -- The induction is on the references, so that the operands of a node come before its results.
  generalize hid : v.node = id
  induction id using ha.wellFounded.transGen.induction generalizing v t with
  | _ id ih =>
    subst hid
    by_cases hold : old v.node
    · exact hport v t hv hold (fun x s hx hlt hs => ih x.node hlt hx hs rfl) ht
    · obtain ⟨n, l, hn, hl, hadmits, bound, hnode⟩ := computes_iff.1 ht
      rw [hs.fixes v hold]
      refine computes_iff.2 ⟨n.mapInputs σ, l, hs.live hold hn, hl, hadmits, ?_⟩
      refine exists_nodeValue?_of_inputs (n := n) (m := n.mapInputs σ) rfl rfl rfl ?_ hnode
      intro operands hoperands
      refine List.forall₂_map_left_iff.2 (List.forall₂_iff_zip.2 ⟨?_, fun {x s} hxs => ?_⟩)
      · exact (mapM_eq_some_iff.1 hoperands).length_eq
      · have hx := (List.of_mem_zip hxs).1
        exact ih x.node (.single (.of_mem hn hx)) (hV v n hv hold hn x hx)
          ⟨bound, List.forall₂_zip (mapM_eq_some_iff.1 hoperands) hxs⟩ rfl

/-- Lasting nodes compute the same without the unused constants. -/
theorem Computes.eliminateUnusedConstants (hv : g.Computes I ρ v t) (hk : g.Listed)
    (hl : g.Lasting v.node) (values : List Value) :
    (Graph.eliminateUnusedConstants values g).2.Computes I ρ v t := by
  refine hv.transfer (P := g.Lasting) (fun i n hi hn => ?_) (fun i n _ hn _ hop w hw hval => ?_) hl
  · rw [hi.live?_eliminateUnusedConstants hk values, hn]
  · obtain ⟨j, hj⟩ := List.mem_iff_getElem?.1 hw
    have hne : n.op ≠ .constant := by
      intro heq
      rw [heq] at hop
      exact absurd hop (by decide)
    have hwanted : g.Wanted w := .inr ⟨⟨i, j⟩, n, ⟨n, hn, hj⟩, hn, hne⟩
    exact hwanted.lasting hval

/-- An output of the graph computes the same after an unused node is taken out. -/
theorem Computes.eliminateIfUnused (ht : g.Computes I ρ v t) (hk : g.Listed)
    (hv : v ∈ g.outputs) (id : Nat) : (Graph.eliminateIfUnused g id).2.Computes I ρ v t := by
  unfold Graph.eliminateIfUnused
  split
  · next hunused =>
    have hused : ∀ w, g.Wanted w → g.hasValue w = true → w.node ≠ id := by
      rintro w hw hval rfl
      rw [hw.isUnusedNode hk hval] at hunused
      exact Bool.false_ne_true hunused
    refine ht.transfer (P := (· ≠ id)) (fun i n hi hn => ?_) (fun i n _ hn _ hop w hw hval => ?_)
      (hused v (.inl hv) ht.hasValue)
    · rw [live?_markEliminated, if_neg hi, hn]
    · obtain ⟨u, hread, rfl⟩ := reads_of_mem hn hw
      refine hused w (.inr ⟨u, n, hread, hn, ?_⟩) hval
      intro heq
      rw [heq] at hop
      exact absurd hop (by decide)
  · exact ht

end Graph

end Dataflow
