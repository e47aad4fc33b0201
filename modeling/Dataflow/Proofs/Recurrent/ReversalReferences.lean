import Dataflow.Proofs.Recurrent.ReversalMeaning

/-!
# References after reversals have been taken into a sequence node

The backward sequence node takes over the second reversal and the last states of the sequence node.
All other values of the nodes that are taken out are read on the way from the sequence node to the
second reversal alone, so no reference is left dangling.  The first reversal goes only if nothing
reads it any more.

## Main statements

* `ReversalPlan.Involved.rerouted` : the replacement as a rerouting.
* `ReversalPlan.noDangling_attempt` : no reference dangles after the replacement.
-/

namespace Dataflow

namespace ReversalPlan

variable {β : Type} {g g' k : Graph β} {plan : ReversalPlan} {first lstm second : Node β}
  {data x l a v y : Value}

/-- A value that other nodes may read gets another one in its place. -/
theorem Involved.mem_pairs (hi : Involved g plan first lstm second data x l a) (hkept : plan.Kept v)
    (hmem : v.node ∈ plan.replaced) (hval : g.hasValue v = true) (new : Nat) (y : Value) :
    v ∈ (plan.pairs lstm new y).map Prod.fst := by
  rw [pairs, List.map_cons, List.map_map]
  obtain rfl | ⟨hnode, hindex⟩ := hkept hmem
  · exact List.mem_cons_self
  · obtain ⟨n, hn, hlt⟩ := Graph.hasValue_iff.1 hval
    obtain rfl := Option.some.inj (hi.lstm_node.symm.trans (hnode ▸ hn))
    refine List.mem_cons_of_mem _ (List.mem_map.2 ⟨v.index, ?_, ?_⟩)
    · rw [List.range_eq_range', List.drop_range', List.mem_range'_1]
      omega
    · rw [Function.comp_apply, ← hnode]

/-- The values that get others in their place are those that lose their readers. -/
theorem Involved.rerouted (hi : Involved g plan first lstm second data x l a) (hk : g.WellKept)
    (ha : g.Acyclic) (hd : g.NoDangling)
    (hspec : ∀ v ∈ (plan.spec lstm data).inputs, g.hasValue v = true)
    (hresult : (plan.result lstm g.slots.length).apply (g.push (plan.spec lstm data)) =
      (.ok y, k)) :
    g.Rerouted plan.replaced (((plan.pairs lstm g.slots.length y).map Prod.fst).reverse ++ [])
      (Graph.redirectAll (plan.pairs lstm g.slots.length y) k) := by
  have hD : ∀ id ∈ plan.replaced, id < g.slots.length := fun id hid => hi.lt_length hid
  have hfresh : ∀ u : Value, g.slots.length ≤ u.node → u.node ∉ plan.replaced :=
    fun u hu hmem => Nat.not_le_of_lt (hD _ hmem) hu
  obtain ⟨hgrows, hy, hynew⟩ := grows_result hfresh (hi.length_pos hd) hresult
  have hpushed : g.Rerouted plan.replaced [] (g.push (plan.spec lstm data)) :=
    (Graph.Rerouted.refl hk.listed hd).push fun v hv =>
      ⟨hspec v hv, hi.notMem_of_transGen ha (hi.transGen_of_mem hv)⟩
  refine (hpushed.grows hgrows).redirectAll hD fun p hp => ?_
  obtain rfl | hp := List.mem_cons.1 hp
  · exact ⟨hy, hynew⟩
  · obtain ⟨i, hi, rfl⟩ := List.mem_map.1 hp
    have hlt : i < lstm.outputs.length := List.mem_range.1 (List.mem_of_mem_drop hi)
    exact ⟨hgrows.hasValue (Graph.hasValue_push_new hlt), Nat.le_refl _⟩

/-- **References after reversals have been taken into a sequence node.**  When every reversal has one
output, no reference dangles where the rule has applied. -/
theorem noDangling_attempt (hk : g.WellKept) (ha : g.Acyclic) (hd : g.NoDangling)
    (hsingle : ∀ id n, g.live? id = some n → n.op = .reverseSequence → n.outputs.length = 1)
    {id : Nat} {nodes : List Nat}
    (h : (reversalRule.attempt id).apply g = (.ok (.applied nodes), g')) : g'.NoDangling := by
  obtain ⟨plan, first, lstm, second, data, x, l, a, hi, hfuse⟩ := exists_plan_of_applied hk h
  obtain ⟨hfalse, -⟩ | ⟨lstm', first', data', y, k, -, hlstm, hfirst, hdata, hspec, hresult, rfl⟩ :=
    apply_fuse_ok hfuse
  · simp at hfalse
  obtain rfl := Option.some.inj ((Graph.node?_of_live? hi.lstm_node).symm.trans hlstm)
  obtain rfl := Option.some.inj ((Graph.node?_of_live? hi.first_node).symm.trans hfirst)
  rw [hi.first_inputs] at hdata
  obtain rfl := Option.some.inj hdata
  have houts := hsingle _ _ hi.second_node hi.second_op
  have hr := hi.rerouted hk ha hd hspec hresult
  -- Before the first reversal is looked at, there are no constants to be taken out.
  have hbefore : (Graph.eliminateUnusedConstants [] (Graph.eliminateAll plan.replaced
      (Graph.redirectAll (plan.pairs lstm g.slots.length y) k)).2).2.NoDangling := by
    refine (hr.noDangling_iff fun _ _ _ _ _ _ => List.not_mem_nil).2 fun v hmem hmoved => ?_
    have hnot : plan.Kept v → g.hasValue v = true → False := fun hkept hval =>
      hmoved (by simpa using hi.mem_pairs hkept hmem hval g.slots.length y)
    refine ⟨fun hout => hnot (hi.kept_of_output houts hd hout) (hd.outputs v hout), fun u hu => ?_⟩
    by_contra hreader
    obtain ⟨n, hn, hin⟩ := hu
    exact hnot (hi.kept_of_mem houts hd hn hreader (List.mem_of_getElem? hin)) (hd.reads ⟨n, hn, hin⟩)
  exact hbefore.eliminateIfUnused (hr.listed.eliminateAll _) _

/-- The result of the second reversal and a last state are outputs of the graph, and afterwards they
are values of the new nodes. -/
theorem noDangling_attempt_turned :
    (turned.WellKept ∧ turned.Acyclic ∧ turned.NoDangling) ∧
      ((reversalRule.attempt 11).apply turned).1 = .ok (.applied [11, 10, 8, 7]) ∧
        ((reversalRule.attempt 11).apply turned).2.NoDangling := by
  obtain ⟨hk, ha, hd⟩ : turned.WellKept ∧ turned.Acyclic ∧ turned.NoDangling :=
    Graph.ofSpecs_sound turnedSpecs _ (by decide +kernel) (by decide +kernel)
  have happlied : ((reversalRule.attempt 11).apply turned).1 = .ok (.applied [11, 10, 8, 7]) := by
    decide +kernel
  have hsingle : ∀ id n, turned.live? id = some n → n.op = .reverseSequence →
      n.outputs.length = 1 := fun id n hn => of_decide_eq_true
    (Graph.forall_live_of_all (p := fun n => decide (n.op = .reverseSequence → n.outputs.length = 1))
      (by decide +kernel) hn)
  exact ⟨⟨hk, ha, hd⟩, happlied, noDangling_attempt hk ha hd hsingle (Prod.ext happlied rfl)⟩

end ReversalPlan

end Dataflow
