import Dataflow.Proofs.Graph.Census
import Dataflow.Proofs.Recurrent.BidirectionalFusion
import Dataflow.Proofs.Recurrent.LoopConversion
import Dataflow.Proofs.Recurrent.ReversalFusion

/-!
# The nodes that replacements are after

A replacement pushes the node that it is about, and by its builders further nodes that hold constants
or shape values.  None of these helpers has the operation that the replacement is after.  What it does
to the live nodes with that operation is therefore decided by its own node and by those that it takes
out: a loop goes, at least the second of two reversals goes, and two directions become one node.

## Main definitions

* `Op.isHelper` : the operations of the nodes that builders push.

## Main statements

* `Edit.idsWith_concat` and its companions : a builder pushes helpers only.
* `LoopPlan.idsWith_build`, `ReversalPlan.idsWith_fuse_subset`, `BidirectionalPlan.idsWith_fuse` : the
  live nodes with an operation after a replacement.
* `LoopPlan.card_idsWith_of_applied`, `ReversalPlan.card_idsWith_of_applied`,
  `BidirectionalPlan.card_idsWith_of_applied` : their number after a rule has applied.
-/

namespace Dataflow

/-- The operations of the nodes that builders push. -/
def Op.isHelper : Op → Bool
  | constant | reshape | squeeze | unsqueeze | transpose | concat | split | gather | shapeOf
  | broadcast => true
  | _ => false

variable {β : Type} {g g' : Graph β} {op : Op} {v w : Value} {name : String}

/-! ### Builders -/

theorem Graph.idsWith_push_of_ne {spec : NodeSpec β} (hne : spec.op ≠ op) :
    (g.push spec).idsWith op = g.idsWith op := by
  rw [idsWith_push, if_neg hne]

theorem Graph.idsWith_redirectAll (pairs : List (Value × Value)) (g : Graph β) (op : Op) :
    (redirectAll pairs g).idsWith op = g.idsWith op := by
  induction pairs generalizing g with
  | nil => rfl
  | cons p rest ih => rw [redirectAll, ih, idsWith_redirect]

section Builders

variable (hop : op.isHelper = false)
include hop

theorem Graph.idsWith_push_helper {spec : NodeSpec β} (hspec : spec.op.isHelper = true) :
    (g.push spec).idsWith op = g.idsWith op :=
  idsWith_push_of_ne fun heq => by rw [heq, hop] at hspec; exact absurd hspec (by simp)

namespace Edit

/-- A builder that computes the layout of its result from that of its operand. -/
theorem idsWith_reshaped {op' : Op} {suffix : String} {ints : List Int}
    {f : Layout → Except Error Layout} (hop' : op'.isHelper = true)
    (h : (do let layout ← pureExcept (f (← layoutOf v))
             withInts op' name suffix v ints layout : Edit β Value).apply g = (.ok w, g')) :
    g'.idsWith op = g.idsWith op := by
  obtain ⟨l, l', -, -, -, -, rfl⟩ := apply_reshaped_ok_iff.1 h
  exact (Graph.idsWith_push_helper hop hop').trans (Graph.idsWith_push_helper hop rfl)

theorem idsWith_unsqueeze {axis : Nat} (h : (unsqueeze name v axis).apply g = (.ok w, g')) :
    g'.idsWith op = g.idsWith op :=
  idsWith_reshaped hop rfl h

theorem idsWith_squeeze {axis : Nat} (h : (squeeze name v axis).apply g = (.ok w, g')) :
    g'.idsWith op = g.idsWith op :=
  idsWith_reshaped hop rfl h

theorem idsWith_transpose {order : List Nat} (h : (transpose name v order).apply g = (.ok w, g')) :
    g'.idsWith op = g.idsWith op :=
  idsWith_reshaped hop rfl h

theorem idsWith_reshape {target : List Int} (h : (reshape name v target).apply g = (.ok w, g')) :
    g'.idsWith op = g.idsWith op :=
  idsWith_reshaped hop rfl h

theorem idsWith_concat {values : List Value} {axis : Nat}
    (h : (concat name values axis).apply g = (.ok w, g')) : g'.idsWith op = g.idsWith op := by
  obtain ⟨_, _, _, -, -, -, -, -, rfl⟩ := apply_concat_ok h
  exact Graph.idsWith_push_helper hop rfl

theorem idsWith_split {axis parts : Nat} {values : List Value}
    (h : (split name v axis parts).apply g = (.ok values, g')) : g'.idsWith op = g.idsWith op := by
  obtain ⟨_, _, -, -, -, -, rfl⟩ := apply_split_ok h
  exact Graph.idsWith_push_helper hop rfl

theorem idsWith_entry {suffix : String} {p : Int}
    (h : (entry name suffix v p).apply g = (.ok w, g')) : g'.idsWith op = g.idsWith op := by
  obtain ⟨-, rfl⟩ := apply_entry_ok h
  exact (Graph.idsWith_push_helper hop rfl).trans (Graph.idsWith_push_helper hop rfl)

theorem idsWith_sequenceLengths (h : (sequenceLengths name v).apply g = (.ok w, g')) :
    g'.idsWith op = g.idsWith op := by
  obtain ⟨_, -, ⟨_, _, -, -, -, rfl⟩ | ⟨_, g₁, g₂, _, _, -, -, htime, hcount, -, rfl⟩⟩ :=
    apply_sequenceLengths_ok h
  · exact Graph.idsWith_push_helper hop rfl
  · rw [Graph.idsWith_push_helper hop rfl, idsWith_entry hop hcount, idsWith_entry hop htime,
      Graph.idsWith_push_helper hop rfl]

end Edit

end Builders

/-! ### Loops -/

namespace LoopPlan

variable {g g' : Graph Body} {plan : LoopPlan}

section Steps

variable (hop : op.isHelper = false)
include hop

theorem idsWith_batchMajor (h : plan.batchMajor.apply g = (.ok w, g')) :
    g'.idsWith op = g.idsWith op := by
  obtain ⟨-, htranspose⟩ | ⟨-, -, rfl⟩ := apply_batchMajor_ok h
  · exact Edit.idsWith_transpose hop htranspose
  · rfl

theorem Unsqueezed.idsWith_eq {vs ws : List Value} (h : Unsqueezed g vs g' ws) :
    g'.idsWith op = g.idsWith op := by
  induction h with
  | nil => rfl
  | cons hv _ ih => rw [ih, Edit.idsWith_unsqueeze hop hv]

/-- The operands of the sequence node are helpers. -/
theorem Assembly.Ready.idsWith_weighted {a : Assembly} (h : a.Ready g plan) :
    (a.weighted plan).idsWith op = g.idsWith op := by
  rw [weighted, Graph.idsWith_push_helper hop rfl, Graph.idsWith_push_helper hop rfl,
    Graph.idsWith_push_helper hop rfl, Edit.idsWith_sequenceLengths hop h.apply_lengths,
    h.unsqueezed.idsWith_eq hop, idsWith_batchMajor hop h.apply_x]

theorem idsWith_present {suffix : String} {transposed : Bool}
    (h : (present plan suffix transposed v).apply g = (.ok w, g')) :
    g'.idsWith op = g.idsWith op := by
  obtain ⟨y, g₁, hsqueeze, ⟨-, htranspose⟩ | ⟨-, -, rfl⟩⟩ := apply_present_ok h
  · rw [Edit.idsWith_transpose hop htranspose, Edit.idsWith_squeeze hop hsqueeze]
  · exact Edit.idsWith_squeeze hop hsqueeze

omit hop in
theorem idsWith_redirected (loop : Nat) (v : Value) (outputs : List Nat) (g : Graph Body) (op : Op) :
    (redirected loop v outputs g).idsWith op = g.idsWith op := by
  induction outputs generalizing g with
  | nil => rfl
  | cons i rest ih => rw [redirected, ih, Graph.idsWith_redirect]

theorem Connected.idsWith_eq {result : LoopResult} {transposed : Bool}
    (h : Connected plan result transposed v g g') : g'.idsWith op = g.idsWith op := by
  by_cases hnil : plan.outputsOf result = []
  · rw [h.unused hnil]
  · obtain ⟨suffix, y, g₁, hpresent, rfl⟩ := h.connected hnil
    rw [idsWith_redirected, idsWith_present hop hpresent]

/-- The loop node is taken out, and no other node with such an operation comes or goes. -/
theorem idsWith_build (hsequence : op.isSequence = false) {done : Bool}
    (h : plan.build.apply g = (.ok done, g')) :
    g'.idsWith op = (g.idsWith op).erase plan.loop := by
  obtain ⟨a, g₁, g₂, g₃, ha, h₁, h₂, h₃, -, rfl⟩ := apply_build_ok h
  have hconstant : op ≠ .constant := by
    rintro rfl
    exact absurd hop (by decide)
  have hspec : (a.spec plan).op ≠ op := by
    rintro rfl
    cases hkind : plan.kind <;>
      simp [Assembly.spec, sequenceSpec, hkind, Cell.sequenceOp, Op.isSequence, Op.sequences]
        at hsequence
  rw [Graph.idsWith_eliminateUnusedConstants _ _ hconstant, Graph.idsWith_markEliminated,
    h₃.idsWith_eq hop, h₂.idsWith_eq hop, h₁.idsWith_eq hop, Graph.idsWith_push_of_ne hspec,
    ha.idsWith_weighted hop]

end Steps

/-- A rule for loops with an operation applies at such a loop only. -/
theorem op_of_applied {rule : Rule Body} (hrule : rule ∈ conversions)
    (hpattern : rule.pattern = loopPattern op) {id : Nat} {nodes : List Nat} {n : Node Body}
    (h : (rule.attempt id).apply g = (.ok (.applied nodes), g')) (hn : g.live? id = some n) :
    n.op = op := by
  obtain ⟨_, _, m, -, -, hm, -, -⟩ := Rule.exists_match_of_applied (declines_conversion hrule) h
  rw [hpattern] at hm
  exact (op_of_matchValue_loopPattern hm hn).1

/-- A conversion takes out one loop. -/
theorem card_idsWith_of_applied {rule : Rule Body} (hrule : rule ∈ conversions)
    (hpattern : rule.pattern = loopPattern op) (hop : op.isHelper = false)
    (hsequence : op.isSequence = false) {id : Nat} {nodes : List Nat}
    (h : (rule.attempt id).apply g = (.ok (.applied nodes), g')) :
    (g'.idsWith op).card + 1 = (g.idsWith op).card := by
  obtain ⟨plan, loop, _, _, _, rfl, -, hloop, -, hbuild⟩ := exists_plan_of_applied hrule h
  rw [idsWith_build hop hsequence hbuild]
  exact Finset.card_erase_add_one
    (Graph.mem_idsWith.2 ⟨loop, hloop, op_of_applied hrule hpattern h hloop⟩)

end LoopPlan

/-! ### Reversals -/

namespace ReversalPlan

variable {plan : ReversalPlan}

/-- The nodes that are taken out go, and no node with such an operation comes. -/
theorem idsWith_fuse_subset (hop : op.isHelper = false) (hsequence : op ≠ .lstmSequence)
    (h : plan.fuse.apply g = (.ok true, g')) :
    g'.idsWith op ⊆ g.idsWith op \ plan.replaced.toFinset := by
  obtain ⟨hdone, -⟩ | ⟨lstm, first, data, y, k, -, -, -, -, -, hresult, rfl⟩ := apply_fuse_ok h
  · exact absurd hdone (by simp)
  · have hk : k.idsWith op = g.idsWith op := by
      have hspec : (g.push (plan.spec lstm data)).idsWith op = g.idsWith op :=
        Graph.idsWith_push_of_ne hsequence.symm
      unfold result at hresult
      split at hresult
      · rw [Edit.idsWith_squeeze hop hresult, hspec]
      · rw [← (Prod.mk.inj hresult).2, hspec]
    refine (Graph.idsWith_eliminateIfUnused_subset _ _ _).trans ?_
    rw [Graph.idsWith_eliminateAll, Graph.idsWith_redirectAll, hk]

/-- The replacement takes out the second reversal at least. -/
theorem card_idsWith_of_applied (hk : g.WellKept) {id : Nat} {nodes : List Nat}
    (h : (reversalRule.attempt id).apply g = (.ok (.applied nodes), g')) :
    (g'.idsWith .reverseSequence).card < (g.idsWith .reverseSequence).card := by
  obtain ⟨plan, first, lstm, second, data, x, l, a, hi, hfuse⟩ := exists_plan_of_applied hk h
  have hsecond : plan.second ∈ g.idsWith .reverseSequence :=
    Graph.mem_idsWith.2 ⟨second, hi.second_node, hi.second_op⟩
  have hreplaced : {plan.second} ⊆ plan.replaced.toFinset := by
    simp [replaced]
  calc (g'.idsWith .reverseSequence).card
      ≤ (g.idsWith .reverseSequence \ plan.replaced.toFinset).card :=
        Finset.card_le_card (idsWith_fuse_subset rfl (by decide) hfuse)
    _ ≤ (g.idsWith .reverseSequence \ {plan.second}).card :=
        Finset.card_le_card (Finset.sdiff_subset_sdiff (Finset.Subset.refl _) hreplaced)
    _ < (g.idsWith .reverseSequence).card := by
        rw [Finset.sdiff_singleton_eq_erase]
        exact Finset.card_erase_lt_of_mem hsecond

end ReversalPlan

/-! ### Two directions -/

namespace BidirectionalPlan

variable {plan : BidirectionalPlan} {forward backward : Node β}

section Steps

variable (hop : op.isHelper = false)
include hop

theorem idsWith_join {axis : Nat} {u : Value} (h : (join name v w axis).apply g = (.ok u, g')) :
    g'.idsWith op = g.idsWith op := by
  obtain ⟨_, _, _, -, -, -, -, rfl⟩ | ⟨-, h⟩ := apply_join_ok h
  · exact Graph.idsWith_push_helper hop rfl
  · exact Edit.idsWith_concat hop h

/-- The operands of the bidirectional node are helpers. -/
theorem idsWith_addBoth {fused : Nat} (h : (addBoth forward backward).apply g = (.ok fused, g')) :
    g'.idsWith op = if .lstmSequence = op then insert fused (g.idsWith op) else g.idsWith op := by
  obtain ⟨_, _, _, g₁, _, g₂, _, g₃, _, g₄, _, g₅, _, _, -, hh, hc, hw, hr, hb, -, -, -, rfl, rfl⟩ :=
    apply_addBoth_ok h
  have hoperands : g₅.idsWith op = g.idsWith op := by
    rw [idsWith_join hop hb, idsWith_join hop hr, idsWith_join hop hw, Edit.idsWith_concat hop hc,
      Edit.idsWith_concat hop hh]
  rw [Graph.idsWith_push, hoperands]
  rfl

theorem idsWith_joined {joint : Joint} {fused : Nat}
    (h : (joined joint name fused).apply g = (.ok w, g')) : g'.idsWith op = g.idsWith op := by
  cases joint with
  | direction => rw [(Prod.mk.inj h).2]
  | feature =>
    obtain ⟨t, g₁, ht, h⟩ := Edit.apply_bind_ok_iff.1 h
    rw [Edit.idsWith_reshape hop h, Edit.idsWith_transpose hop ht]

theorem idsWith_connectState {fused i : Nat}
    (h : (plan.connectState name fused i).apply g = (.ok (), g')) :
    g'.idsWith op = g.idsWith op := by
  obtain ⟨rfl, -, -⟩ | ⟨k, hsplit, rfl⟩ := apply_connectState_ok h
  · rfl
  · rw [Graph.idsWith_redirectAll, Edit.idsWith_split hop hsplit]

/-- The nodes that are taken out go, and the bidirectional node comes. -/
theorem idsWith_fuse (h : plan.fuse.apply g = (.ok true, g')) :
    ∃ fused, g.slots.length ≤ fused ∧ g'.idsWith op =
      (if .lstmSequence = op then insert fused (g.idsWith op) else g.idsWith op) \
        plan.replaced.toFinset := by
  obtain ⟨hdone, -⟩ | ⟨forward, backward, y, g₁, g₂, g₃, g₄, fused, -, -, -, hadd, hjoined, hfirst,
    hsecond, rfl⟩ := apply_fuse_ok h
  · exact absurd hdone (by simp)
  · have hconstant : op ≠ .constant := by
      rintro rfl
      exact absurd hop (by decide)
    refine ⟨fused, (grows_addBoth (fun _ _ => trivial) (fun _ _ => trivial) hadd).2.1, ?_⟩
    rw [Graph.idsWith_eliminateUnusedConstants _ _ hconstant, Graph.idsWith_eliminateAll,
      idsWith_connectState hop hsecond, idsWith_connectState hop hfirst, Graph.idsWith_redirect,
      idsWith_joined hop hjoined, idsWith_addBoth hop hadd]

end Steps

/-- Among the nodes that are taken out, the two directions are the sequence nodes. -/
theorem Involved.mem_idsWith_iff (hi : Involved g plan) {id : Nat} (hid : id ∈ plan.replaced) :
    id ∈ g.idsWith .lstmSequence ↔ id = plan.forward ∨ id = plan.backward := by
  constructor
  · rintro hlstm
    obtain ⟨n, hn, hnop⟩ := Graph.mem_idsWith.1 hlstm
    obtain rfl | hs | hdirection := mem_replaced.1 hid
    · obtain ⟨n', hn', hop⟩ := hi.concat
      obtain rfl := Option.some.inj (hn.symm.trans hn')
      exact absurd (hnop.symm.trans hop) (by decide)
    · obtain ⟨⟨n', hn', hop, -⟩, -⟩ := hi.squeeze hs
      obtain rfl := Option.some.inj (hn.symm.trans hn')
      exact absurd (hnop.symm.trans hop) (by decide)
    · exact hdirection
  · rintro (rfl | rfl)
    · exact Graph.mem_idsWith.2 (hi.forward.imp fun _ h => ⟨h.1, h.2.1⟩)
    · exact Graph.mem_idsWith.2 (hi.backward.imp fun _ h => ⟨h.1, h.2.1⟩)

/-- Two sequence nodes become one. -/
theorem card_idsWith_of_applied (hk : g.WellKept) {id : Nat} {nodes : List Nat}
    (h : (bidirectionalRule.attempt id).apply g = (.ok (.applied nodes), g')) :
    (g'.idsWith .lstmSequence).card + 1 = (g.idsWith .lstmSequence).card := by
  obtain ⟨plan, concat, forward, backward, a, b, -, hi, hal, -, hfuse⟩ := exists_plan_of_applied hk h
  have hhelper : Op.lstmSequence.isHelper = false := rfl
  obtain ⟨fused, hnew, hset⟩ := idsWith_fuse hhelper hfuse
  rw [if_pos rfl] at hset
  have hfused : fused ∉ g.idsWith .lstmSequence := fun hmem => by
    obtain ⟨n, hn, -⟩ := Graph.mem_idsWith.1 hmem
    exact Nat.not_lt.2 hnew (Graph.lt_length_of_live? hn)
  -- Of the old sequence nodes two are taken out, and the new one stays.
  have hgone : insert fused (g.idsWith .lstmSequence) ∩ plan.replaced.toFinset =
      {plan.forward, plan.backward} := by
    ext id
    rw [Finset.mem_inter, Finset.mem_insert, List.mem_toFinset, Finset.mem_insert,
      Finset.mem_singleton]
    constructor
    · rintro ⟨rfl | hmem, hid⟩
      · exact absurd (hi.lt_length hid) (Nat.not_lt.2 hnew)
      · exact (hi.mem_idsWith_iff hid).1 hmem
    · intro hdirection
      have hid : id ∈ plan.replaced := mem_replaced.2 (.inr (.inr hdirection))
      exact ⟨.inr ((hi.mem_idsWith_iff hid).2 hdirection), hid⟩
  have hsplit := Finset.card_sdiff_add_card_inter (insert fused (g.idsWith .lstmSequence))
    plan.replaced.toFinset
  rw [← hset, hgone, Finset.card_pair hal.distinct.2.2, Finset.card_insert_of_notMem hfused] at hsplit
  omega

end BidirectionalPlan

end Dataflow
