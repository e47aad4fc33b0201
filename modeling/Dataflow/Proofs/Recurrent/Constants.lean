import Dataflow.Proofs.Graph.UnusedConstants
import Dataflow.Proofs.Recurrent.BidirectionalFusion
import Dataflow.Proofs.Recurrent.LoopConversion

/-!
# No constant is left over by a rewrite

A loop and two directions read constants, which they share among themselves and with other nodes, and
what takes their place comes with constants of its own.  After a rewrite, no constant has lost its
last reader but is still there, and none that has a reader is gone.

## Main statements

* `LoopPlan.furnished_build`, `BidirectionalPlan.furnished_fuse` : all new constants are read.
* `tidied_attempt` : a rewrite leaves no constant over.
-/

namespace Dataflow

variable {β : Type}

open Dataflow.Graph (Furnished Tidied)

/-! ### Builders -/

namespace Graph.Furnished

variable {D : List Nat} {P : List Value} {g h k : Graph β} {v w : Value} {name : String}
  (hf : Furnished D P g h)
include hf

theorem pushWithInts {op : Op} (hop : op ≠ .constant) {suffix : String} {ints : List Int}
    {layout : Layout} : Furnished D P g (h.pushWithInts op name suffix v ints layout) :=
  hf.push_addConstant _ _ hop (List.mem_cons_of_mem _ List.mem_cons_self)

theorem unsqueeze {axis : Nat} (happly : (Edit.unsqueeze name v axis).apply h = (.ok w, k)) :
    Furnished D P g k := by
  obtain ⟨_, _, -, -, -, -, rfl⟩ := Edit.apply_unsqueeze_ok_iff.1 happly
  exact hf.pushWithInts (by decide)

theorem squeeze {axis : Nat} (happly : (Edit.squeeze name v axis).apply h = (.ok w, k)) :
    Furnished D P g k := by
  obtain ⟨_, _, -, -, -, -, rfl⟩ := Edit.apply_squeeze_ok_iff.1 happly
  exact hf.pushWithInts (by decide)

theorem transpose {order : List Nat} (happly : (Edit.transpose name v order).apply h = (.ok w, k)) :
    Furnished D P g k := by
  obtain ⟨_, _, -, -, -, -, rfl⟩ := Edit.apply_transpose_ok_iff.1 happly
  exact hf.pushWithInts (by decide)

theorem reshape {target : List Int} (happly : (Edit.reshape name v target).apply h = (.ok w, k)) :
    Furnished D P g k := by
  obtain ⟨_, _, -, -, -, -, rfl⟩ := Edit.apply_reshape_ok_iff.1 happly
  exact hf.pushWithInts (by decide)

theorem concat {values : List Value} {axis : Nat}
    (happly : (Edit.concat name values axis).apply h = (.ok w, k)) : Furnished D P g k := by
  obtain ⟨_, _, _, -, -, -, -, -, rfl⟩ := Edit.apply_concat_ok happly
  exact hf.push_of_ne nofun

theorem entry {suffix : String} {index : Int}
    (happly : (Edit.entry name suffix v index).apply h = (.ok w, k)) : Furnished D P g k := by
  obtain ⟨-, rfl⟩ := Edit.apply_entry_ok happly
  exact hf.push_addConstant _ _ nofun (List.mem_cons_of_mem _ List.mem_cons_self)

/-- The lengths of sequences may be a constant, which is pending then. -/
theorem sequenceLengths (happly : (Edit.sequenceLengths name v).apply h = (.ok w, k)) :
    Furnished D (w :: P) g k := by
  obtain ⟨l, -, ⟨_, _, -, -, rfl, rfl⟩ | ⟨_, _, _, _, _, -, -, htime, hcount, rfl, rfl⟩⟩ :=
    Edit.apply_sequenceLengths_ok happly
  · exact hf.addConstant _ _
  · have hshape : Furnished D P g (h.push (Edit.shapeSpec name v l.shape.rank)) :=
      hf.push_of_ne nofun
    have hboth := (hshape.entry htime).entry hcount
    exact (hboth.mono (List.subset_cons_self _ _)).push_of_ne nofun

end Graph.Furnished

/-! ### Loops -/

namespace LoopPlan

variable {g h k : Graph Body} {plan : LoopPlan} {D : List Nat} {P : List Value} {a : Assembly}
  {result : LoopResult} {transposed : Bool} {v w : Value}

theorem furnished_batchMajor (happly : plan.batchMajor.apply h = (.ok w, k))
    (hf : Furnished D P g h) : Furnished D P g k := by
  obtain ⟨-, htranspose⟩ | ⟨-, -, rfl⟩ := apply_batchMajor_ok happly
  · exact hf.transpose htranspose
  · exact hf

theorem Unsqueezed.furnished {vs ws : List Value} (hu : Unsqueezed h vs k ws)
    (hf : Furnished D P g h) : Furnished D P g k := by
  induction hu with
  | nil => exact hf
  | cons hv _ ih => exact ih (hf.unsqueeze hv)

/-- The sequence node reads all constants that have been added for it. -/
theorem Assembly.Ready.furnished (ha : a.Ready g plan) (hf : Furnished D [] g g) :
    Furnished D [] g ((a.weighted plan).push (a.spec plan)) := by
  have hstates := ha.unsqueezed.furnished (furnished_batchMajor ha.apply_x hf)
  have hw := (hstates.sequenceLengths ha.apply_lengths).addConstant (plan.part "W") a.w
  have hr := hw.addConstant (plan.part "R") a.r
  have hb := hr.addConstant (plan.part "B") a.b
  refine hb.push (fun hop => ?_) fun v hv => .inr ?_
  · cases hkind : plan.kind <;> simp [Assembly.spec, sequenceSpec, hkind, Cell.sequenceOp] at hop
  · simp only [Graph.length_slots_push, List.mem_cons, List.not_mem_nil, or_false] at hv
    rw [show (a.spec plan).inputs = a.x :: a.states ++ _ from rfl]
    obtain rfl | rfl | rfl | rfl := hv <;> simp

theorem furnished_redirected (hloop : plan.loop ∈ D) (hlt : plan.loop < g.slots.length) (w : Value)
    (outputs : List Nat) (hf : Furnished D P g h) :
    Furnished D P g (redirected plan.loop w outputs h) := by
  induction outputs generalizing h with
  | nil => exact hf
  | cons i rest ih => exact ih (hf.redirect (v := ⟨plan.loop, i⟩) hloop hlt w)

theorem Connected.furnished (hc : Connected plan result transposed v h k) (hloop : plan.loop ∈ D)
    (hlt : plan.loop < g.slots.length) (hf : Furnished D P g h) : Furnished D P g k := by
  by_cases hnil : plan.outputsOf result = []
  · rwa [hc.unused hnil]
  · obtain ⟨suffix, y, h₁, hpresent, rfl⟩ := hc.connected hnil
    refine furnished_redirected hloop hlt y _ ?_
    obtain ⟨z, h₂, hsqueeze, ⟨-, htranspose⟩ | ⟨-, -, rfl⟩⟩ := apply_present_ok hpresent
    · exact (hf.squeeze hsqueeze).transpose htranspose
    · exact hf.squeeze hsqueeze

/-- The replacement of a loop leaves no constant over. -/
theorem tidied_build {g' : Graph Body} {loop : Node Body} (hk : g.WellKept) (hb : g.BareConstants)
    (hloop : g.live? plan.loop = some loop) (hop : loop.op ≠ .constant)
    (hbuild : plan.build.apply g = (.ok true, g')) : Tidied g g' := by
  obtain ⟨a, g₁, g₂, g₃, hready, h₁, h₂, h₃, -, rfl⟩ := apply_build_ok hbuild
  have hlt := Graph.lt_length_of_live? hloop
  have hmem : plan.loop ∈ [plan.loop] := List.mem_singleton_self _
  have hf := hready.furnished (.refl [plan.loop] hk hb)
  have hf := h₃.furnished hmem hlt (h₂.furnished hmem hlt (h₁.furnished hmem hlt hf))
  refine hf.tidied hb hk (fun id hid => ?_) fun u v n _ hu hnode _ _ => ?_
  · obtain rfl := List.mem_singleton.1 hid
    exact ⟨loop, hloop, hop⟩
  · rw [← List.mem_singleton.1 hnode]
    exact hu.mem_inputs

end LoopPlan

/-! ### Two directions -/

namespace BidirectionalPlan

variable {g g' h k : Graph β} {plan : BidirectionalPlan} {forward backward concat : Node β}
  {D : List Nat} {P : List Value} {v w x a b : Value} {fused i : Nat} {name : String}

/-- Constants are joined to a constant, which is pending then. -/
theorem furnished_join {axis : Nat} (happly : (join name v w axis).apply h = (.ok x, k))
    (hf : Furnished D P g h) : Furnished D (x :: P) g k := by
  obtain ⟨_, _, t, -, -, -, rfl, rfl⟩ | ⟨-, happly⟩ := apply_join_ok happly
  · exact hf.addConstant name t
  · exact (hf.concat happly).mono (List.subset_cons_self _ _)

/-- The bidirectional node reads all constants that have been added for it. -/
theorem furnished_addBoth (hadd : (addBoth forward backward).apply h = (.ok fused, k))
    (hf : Furnished D [] g h) : Furnished D [] g k := by
  obtain ⟨vs, ws, h', g₁, c, g₂, w, g₃, r, g₄, b, g₅, y, state, -, hh, hc, hw, hr, hb, -, -, -, -,
    rfl⟩ := apply_addBoth_ok hadd
  have hweights := furnished_join hb (furnished_join hr (furnished_join hw ((hf.concat hh).concat hc)))
  refine hweights.push nofun fun v hv => .inr ?_
  simp only [List.mem_cons, List.not_mem_nil, or_false] at hv
  obtain rfl | rfl | rfl := hv <;> simp [spec]

theorem furnished_joined {joint : Joint} (hjoin : (joined joint name fused).apply h = (.ok w, k))
    (hf : Furnished D P g h) : Furnished D P g k := by
  cases joint with
  | direction =>
    simp only [joined, Edit.apply_pure, Prod.mk.injEq, Except.ok.injEq] at hjoin
    exact hjoin.2 ▸ hf
  | feature =>
    obtain ⟨t, h₁, htranspose, hreshape⟩ := Edit.apply_bind_ok_iff.1 hjoin
    exact (hf.transpose htranspose).reshape hreshape

theorem furnished_connectState
    (hc : (plan.connectState name fused i).apply h = (.ok (), k))
    (hD : ∀ id ∈ plan.replaced, id ∈ D ∧ id < g.slots.length) (hf : Furnished D P g h) :
    Furnished D P g k := by
  obtain ⟨rfl, -, -⟩ | ⟨h₁, hsplit, rfl⟩ := apply_connectState_ok hc
  · exact hf
  · obtain ⟨_, layout, -, -, -, -, rfl⟩ := Edit.apply_split_ok hsplit
    have hsplit : Furnished D P g (h.push
        (Edit.splitSpec (name ++ "/split_" ++ Nat.repr i) ⟨fused, i⟩ 1 2 layout)) :=
      hf.push_of_ne nofun
    obtain ⟨hforward, hlt⟩ := hD plan.forward (mem_replaced.2 (.inr (.inr (.inl rfl))))
    obtain ⟨hbackward, hlt'⟩ := hD plan.backward (mem_replaced.2 (.inr (.inr (.inr rfl))))
    have hfirst := hsplit.redirect (v := ⟨plan.forward, i⟩) hforward hlt ⟨h.slots.length, 0⟩
    exact hfirst.redirect (v := ⟨plan.backward, i⟩) hbackward hlt' ⟨h.slots.length, 1⟩

/-- The replacement of two directions leaves no constant over. -/
theorem Aligned.tidied_fuse (hal : Aligned g plan concat forward backward a b) (hk : g.WellKept)
    (hb : g.BareConstants) (hfuse : plan.fuse.apply g = (.ok true, g')) : Tidied g g' := by
  obtain ⟨hfalse, -⟩ | ⟨forward', backward', y, g₁, g₂, g₃, g₄, fused, -, hforward, hbackward, hadd,
    hjoin, hfirst, hsecond, rfl⟩ := apply_fuse_ok hfuse
  · simp at hfalse
  obtain rfl := Option.some.inj ((Graph.node?_of_live? hal.forward_node).symm.trans hforward)
  obtain rfl := Option.some.inj ((Graph.node?_of_live? hal.backward_node).symm.trans hbackward)
  have hD : ∀ id ∈ plan.replaced, id ∈ plan.replaced ∧ id < g.slots.length := fun id hid => by
    obtain ⟨n, hn, -⟩ := hal.exists_live hid
    exact ⟨hid, Graph.lt_length_of_live? hn⟩
  have hconcat : plan.concat ∈ plan.replaced := mem_replaced.2 (.inl rfl)
  have hf := furnished_joined hjoin (furnished_addBoth hadd (.refl plan.replaced hk hb))
  have hf := hf.redirect (v := ⟨plan.concat, 0⟩) hconcat (hD _ hconcat).2 y
  have hf := furnished_connectState hsecond hD (furnished_connectState hfirst hD hf)
  refine hf.tidied hb hk (fun id hid => hal.exists_live hid) fun u v n hu hlater hmem hn hop => ?_
  obtain ⟨m, hm, hv⟩ := hu
  have hv := List.mem_of_getElem? hv
  rw [List.mem_append, List.mem_append, List.mem_flatMap]
  obtain hnode | hs | hnode | hnode := mem_replaced.1 hmem
  · -- The concatenation reads no constant.
    rw [hnode] at hm
    obtain rfl := Option.some.inj (hal.concat_node.symm.trans hm)
    obtain ⟨n', hn', hne⟩ := hal.exists_live (hal.node_mem_replaced hv)
    exact absurd (Option.some.inj (hn.symm.trans hn') ▸ hop) hne
  · exact .inr ⟨u.node, hs, hlater.mem_inputs⟩
  · rw [hnode] at hm
    obtain rfl := Option.some.inj (hal.forward_node.symm.trans hm)
    exact .inl (.inl hv)
  · rw [hnode] at hm
    obtain rfl := Option.some.inj (hal.backward_node.symm.trans hm)
    exact .inl (.inr hv)

end BidirectionalPlan

/-! ### The rules -/

open LoopPlan (conversions constantLoop)

/-- **A rewrite leaves no constant over.**  Where a loop or two directions have been replaced in a
graph whose constants read nothing, a constant that nothing reads was there before, and nothing has
read it then either; and a constant that is still read, or that is an output, is still there. -/
theorem tidied_attempt {g g' : Graph Body} {rule : Rule Body} {id : Nat} {nodes : List Nat}
    (hrule : rule ∈ bidirectionalRule :: conversions) (hk : g.WellKept)
    (hb : g.BareConstants) (h : (rule.attempt id).apply g = (.ok (.applied nodes), g')) :
    Tidied g g' := by
  obtain rfl | hrule := List.mem_cons.1 hrule
  · obtain ⟨_, _, _, _, _, _, -, -, hal, -, hfuse⟩ := BidirectionalPlan.exists_plan_of_applied hk h
    exact hal.tidied_fuse hk hb hfuse
  · obtain ⟨plan, loop, _, _, _, rfl, -, hloop, hop, hbuild⟩ :=
      LoopPlan.exists_plan_of_applied hrule h
    refine LoopPlan.tidied_build hk hb hloop ?_ hbuild
    obtain hop | ⟨hop, -⟩ := hop <;> rw [hop] <;> decide

/-- The initial state is read by what has taken the place of the iterator, and the weights, which have
got another axis, are not. -/
theorem tidied_attempt_constantLoop :
    ∃ g', (constantLoop.WellKept ∧ constantLoop.NoDangling ∧ constantLoop.BareConstants) ∧
      iteratorRule .rnn ∈ bidirectionalRule :: conversions ∧
      ((iteratorRule .rnn).attempt 3).apply constantLoop = (.ok (.applied [3]), g') ∧
      (g'.live? 1).isSome = true ∧ (g'.live? 2).isSome = false ∧ Tidied constantLoop g' := by
  obtain ⟨hk, -, hd⟩ : constantLoop.WellKept ∧ constantLoop.Acyclic ∧ constantLoop.NoDangling :=
    Graph.ofSpecs_sound _ _ (by decide +kernel) (by decide +kernel)
  have hb : constantLoop.BareConstants := by
    decide +kernel
  have hrule : iteratorRule .rnn ∈ bidirectionalRule :: conversions := by
    simp [conversions]
  obtain ⟨g', happly, hstate, hweights⟩ : ∃ g',
      ((iteratorRule .rnn).attempt 3).apply constantLoop = (.ok (.applied [3]), g') ∧
        (g'.live? 1).isSome = true ∧ (g'.live? 2).isSome = false := by
    have happlied : (((iteratorRule .rnn).attempt 3).apply constantLoop).1 =
        .ok (.applied [3]) := by
      decide +kernel
    refine ⟨(((iteratorRule .rnn).attempt 3).apply constantLoop).2, ?_, by decide +kernel,
      by decide +kernel⟩
    rw [← happlied]
  exact ⟨g', ⟨hk, hd, hb⟩, hrule, happly, hstate, hweights, tidied_attempt hrule hk hb happly⟩

end Dataflow
