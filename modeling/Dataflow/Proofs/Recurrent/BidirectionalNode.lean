import Dataflow.Proofs.Recurrent.BidirectionalFusion
import Dataflow.Proofs.Recurrent.TwoDirections
import Dataflow.Proofs.Runtime.PairBuilders

/-!
# What the bidirectional node computes

The operands of the two directions are laid end to end, whether they are constants or not, so the
bidirectional node reads them side by side.  Its results are those of the two directions side by side,
and put together they are what the concatenation has computed.

## Main statements

* `BidirectionalPlan.Stands.computes_concat`, `BidirectionalPlan.Stands.computes_join` : an operand of
  the new node.
* `BidirectionalPlan.Runs.computes_addBoth` : its results.
* `BidirectionalPlan.computes_joined` : what is read in the place of the concatenation.
-/

namespace Dataflow

/-- What a builder has left behind has the same later stages as what it has found. -/
theorem Edit.Built.substituted {g g' h : Graph Body} {S : Value → Prop} {w : Value}
    {old : Nat → Prop} {σ : Value → Value} (hB : Edit.Built S g g' w) (hk : g.Listed)
    (hs : g'.Substituted old σ h) : g.Substituted old σ h :=
  (Graph.Substituted.of_grows hk old hB.grows).trans hs

namespace BidirectionalPlan

variable {g g' h : Graph Body} {I : Interpretation} {ρ : Environment} {plan : BidirectionalPlan}
  {concat forward backward : Node Body} {a b v v' w : Value} {x l t u y y' : Grid}
  {o o' : LstmOperands} {rs rs' : List Grid} {old : Nat → Prop} {σ : Value → Value} {name : String}
  {i fused : Nat}

/-- Two operands with a first axis of length one are joined, constants at once. -/
theorem computes_join (hk : g.Listed) (hs : g'.Substituted old σ h)
    (hid : ∀ i, old i → i < g.slots.length) (hI : I.Concats)
    (hv : ¬ old v.node ∧ g.hasValue v = true) (hv' : ¬ old v'.node ∧ g.hasValue v' = true)
    (happly : (join name v v' 0).apply g = (.ok w, g')) (hrank : t.shape.length + 1 < 2 ^ 63)
    (hu : u.shape = t.shape) (ht : h.Computes I ρ v (t.insertAxis 0))
    (ht' : h.Computes I ρ v' (u.insertAxis 0)) : h.Computes I ρ w (.pair 0 t u) := by
  obtain ⟨c, c', d, hc, hc', hd, rfl, rfl⟩ | ⟨-, happly⟩ := apply_join_ok happly
  · have hg := Graph.Substituted.of_pushed hk hs
    have hgrid : d.grid = .pair 0 t u := by
      refine Tensor.grid_concat_pair hd (ht.eq_grid ?_).symm (ht'.eq_grid ?_).symm hu
      · rw [hg.constant?_eq hv.1 hv.2, hc]
      · rw [hg.constant?_eq hv'.1 hv'.2, hc']
    have hshape : d.shape = 2 :: t.shape := congrArg Grid.shape hgrid
    rw [← hgrid]
    refine hs.computes_constant hid fun n hn => ?_
    rw [hshape, List.mem_cons] at hn
    obtain rfl | hn := hn
    · decide
    · exact ht.lt_of_mem (List.mem_cons_of_mem 1 hn)
  · exact Edit.computes_concat hk hs hid hv.1 hv'.1 hI happly (Nat.zero_le _) hrank hu ht ht'

/-- A layout of a result of one direction, with both directions in it. -/
theorem admits_bothDirections {layout : Layout} {shape : List Nat} (hrank : 1 ≤ shape.length)
    (ht : layout.admits t = true) (hshape : t.shape = shape.insertIdx 1 1)
    (hu : u.shape = shape.insertIdx 1 2) : (bothDirections layout).admits u = true :=
  Layout.admits_setDim hrank hshape hu ht (by decide) _

theorem layout?_of_grows {S : Value → Prop} (hk : g.Listed) (hg : g.Grows S g') {n : Node Body}
    (hn : g.live? v.node = some n) : g'.layout? v = g.layout? v :=
  (Graph.Substituted.of_grows hk (fun _ => False) hg).layout?_eq not_false hn

/-- The declared layouts of the bidirectional node are true of the results of both directions. -/
theorem Runs.exists_layout (hr : Runs g I ρ plan forward backward x l o o' rs rs')
    (hal : Aligned g plan concat forward backward a b) (hk : g.Listed) {ly lstate : Layout}
    (hly : g.layout? (forward.output 0) = some ly)
    (hlstate : g.layout? (forward.output 1) = some lstate) (inputs : List Value) (hi : i < 3)
    (hy : rs[i]? = some y) (y' : Grid) :
    ∃ layout, (spec forward inputs ly lstate).outputs[i]? = some layout ∧
      layout.admits (.pair 1 y y') = true := by
  obtain ⟨batch, time, width, hidden, -, -, -, -, -, hrs, -⟩ := hr.lengths
  have hshape : ∀ (j : Nat) (r : Grid), rs[j]? = some r →
      (resultLengths batch time hidden)[j]? = some r.shape :=
    fun j r hj => by rw [← hrs, List.getElem?_map, hj, Option.map_some]
  -- Both states have the layout that is declared for the first one.
  obtain ⟨j, layout, r, hj, hout, hlayout, hget, hsame⟩ : ∃ j layout r, j < 3 ∧
      (spec forward inputs ly lstate).outputs[i]? = some (bothDirections layout) ∧
        g.layout? (forward.output j) = some layout ∧ rs[j]? = some r ∧ r.shape = y.shape := by
    match i, hi with
    | 0, _ => exact ⟨0, ly, y, by decide, rfl, hly, hy, rfl⟩
    | 1, _ => exact ⟨1, lstate, y, by decide, rfl, hlstate, hy, rfl⟩
    | 2, _ =>
      obtain ⟨r, _, hget, -⟩ := hr.exists_results (i := 1) (by decide)
      have h := hshape 1 r hget
      have h' := hshape 2 y hy
      exact ⟨1, lstate, r, by decide, rfl, hlstate, hget, Option.some.inj (h.symm.trans h')⟩
  have hcomp : g.Computes I ρ (forward.output j) (r.insertAxis 1) := by
    rw [Node.output, hk.numbered.live hal.forward_node]
    exact (hr.results j hj _).2 (by rw [List.getElem?_map, hget, Option.map_some])
  refine ⟨_, hout, admits_bothDirections ?_ (hcomp.admits hlayout)
    (Grid.shape_insertAxis r 1) ?_⟩
  · have h := List.mem_of_getElem? (hshape j r hget)
    simp only [resultLengths, List.mem_cons, List.not_mem_nil, or_false] at h
    obtain h | h | h := h <;> simp [h]
  · rw [Grid.shape_pair, hsame]

/-- A value that is there at the first stage stays, and has its tensor at the last one. -/
structure Stands (g h : Graph Body) (I : Interpretation) (ρ : Environment) (old : Nat → Prop)
    (v : Value) (t : Grid) : Prop where
  not_old : ¬ old v.node
  hasValue : g.hasValue v = true
  computes : h.Computes I ρ v t

theorem stands_operand {n : Node Body} {operands : List Grid} {k : Nat}
    (hoperands : List.Forall₂ (g.Computes I ρ) n.inputs operands)
    (hfree : ∀ v ∈ n.inputs, ¬ old v.node)
    (hkeep : ∀ v ∈ n.inputs, ∀ t, g.Computes I ρ v t → h.Computes I ρ v t)
    (hv : n.inputs[k]? = some v) (ht : operands[k]? = some t) : Stands g h I ρ old v t := by
  obtain ⟨s, hs, hcomp⟩ := exists_of_forall₂_left hoperands hv
  obtain rfl := Option.some.inj (hs.symm.trans ht)
  have hmem := List.mem_of_getElem? hv
  exact ⟨hfree v hmem, hcomp.hasValue, hkeep v hmem s hcomp⟩

section Stands

variable {k k' : Graph Body} (hk : g.Listed) (hid : ∀ i, old i → i < g.slots.length)
  (hI : I.Concats) (hgrows : g.Grows (fun _ => True) k) (hs : k'.Substituted old σ h)
include hk hid hI hgrows hs

/-- At a later stage, two values are laid end to end. -/
theorem Stands.computes_concat (hv : Stands g h I ρ old v (t.insertAxis 1))
    (hv' : Stands g h I ρ old v' (u.insertAxis 1))
    (happly : (Edit.concat name [v, v'] 1).apply k = (.ok w, k')) (haxis : 1 ≤ t.shape.length)
    (hrank : t.shape.length + 1 < 2 ^ 63) (hu : u.shape = t.shape) :
    ¬ old w.node ∧ h.Computes I ρ w (.pair 1 t u) := by
  have hbuilt : Edit.Built (fun _ => True) k k' w := .concat happly fun _ _ => trivial
  have hlt := Graph.lt_of_old hid hgrows.length_le
  exact ⟨Graph.not_old_of_le hlt hbuilt.new, Edit.computes_concat (hgrows.listed hk) hs hlt hv.not_old
    hv'.not_old hI happly haxis hrank hu hv.computes hv'.computes⟩

/-- At a later stage, two values are joined. -/
theorem Stands.computes_join (hv : Stands g h I ρ old v (t.insertAxis 0))
    (hv' : Stands g h I ρ old v' (u.insertAxis 0))
    (happly : (join name v v' 0).apply k = (.ok w, k')) (hrank : t.shape.length + 1 < 2 ^ 63)
    (hu : u.shape = t.shape) : ¬ old w.node ∧ h.Computes I ρ w (.pair 0 t u) := by
  have hbuilt : Edit.Built (fun _ => True) k k' w := built_join happly trivial trivial
  have hlt := Graph.lt_of_old hid hgrows.length_le
  exact ⟨Graph.not_old_of_le hlt hbuilt.new, BidirectionalPlan.computes_join (hgrows.listed hk) hs hlt
    hI ⟨hv.not_old, hgrows.hasValue hv.hasValue⟩ ⟨hv'.not_old, hgrows.hasValue hv'.hasValue⟩ happly
    hrank hu hv.computes hv'.computes⟩

end Stands

/-- The operands of the bidirectional node are those of the two directions side by side. -/
theorem Runs.computes_operands (hr : Runs g I ρ plan forward backward x l o o' rs rs')
    (hal : Aligned g plan concat forward backward a b) (hI : I.Concats) (hk : g.Listed)
    (happly : (addBoth forward backward).apply g = (.ok fused, g')) (hs : g'.Substituted old σ h)
    (hid : ∀ i, old i → i < g.slots.length)
    (hfree : ∀ v ∈ forward.inputs ++ backward.inputs, ¬ old v.node)
    (hkeep : ∀ v ∈ forward.inputs ++ backward.inputs, ∀ t, g.Computes I ρ v t → h.Computes I ρ v t) :
    ∃ (k : Graph Body) (inputs : List Value) (ly lstate : Layout),
      g.slots.length ≤ k.slots.length ∧ fused = k.slots.length ∧
      g' = k.push (spec forward inputs ly lstate) ∧ g.layout? (forward.output 0) = some ly ∧
      g.layout? (forward.output 1) = some lstate ∧ (∀ v ∈ inputs, ¬ old v.node) ∧
      List.Forall₂ (h.Computes I ρ) inputs
        [x, (o.pair o').h, (o.pair o').c, l, (o.pair o').w, (o.pair o').r, (o.pair o').b] := by
  obtain ⟨vs, ws, vh, g₁, vc, g₂, vw, g₃, vr, g₄, vb, g₅, ly, lstate, hin, hh, hc, hw, hr', hb, hly,
    hlstate, -, rfl, rfl⟩ := apply_addBoth_ok happly
  obtain ⟨batch, time, width, hidden, -, -, -, ho, ho', -⟩ := hr.lengths
  have hfirst := fun k (hk : k < 7) t => stands_operand (t := t) hr.operands
    (fun v hv => hfree v (List.mem_append_left _ hv))
    (fun v hv => hkeep v (List.mem_append_left _ hv)) (hin k hk).1
  have hsecond := fun k (hk : k < 7) t => stands_operand (t := t) hr.operands'
    (fun v hv => hfree v (List.mem_append_right _ hv))
    (fun v hv => hkeep v (List.mem_append_right _ hv)) (hin k hk).2
  -- The stages of the graph, one for each operand.
  have B1 : Edit.Built (fun _ => True) g g₁ vh := .concat hh fun _ _ => trivial
  have B2 : Edit.Built (fun _ => True) g₁ g₂ vc := .concat hc fun _ _ => trivial
  have B3 : Edit.Built (fun _ => True) g₂ g₃ vw := built_join hw trivial trivial
  have B4 : Edit.Built (fun _ => True) g₃ g₄ vr := built_join hr' trivial trivial
  have B5 : Edit.Built (fun _ => True) g₄ g₅ vb := built_join hb trivial trivial
  have G2 := B1.grows.trans B2.grows
  have G3 := G2.trans B3.grows
  have G4 := G3.trans B4.grows
  have G5 := G4.trans B5.grows
  have hs₅ := Graph.Substituted.of_pushed (G5.listed hk) hs
  have hs₄ := B5.substituted (G4.listed hk) hs₅
  have hs₃ := B4.substituted (G3.listed hk) hs₄
  have hs₂ := B3.substituted (G2.listed hk) hs₃
  have hs₁ := B2.substituted (B1.grows.listed hk) hs₂
  have hx := hfirst 0 (by decide) x rfl
  have hl := hfirst 3 (by decide) l rfl
  have hch := Stands.computes_concat hk hid hI .refl hs₁ (hfirst 1 (by decide) _ rfl)
    (hsecond 1 (by decide) _ rfl) hh (by simp [ho.h]) (by simp [ho.h]) (ho'.h.trans ho.h.symm)
  have hcc := Stands.computes_concat hk hid hI B1.grows hs₂ (hfirst 2 (by decide) _ rfl)
    (hsecond 2 (by decide) _ rfl) hc (by simp [ho.c]) (by simp [ho.c]) (ho'.c.trans ho.c.symm)
  have hcw := Stands.computes_join hk hid hI G2 hs₃ (hfirst 4 (by decide) _ rfl)
    (hsecond 4 (by decide) _ rfl) hw (by simp [ho.w]) (ho'.w.trans ho.w.symm)
  have hcr := Stands.computes_join hk hid hI G3 hs₄ (hfirst 5 (by decide) _ rfl)
    (hsecond 5 (by decide) _ rfl) hr' (by simp [ho.r]) (ho'.r.trans ho.r.symm)
  have hcb := Stands.computes_join hk hid hI G4 hs₅ (hfirst 6 (by decide) _ rfl)
    (hsecond 6 (by decide) _ rfl) hb (by simp [ho.b]) (ho'.b.trans ho.b.symm)
  have hlive := hal.forward_node
  rw [← hk.numbered.live hlive] at hlive
  refine ⟨g₅, _, ly, lstate, G5.length_le, rfl, rfl,
    (layout?_of_grows hk G5 (v := forward.output 0) hlive).symm.trans hly,
    (layout?_of_grows hk G5 (v := forward.output 1) hlive).symm.trans hlstate, ?_,
    .cons hx.computes (.cons hch.2 (.cons hcc.2 (.cons hl.computes
      (.cons hcw.2 (.cons hcr.2 (.cons hcb.2 .nil))))))⟩
  simp only [List.mem_cons, List.not_mem_nil, or_false, forall_eq_or_imp, forall_eq]
  exact ⟨hx.not_old, hch.1, hcc.1, hl.not_old, hcw.1, hcr.1, hcb.1⟩

/-- The bidirectional node has the results of both directions. -/
theorem Runs.computes_addBoth (hr : Runs g I ρ plan forward backward x l o o' rs rs')
    (hal : Aligned g plan concat forward backward a b) (hI : I.Concats) (hk : g.Listed)
    (happly : (addBoth forward backward).apply g = (.ok fused, g')) (hs : g'.Substituted old σ h)
    (hid : ∀ i, old i → i < g.slots.length)
    (hfree : ∀ v ∈ forward.inputs ++ backward.inputs, ¬ old v.node)
    (hkeep : ∀ v ∈ forward.inputs ++ backward.inputs, ∀ t, g.Computes I ρ v t → h.Computes I ρ v t)
    (hi : i < 3) (hy : rs[i]? = some y) (hy' : rs'[i]? = some y') :
    h.Computes I ρ ⟨fused, i⟩ (.pair 1 y y') := by
  obtain ⟨k, inputs, ly, lstate, hle, rfl, rfl, hly, hlstate, hnew, hoperands⟩ :=
    hr.computes_operands hal hI hk happly hs hid hfree hkeep
  obtain ⟨layout, hout, hadmits⟩ := hr.exists_layout hal hk hly hlstate inputs hi hy y'
  exact hs.computes_pushed (Graph.lt_of_old hid hle) rfl hnew hoperands hr.both hout hadmits
    (getElem?_both hy hy')

/-- What is read in the place of the concatenation. -/
theorem computes_joined {joint : Joint} {m n width : Nat} (hk : g.Listed)
    (hs : g'.Substituted old σ h) (hid : ∀ i, old i → i < g.slots.length) (hfused : ¬ old fused)
    (htranspose : I.Transposes) (hreshape : I.Reshapes)
    (happly : (joined joint name fused).apply g = (.ok w, g')) (hshape : y.shape = [m, n, width])
    (hm : m ≠ 0) (hn : n ≠ 0) (hy' : y'.shape = y.shape) (hputs : Puts joint y y' t)
    (hlt : ∀ n ∈ t.shape, n < 2 ^ 63) (hcount : numel t.shape < 2 ^ 64)
    (ht : h.Computes I ρ ⟨fused, 0⟩ (.pair 1 y y')) : h.Computes I ρ w t := by
  cases joint with
  | direction =>
    simp only [joined, Edit.apply_pure, Prod.mk.injEq, Except.ok.injEq] at happly
    obtain ⟨rfl, rfl⟩ := happly
    obtain rfl : t = .pair 1 y y' := hputs
    exact ht
  | feature =>
    simp only [joined, Edit.apply_bind_ok_iff] at happly
    obtain ⟨v, g₁, hv, hw⟩ := happly
    have B1 : Edit.Built (fun _ => True) g g₁ v := .transpose hv trivial fun _ _ => trivial
    have B2 : Edit.Built (fun _ => True) g₁ g' w := .reshape hw trivial fun _ _ => trivial
    have hk₁ := B1.grows.listed hk
    have hid₁ := Graph.lt_of_old hid B1.grows.length_le
    have hmoved := Edit.computes_transpose hk (B2.substituted hk₁ hs) hid hfused htranspose hv
      (by decide) ht (Grid.permute?_pair hshape)
    have hlast : 2 * width ∈ t.shape := by
      rw [(Grid.shape_of_concat? hputs).2]
      simp [Grid.lengthAt, hy', hshape, Nat.two_mul]
    exact Edit.computes_reshape_lastTwo hk₁ hs hid₁ (Graph.not_old_of_le hid B1.new) hreshape hw
      hshape hy' hm hn (hlt _ hlast) hcount hmoved hputs

end BidirectionalPlan

end Dataflow
