import Dataflow.Proofs.Recurrent.BidirectionalPlan
import Dataflow.Proofs.Recurrent.Directions
import Dataflow.Proofs.Runtime.BothDirections
import Dataflow.Proofs.Runtime.Layouts

/-!
# What two directions compute

Two sequence nodes over the same sequence and lengths run in opposite directions.  One run in both
directions, over their operands side by side, has their results side by side.  The concatenation of
their results is what comes of that, with the directions on an axis of their own or on the last one.

## Main definitions

* `DependsOnlyOn` : a function of some of the attributes.
* `Identifies` : a function for which attributes of equal numbers are one.
* `Graph.RunsOneWay` : the node of a single direction, and the lengths of its operands.
* `BidirectionalPlan.Runs` : the tensors of two directions, and the run in both.
* `BidirectionalPlan.Puts` : how the concatenation puts the results together.

## Main statements

* `BidirectionalPlan.Aligned.exists_runs` : two directions can be run as one.
* `BidirectionalPlan.Runs.puts` : what the concatenation computes.
-/

namespace Dataflow

/-- The function depends on the attributes with the given names only. -/
def DependsOnlyOn {α : Type} (names : List String) (f : (String → Option Attribute) → α) : Prop :=
  ∀ a a' : String → Option Attribute, (∀ name ∈ names, a name = a' name) → f a = f a'

/-- The function does not tell the attributes with the given names apart if they are equal as numbers.
They may differ in the sign of a zero, which is how attributes of two nodes are compared. -/
def Identifies {α : Type} (names : List String) (f : (String → Option Attribute) → α)
    (a a' : String → Option Attribute) : Prop :=
  (∀ name ∈ names, Attribute.sameOption (a name) (a' name) = true) → f a = f a'

namespace Graph

variable {g : Graph Body} {I : Interpretation} {ρ : Environment} {id : Nat} {n : Node Body}
  {F : StepFunction} {size : (String → Option Attribute) → Nat} {x h c l w r b : Value}

/-- The results of the node have tensors of which its declared layouts are true.  What it reads for
a direction of its own has length one on the axis for the directions, and its sequence is not
empty. -/
structure RunsOneWay (g : Graph Body) (I : Interpretation) (ρ : Environment) (id : Nat)
    (n : Node Body) : Prop where
  results : ∀ i < n.outputs.length, ∃ t, g.Computes I ρ ⟨id, i⟩ t
  sequence : ∀ v t, n.inputs[0]? = some v → g.Computes I ρ v t → 0 ∉ t.shape
  states : ∀ i v t, i = 1 ∨ i = 2 → n.inputs[i]? = some v → g.Computes I ρ v t →
    t.shape[1]? = some 1
  weights : ∀ i v t, i = 4 ∨ i = 5 ∨ i = 6 → n.inputs[i]? = some v → g.Computes I ρ v t →
    t.shape[0]? = some 1

/-- The run of the node.  What it computes are the results of this run. -/
theorem RunsOneWay.exists_lstm? (hone : g.RunsOneWay I ρ id n) (hI : I.RunsLstm F size)
    (hn : g.live? id = some n) (hop : n.op = .lstmSequence) (hpos : 0 < n.outputs.length)
    (hin : n.inputs = [x, h, c, l, w, r, b]) :
    ∃ (tx tl : Grid) (o : LstmOperands) (outs : List Grid),
      List.Forall₂ (g.Computes I ρ) n.inputs
        [tx, o.single.h, o.single.c, tl, o.single.w, o.single.r, o.single.b] ∧
      F.lstm? size n.attributes tx o.single tl = some outs ∧ 0 ∉ tx.shape ∧
        ∀ i < n.outputs.length, ∀ t, g.Computes I ρ ⟨id, i⟩ t ↔ outs[i]? = some t := by
  have hordinary : n.op.isOrdinary = true := by
    rw [hop]
    rfl
  obtain ⟨t, ht⟩ := hone.results 0 hpos
  obtain ⟨_, operands, outs, -, -, hoperands, houts, -⟩ :=
    (computes_iff_of_ordinary (v := ⟨id, 0⟩) hn hordinary).1 ht
  have hall := hoperands
  rw [hin] at hoperands
  simp only [List.forall₂_cons_left_iff, List.forall₂_nil_left_iff] at hoperands
  obtain ⟨tx, _, hx, ⟨th, _, hh, ⟨tc, _, hc, ⟨tl, _, hl, ⟨tw, _, hw, ⟨tr, _, hr, ⟨tb, _, hb, rfl,
    rfl⟩, rfl⟩, rfl⟩, rfl⟩, rfl⟩, rfl⟩, rfl⟩ := hoperands
  obtain ⟨sh, rfl, -, -⟩ := Grid.exists_eq_insertAxis
    (hone.states 1 h th (.inl rfl) (by rw [hin]; rfl) hh)
  obtain ⟨sc, rfl, -, -⟩ := Grid.exists_eq_insertAxis
    (hone.states 2 c tc (.inr rfl) (by rw [hin]; rfl) hc)
  obtain ⟨sw, rfl, -, -⟩ := Grid.exists_eq_insertAxis
    (hone.weights 4 w tw (.inl rfl) (by rw [hin]; rfl) hw)
  obtain ⟨sr, rfl, -, -⟩ := Grid.exists_eq_insertAxis
    (hone.weights 5 r tr (.inr (.inl rfl)) (by rw [hin]; rfl) hr)
  obtain ⟨sb, rfl, -, -⟩ := Grid.exists_eq_insertAxis
    (hone.weights 6 b tb (.inr (.inr rfl)) (by rw [hin]; rfl) hb)
  have hresult : ∀ i u, g.Computes I ρ ⟨id, i⟩ u → outs[i]? = some u := by
    intro i u hu
    obtain ⟨_, operands, outs', -, -, hoperands, houts', hu⟩ :=
      (computes_iff_of_ordinary (v := ⟨id, i⟩) hn hordinary).1 hu
    have hsame := List.right_unique_forall₂' (R := g.Computes I ρ) (fun _ _ _ => Computes.unique) hall
      hoperands
    subst hsame
    rwa [Option.some.inj (houts.symm.trans houts')]
  refine ⟨tx, tl, ⟨sh, sc, sw, sr, sb⟩, outs, hall, ?_,
    hone.sequence x tx (by rw [hin]; rfl) hx, fun i hi u => ⟨hresult i u, fun hu => ?_⟩⟩
  · rw [← houts, hop, hI]
    rfl
  · obtain ⟨s, hs⟩ := hone.results i hi
    rwa [Option.some.inj (hu.symm.trans (hresult i s hs))]

end Graph

namespace BidirectionalPlan

variable {g : Graph Body} {I : Interpretation} {ρ : Environment} {F : StepFunction}
  {size : (String → Option Attribute) → Nat} {plan : BidirectionalPlan}
  {concat forward backward : Node Body} {a b : Value} {x l t y y' : Grid}
  {o o' : LstmOperands} {rs rs' : List Grid} {α : Type}

/-- The lengths of the results of one direction: those of the hidden states of all positions, and
of the two last states. -/
def resultLengths (batch time hidden : Nat) : List (List Nat) :=
  [[batch, time, hidden], [batch, hidden], [batch, hidden]]

/-- The tensors that two directions read and compute, each without the axis for the directions, and
the run in both directions that has the results of both. -/
structure Runs (g : Graph Body) (I : Interpretation) (ρ : Environment) (plan : BidirectionalPlan)
    (forward backward : Node Body) (x l : Grid) (o o' : LstmOperands) (rs rs' : List Grid) :
    Prop where
  operands : List.Forall₂ (g.Computes I ρ) forward.inputs
    [x, o.single.h, o.single.c, l, o.single.w, o.single.r, o.single.b]
  operands' : List.Forall₂ (g.Computes I ρ) backward.inputs
    [x, o'.single.h, o'.single.c, l, o'.single.w, o'.single.r, o'.single.b]
  results : ∀ i < 3, ∀ t, g.Computes I ρ ⟨plan.forward, i⟩ t ↔
    (rs.map (·.insertAxis 1))[i]? = some t
  results' : ∀ i < 3, ∀ t, g.Computes I ρ ⟨plan.backward, i⟩ t ↔
    (rs'.map (·.insertAxis 1))[i]? = some t
  lengths : ∃ batch time width hidden, x.shape = [batch, time, width] ∧ batch ≠ 0 ∧ time ≠ 0 ∧
    o.Lengths batch width hidden ∧ o'.Lengths batch width hidden ∧
      rs.map Grid.shape = resultLengths batch time hidden ∧
        rs'.map Grid.shape = resultLengths batch time hidden
  both : I .lstmSequence (forward.attributes.withDirection "bidirectional")
    [x, (o.pair o').h, (o.pair o').c, l, (o.pair o').w, (o.pair o').r, (o.pair o').b] =
      some (List.zipWith (.pair 1) rs rs')

/-- What depends on the shared attributes, without regard to the signs of zeros, is the same for both
directions, and for a node that runs in both. -/
theorem Aligned.shared_eq (hal : Aligned g plan concat forward backward a b)
    {f : (String → Option Attribute) → α} (hf : DependsOnlyOn sharedAttributes f)
    (hzero : Identifies sharedAttributes f forward.attributes.get? backward.attributes.get?) :
    f (forward.attributes.withDirection "bidirectional").get? = f forward.attributes.get? ∧
      f (forward.attributes.withDirection "bidirectional").get? = f backward.attributes.get? := by
  have hfirst : f (forward.attributes.withDirection "bidirectional").get? =
      f forward.attributes.get? := by
    refine hf _ _ fun name hname => ?_
    have hne : name ≠ "direction" := by
      rintro rfl
      exact absurd hname (by decide)
    rw [Attributes.get?_withDirection, if_neg hne]
  exact ⟨hfirst, hfirst.trans (hzero hal.shared)⟩

/-- Two directions can be run as one. -/
theorem Aligned.exists_runs (hal : Aligned g plan concat forward backward a b)
    (hI : I.RunsLstm F size) (hnext : DependsOnlyOn sharedAttributes (F.next .lstm))
    (hsize : DependsOnlyOn sharedAttributes size)
    (hnext' : Identifies sharedAttributes (F.next .lstm) forward.attributes.get?
      backward.attributes.get?)
    (hsize' : Identifies sharedAttributes size forward.attributes.get? backward.attributes.get?)
    (hone : g.RunsOneWay I ρ plan.forward forward)
    (hone' : g.RunsOneWay I ρ plan.backward backward) :
    ∃ x l o o' rs rs', Runs g I ρ plan forward backward x l o o' rs rs' := by
  obtain ⟨vx, vl, _, _, _, _, _, _, _, _, _, _, hin, hin'⟩ := hal.inputs
  obtain ⟨hlen, hlen'⟩ := length_outputs_of_compatible hal.compatible
  obtain ⟨x, l, o, outs, hoperands, hrun, hzero, hresults⟩ :=
    hone.exists_lstm? hI hal.forward_node hal.forward_op (by omega) hin
  obtain ⟨x', l', o', outs', hoperands', hrun', -, hresults'⟩ :=
    hone'.exists_lstm? hI hal.backward_node hal.backward_op (by omega) hin'
  -- Both directions read the same sequences.
  have hseq : x' = x ∧ l' = l := by
    have h := hoperands
    have h' := hoperands'
    rw [hin] at h
    rw [hin'] at h'
    simp only [List.forall₂_cons] at h h'
    exact ⟨h'.1.unique h.1, h'.2.2.2.1.unique h.2.2.2.1⟩
  obtain ⟨rfl, rfl⟩ := hseq
  obtain ⟨batch, time, width, hidden, y, y', s, s', c, c', hx, ho, ho', hy, hy', hstates, rfl, rfl,
    hboth⟩ := F.lstm?_pair (isBackward_of_forward hal.forward_direction)
      (isBackward_of_reverse hal.backward_direction)
      (isBackward_withDirection_bidirectional forward.attributes) (hal.shared_eq hnext hnext').1
      (hal.shared_eq hnext hnext').2 (hal.shared_eq hsize hsize').1 (hal.shared_eq hsize hsize').2 hrun
      hrun'
  simp only [StepFunction.StatesFit, List.forall₂_cons, List.forall₂_nil_left_iff, and_true] at hstates
  obtain ⟨⟨hs, hs'⟩, hc, hc'⟩ := hstates
  rw [hx] at hzero
  simp only [List.mem_cons, not_or] at hzero
  exact ⟨x', l', o, o', [y, s, c], [y', s', c'],
    { operands := hoperands, operands' := hoperands', results := hlen ▸ hresults
      results' := hlen' ▸ hresults'
      lengths := ⟨batch, time, width, hidden, hx, Ne.symm hzero.1, Ne.symm hzero.2.1, ho, ho',
        by simp [resultLengths, hy, hs, hc], by simp [resultLengths, hy', hs', hc']⟩
      both := (hI ..).trans hboth }⟩

namespace Runs

variable (hr : Runs g I ρ plan forward backward x l o o' rs rs')
include hr

theorem length_eq : rs.length = 3 ∧ rs'.length = 3 := by
  obtain ⟨batch, time, width, hidden, -, -, -, -, -, hrs, hrs'⟩ := hr.lengths
  have h := congrArg List.length hrs
  have h' := congrArg List.length hrs'
  simp only [List.length_map] at h h'
  exact ⟨h, h'⟩

/-- The results of both directions at one place have the same lengths. -/
theorem shape_eq {i : Nat} (hy : rs[i]? = some y) (hy' : rs'[i]? = some y') : y'.shape = y.shape := by
  obtain ⟨batch, time, width, hidden, -, -, -, -, -, hrs, hrs'⟩ := hr.lengths
  have h := congrArg (·[i]?) (hrs'.trans hrs.symm)
  simpa [hy, hy'] using h

theorem exists_results {i : Nat} (hi : i < 3) : ∃ y y', rs[i]? = some y ∧ rs'[i]? = some y' := by
  obtain ⟨hlen, hlen'⟩ := hr.length_eq
  exact ⟨_, _, List.getElem?_eq_getElem (hlen.symm ▸ hi), List.getElem?_eq_getElem (hlen'.symm ▸ hi)⟩

omit hr in
theorem getElem?_both {i : Nat} (hy : rs[i]? = some y) (hy' : rs'[i]? = some y') :
    (List.zipWith (.pair 1) rs rs')[i]? = some (Grid.pair 1 y y') := by
  rw [List.getElem?_zipWith, hy, hy']

end Runs

/-! ### The concatenation -/

/-- How the results of two directions are put together. -/
def Puts (joint : Joint) (y y' t : Grid) : Prop :=
  match joint with
  | .direction => t = .pair 1 y y'
  | .feature => Grid.concat? 2 [y, y'] = some t

/-- The operands of the concatenation. -/
theorem Aligned.exists_concat? (hal : Aligned g plan concat forward backward a b) (hI : I.Concats)
    (ht : g.Computes I ρ ⟨plan.concat, 0⟩ t) :
    ∃ u u' axis, Ends g plan.forward plan.backward plan.joint plan.squeezes a b u.shape.length axis ∧
      g.Computes I ρ a u ∧ g.Computes I ρ b u' ∧ Grid.concat? axis [u, u'] = some t := by
  obtain ⟨layout, number, axis, hlayout, hnumber, haxis, hends⟩ := hal.ends
  obtain ⟨l, operands, results, hl, hadmits, hoperands, hresults, ht⟩ :=
    (Graph.computes_iff_of_ordinary (v := ⟨plan.concat, 0⟩) hal.concat_node
      (by rw [hal.concat_op]; rfl)).1 ht
  obtain rfl := Option.some.inj (hlayout.symm.trans hl)
  rw [hal.concat_inputs] at hoperands
  simp only [List.forall₂_cons_left_iff, List.forall₂_nil_left_iff] at hoperands
  obtain ⟨u, _, hu, ⟨u', _, hu', rfl, rfl⟩, rfl⟩ := hoperands
  have hget : concat.attributes.get? "axis" = some (.int number) := by
    unfold Node.int? Node.attribute? at hnumber
    split at hnumber
    · next i hi => rw [hi, Option.some.inj hnumber]
    · simp at hnumber
  rw [hal.concat_op, hI _ number u [u'] hget] at hresults
  simp only [Option.bind_eq_bind, Option.bind_eq_some_iff, Option.pure_def,
    Option.some.injEq] at hresults
  obtain ⟨position, hposition, s, hs, rfl⟩ := hresults
  obtain rfl : s = t := by simpa using ht
  -- The axis is counted in the operands as in the result, which has their rank.
  have hrank : layout.shape.rank = u.shape.length := by
    rw [← Layout.length_of_admits hadmits, (Grid.shape_of_concat? hs).2, List.length_set]
  rw [hrank] at haxis hends
  obtain rfl := Option.some.inj (hposition.symm.trans haxis)
  exact ⟨u, u', position, hends, hu, hu', hs⟩

/-- A node that drops the axis for the directions has the result without it. -/
theorem Drops.eq_of_computes {s i : Nat} {v : Value} (hd : Drops g v s) (hI : I.Squeezes)
    (hy : ∀ t, g.Computes I ρ v t → t = y.insertAxis 1) (hrank : y.shape.length = 3)
    (ht : g.Computes I ρ ⟨s, i⟩ t) : t = y := by
  cases hd with
  | intro hn hop hin haxes haxis =>
    obtain ⟨u, hu, hdrop⟩ := ht.exists_squeezed hI hn hop hin haxes haxis
    obtain rfl := hy u hu
    have hle : 1 ≤ y.shape.length := by omega
    have hdrop := hdrop (by rw [Grid.shape_insertAxis, List.length_insertIdx_of_le_length hle, hrank])
    rw [Grid.dropAxis?_insertAxis hle] at hdrop
    exact (Option.some.inj hdrop).symm

/-- The concatenation puts the results of the two directions together. -/
theorem Runs.puts (hr : Runs g I ρ plan forward backward x l o o' rs rs')
    (hal : Aligned g plan concat forward backward a b) (hconcat : I.Concats) (hsqueeze : I.Squeezes)
    (hy : rs[0]? = some y) (hy' : rs'[0]? = some y') (ht : g.Computes I ρ ⟨plan.concat, 0⟩ t) :
    Puts plan.joint y y' t := by
  obtain ⟨u, u', axis, hends, hu, hu', hjoin⟩ := hal.exists_concat? hconcat ht
  have hshape := hr.shape_eq hy hy'
  obtain ⟨batch, time, width, hidden, -, -, -, -, -, hrs, -⟩ := hr.lengths
  have hrank : y.shape = [batch, time, hidden] := by
    have h := congrArg (·[0]?) hrs
    simpa [hy, resultLengths] using h
  have hfirst : ∀ s, g.Computes I ρ ⟨plan.forward, 0⟩ s → s = y.insertAxis 1 := fun s hs => by
    have h := (hr.results 0 (by decide) s).1 hs
    simpa [hy, eq_comm] using h
  have hsecond : ∀ s, g.Computes I ρ ⟨plan.backward, 0⟩ s → s = y'.insertAxis 1 := fun s hs => by
    have h := (hr.results' 0 (by decide) s).1 hs
    simpa [hy', eq_comm] using h
  generalize plan.joint = joint, plan.squeezes = squeezes, u.shape.length = rank at hends ⊢
  cases hends with
  | direction =>
    obtain rfl := hfirst u hu
    obtain rfl := hsecond u' hu'
    rw [Grid.concat?_pair (by simp [hrank]) hshape] at hjoin
    exact (Option.some.inj hjoin).symm
  | feature hs hs' =>
    obtain rfl := hs.eq_of_computes hsqueeze hfirst (by rw [hrank]; rfl) hu
    obtain rfl := hs'.eq_of_computes hsqueeze hsecond (by rw [hshape, hrank]; rfl) hu'
    exact hjoin

end BidirectionalPlan

end Dataflow
