import Dataflow.Proofs.Recurrent.LoopConversion
import Dataflow.Proofs.Recurrent.LoopRun
import Dataflow.Proofs.Runtime.Builders

/-!
# The sequence node in the place of a loop

The sequence node that takes the place of a loop computes in one go what the loop computes in its
iterations: its operands are those of the loop, with the axes that a sequence operation expects, and
its results are the states after the iterations, with an axis for the directions.

## Main definitions

* `LoopPlan.arranged?` : the order of axes of a sequence operation.

## Main statements

* `LoopPlan.Assembly.Ready.computes_operands` : the operands of the sequence node.
* `LoopPlan.Unrolled.exists_computes` : its results.
-/

namespace Dataflow

/-- A constant with a new leading axis, as a tensor at run time. -/
theorem Tensor.grid_insertAxis {t u : Tensor} (h : t.insertAxis 0 = .ok u) :
    u.grid = t.grid.insertAxis 0 := by
  obtain ⟨hshape, helements⟩ := Tensor.insertAxis_zero h
  obtain ⟨shape, elements, hlen⟩ := u
  dsimp only at hshape helements
  subst hshape helements
  rfl

namespace LoopPlan

variable {I : Interpretation} {F : StepFunction} {ρ : Environment} {g g' h k : Graph Body}
  {plan : LoopPlan} {a : Assembly} {σ : Value → Value} {old : Nat → Prop} {v w : Value}
  {x seq t u : Grid} {states : List Grid} {batch width steps : Nat}

/-! ### The operands -/

/-- The tensor with its batch in front, if its time axis has been there. -/
def arranged? (plan : LoopPlan) (t : Grid) : Option Grid :=
  if plan.timeAxis = 0 then t.permute? [1, 0, 2] else some t

/-- The initial states get their new axes. -/
theorem Unsqueezed.computes {vs ws : List Value} (h₀ : Unsqueezed g vs g' ws)
    (hI : I.Unsqueezes) (hk : g.Listed) (hs : g'.Substituted old σ h)
    (hid : ∀ i, old i → i < g.slots.length) (hvs : ∀ v ∈ vs, ¬ old v.node)
    (hstates : List.Forall₂ (h.Computes I ρ) vs states)
    (hrank : ∀ s ∈ states, s.shape.length + 1 < 2 ^ 63) :
    List.Forall₂ (h.Computes I ρ) ws (states.map (·.insertAxis 1)) := by
  induction h₀ generalizing states with
  | nil =>
    obtain rfl := List.forall₂_nil_left_iff.1 hstates
    exact .nil
  | cons hv hrest ih =>
    obtain ⟨s, rest, hs', hall, rfl⟩ := List.forall₂_cons_left_iff.1 hstates
    rw [List.forall_mem_cons] at hvs hrank
    have hbuilt : Edit.Built (fun _ => True) _ _ _ := .unsqueeze hv trivial fun _ _ => trivial
    obtain ⟨hgrows, -⟩ := hrest.grows (S := fun _ => True) (fun _ _ => trivial) fun _ _ => trivial
    have hk' := hbuilt.grows.listed hk
    have hfirst := (Graph.Substituted.of_grows hk' old hgrows).trans hs
    refine .cons ?_ (ih hk' hs (Graph.lt_of_old hid hbuilt.grows.length_le) hvs.2 hall hrank.2)
    exact Edit.computes_unsqueeze hk hfirst hid hvs.1 hI hv hs' hrank.1

/-- The sequence is put into batch-major order. -/
theorem computes_batchMajor (happly : plan.batchMajor.apply g = (.ok w, g')) (hI : I.Transposes)
    (hk : g.Listed) (hs : g'.Substituted old σ h) (hid : ∀ i, old i → i < g.slots.length)
    (hxold : ¬ old plan.x.node) (hval : g.hasValue plan.x = true) (hx : h.Computes I ρ plan.x x)
    (hseq : plan.arranged? x = some seq) :
    h.Computes I ρ w seq ∧ ¬ old w.node ∧ g'.hasValue w = true := by
  unfold arranged? at hseq
  obtain ⟨haxis, htranspose⟩ | ⟨haxis, rfl, rfl⟩ := apply_batchMajor_ok happly
  · rw [if_pos haxis] at hseq
    have hbuilt : Edit.Built (fun _ => True) g g' w :=
      .transpose htranspose trivial fun _ _ => trivial
    exact ⟨Edit.computes_transpose hk hs hid hxold hI htranspose (by decide) hx hseq,
      Graph.not_old_of_le hid hbuilt.new, hbuilt.hasValue⟩
  · rw [if_neg haxis] at hseq
    obtain rfl := Option.some.inj hseq
    exact ⟨hx, hxold, hval⟩

/-- What a sequence operation gets: the shape of the sequence in batch-major order, and its rows. -/
theorem exists_arranged (hshape : x.shape = [batch, width].insertIdx plan.timeAxis steps)
    (haxis : plan.timeAxis ≤ 1) : ∃ seq, plan.arranged? x = some seq ∧
      seq.shape = [batch, steps, width] ∧ ∀ p < steps, ∀ i < batch,
        seq.row [i, p] = (x.layer plan.timeAxis p).row [i] := by
  obtain haxis | haxis := Nat.le_one_iff_eq_zero_or_eq_one.1 haxis
  · rw [haxis] at hshape ⊢
    have hshape : x.shape = [steps, batch, width] := hshape
    obtain ⟨seq, hseq, hseqShape, hentry⟩ := Grid.permute?_swap hshape
    refine ⟨seq, (if_pos haxis).trans hseq, hseqShape, fun p hp i hi => ?_⟩
    have hlayer : (x.layer 0 p).shape = [batch] ++ [width] := by simp [Grid.layer, hshape]
    rw [@Grid.row_eq seq [batch, steps] width hseqShape, Grid.row_eq hlayer]
    refine List.map_congr_left fun j hj => ?_
    have hj := List.mem_range.1 hj
    have hlayer : (x.layer 0 p).entry [i, j] = x.entry [p, i, j] :=
      Grid.entry_layer (by simp [hshape, hi, hj])
    exact (hentry i p j hi hp hj).trans hlayer.symm
  · rw [haxis] at hshape ⊢
    have hshape : x.shape = [batch, steps, width] := hshape
    refine ⟨x, if_neg (by omega), hshape, fun p hp i hi => ?_⟩
    have hlayer : (x.layer 1 p).shape = [batch] ++ [width] := by simp [Grid.layer, hshape]
    rw [@Grid.row_eq x [batch, steps] width hshape, Grid.row_eq hlayer]
    refine List.map_congr_left fun j hj => ?_
    have hlayer : (x.layer 1 p).entry [i, j] = x.entry [i, p, j] :=
      Grid.entry_layer (by simp [hshape, hi, List.mem_range.1 hj])
    exact hlayer.symm

/-- The operands of the sequence node, and the sizes that are declared for them. -/
theorem Assembly.Ready.computes_operands (ha : a.Ready g plan) (hk : g.Listed)
    (hI : I.Follows F) (hs : ((a.weighted plan).push (a.spec plan)).Substituted old σ h)
    (hid : ∀ i, old i → i < g.slots.length) (hxold : ¬ old plan.x.node)
    (hold : ∀ v ∈ plan.states, ¬ old v.node) (hval : g.hasValue plan.x = true)
    (hx : h.Computes I ρ plan.x x) (hseq : plan.arranged? x = some seq)
    (hseqShape : seq.shape = [batch, steps, width])
    (hstates : List.Forall₂ (h.Computes I ρ) plan.states states)
    (hrank : ∀ s ∈ states, s.shape.length + 1 < 2 ^ 63)
    (hweights : ∀ c ∈ plan.weights, ∀ n ∈ c.shape, n < 2 ^ 63) :
    List.Forall₂ (h.Computes I ρ) a.operands
        (seq :: states.map (·.insertAxis 1) ++ [.vector (List.replicate batch (steps : Int)),
          plan.w.grid.insertAxis 0, plan.r.grid.insertAxis 0, plan.b.grid.insertAxis 0]) ∧
      a.layout.admits seq = true := by
  -- Every stage on the way to the sequence node is seen from the last graph.
  obtain ⟨hfirst, -⟩ := grows_batchMajor (S := fun _ => True) ha.apply_x trivial fun _ _ => trivial
  obtain ⟨hsecond, -⟩ := ha.unsqueezed.grows (S := fun _ => True) (fun _ _ => trivial)
    fun _ _ => trivial
  have hthird : Edit.Built (fun _ => True) a.second a.third a.lengths :=
    .sequenceLengths ha.apply_lengths trivial fun _ _ => trivial
  have hweighted : a.third.Grows (fun _ => True) (a.weighted plan) := a.grows_weighted
  have hk₁ := hfirst.listed hk
  have hk₂ := hsecond.listed hk₁
  have hk₃ := hthird.grows.listed hk₂
  have hsw := Graph.Substituted.of_pushed (hweighted.listed hk₃) hs
  have hs₃ := (Graph.Substituted.of_grows hk₃ old hweighted).trans hsw
  have hs₂ := (Graph.Substituted.of_grows hk₂ old hthird.grows).trans hs₃
  have hs₁ := (Graph.Substituted.of_grows hk₁ old hsecond).trans hs₂
  have hid₁ := Graph.lt_of_old hid hfirst.length_le
  have hid₂ := Graph.lt_of_old hid₁ hsecond.length_le
  have hid₃ := Graph.lt_of_old hid₂ hthird.grows.length_le
  obtain ⟨hax, haxold, haxval⟩ :=
    computes_batchMajor ha.apply_x hI.transpose hk hs₁ hid hxold hval hx hseq
  have hastates := ha.unsqueezed.computes hI.unsqueeze hk₁ hs₂ hid₁ hold hstates hrank
  obtain ⟨-, halengths⟩ := Edit.computes_sequenceLengths hk₂ hs₃ hid₂ haxold hI ha.apply_lengths hax
    hseqShape (hsecond.hasValue haxval)
  -- The weights are constants with one more axis.
  have hlt : ∀ {c u : Tensor}, c ∈ plan.weights → c.insertAxis 0 = .ok u → ∀ n ∈ u.shape,
      n < 2 ^ 63 := by
    intro c u hc hu n hn
    rw [(Tensor.insertAxis_zero hu).1, List.mem_cons] at hn
    obtain rfl | hn := hn
    · decide
    · exact hweights c hc n hn
  have hsb : (a.weighted plan).Substituted old σ h := hsw
  have hsr := Graph.Substituted.of_pushed ((hk₃.push _).push _) hsb
  have hsw' := Graph.Substituted.of_pushed (hk₃.push _) hsr
  have hw := hsw'.computes_constant (I := I) (ρ := ρ) hid₃
    (hlt (by simp [weights]) ha.insertAxis_w)
  have hr := hsr.computes_constant (I := I) (ρ := ρ)
    (Graph.lt_of_old hid₃ (by simp [Graph.length_slots_push]))
    (hlt (by simp [weights]) ha.insertAxis_r)
  have hb := hsb.computes_constant (I := I) (ρ := ρ)
    (Graph.lt_of_old hid₃ (by simp [Graph.length_slots_push]; omega))
    (hlt (by simp [weights]) ha.insertAxis_b)
  rw [Tensor.grid_insertAxis ha.insertAxis_w] at hw
  rw [Tensor.grid_insertAxis ha.insertAxis_r, Graph.length_slots_push] at hr
  rw [Tensor.grid_insertAxis ha.insertAxis_b, Graph.length_slots_push,
    Graph.length_slots_push] at hb
  exact ⟨List.rel_append (.cons hax hastates) (.cons halengths (.cons hw (.cons hr (.cons hb .nil)))),
    hs₁.admits haxold haxval hax ha.layout_x⟩

/-! ### The results -/

theorem isBackward_spec (a : Assembly) : isBackward (a.spec plan).attributes 0 = plan.reverse := by
  have hdirection : (a.spec plan).attributes.get? "direction" =
      some (.str (if plan.reverse then "reverse" else "forward")) := by
    rw [Assembly.spec, sequenceSpec, Attributes.get?_insert, if_pos rfl]
  rw [isBackward, hdirection]
  cases plan.reverse <;> rfl

theorem next_spec (hF : F.Ignores ["hidden_size", "direction"]) (a : Assembly) :
    F.next plan.kind (a.spec plan).attributes.get? = F.next plan.kind plan.attributes.get? := by
  refine hF _ _ _ fun name hname => ?_
  simp only [List.mem_cons, List.not_mem_nil, or_false, not_or] at hname
  rw [Assembly.spec, sequenceSpec, Attributes.get?_insert, if_neg hname.2, Attributes.get?_insert,
    if_neg hname.1]

section Results

variable {hs : Nat → List Grid} (hu : Unrolled I F g ρ plan x hs batch width steps)
include hu

theorem Unrolled.length_states (hlen : plan.states.length = plan.kind.stateCount) :
    (hs 0).length = plan.kind.stateCount :=
  hu.initial.length_eq.symm.trans hlen

theorem Unrolled.lengthAt_input (haxis : plan.timeAxis ≤ 1) :
    x.lengthAt plan.timeAxis = steps := by
  rw [Grid.lengthAt, hu.shape_input]
  obtain haxis | haxis := Nat.le_one_iff_eq_zero_or_eq_one.1 haxis <;> rw [haxis] <;> rfl

/-- The sequence operation computes the states of all steps of the loop. -/
theorem Unrolled.exists_results (hF : F.Ignores ["hidden_size", "direction"])
    (hlen : plan.states.length = plan.kind.stateCount) {rows : Nat}
    (hhidden : plan.r.shape = [rows, plan.hidden]) (haxis : plan.timeAxis ≤ 1)
    (hseqShape : seq.shape = [batch, steps, width])
    (hrow : ∀ p < steps, ∀ i < batch, seq.row [i, p] = (x.layer plan.timeAxis p).row [i])
    (a : Assembly) :
    ∃ y : Grid, F.sequence? plan.kind (a.spec plan).attributes seq ((hs 0).map (·.insertAxis 1))
        (.vector (List.replicate batch (steps : Int))) (plan.w.grid.insertAxis 0)
        (plan.r.grid.insertAxis 0) (plan.b.grid.insertAxis 0) =
          some (y.insertAxis 1 :: (hs steps).map (·.insertAxis 1)) ∧
      y.shape = [batch, steps, plan.hidden] ∧
        ∀ k < steps, ∀ s, (hs (k + 1))[0]? = some s → ∀ i < batch,
          y.row [i, visit plan.reverse steps k] = s.row [i] := by
  refine StepFunction.sequence?_of_cells (hu.length_states hlen) hu.shape_initial hhidden hu.cells
    hseqShape (fun k hk i hi => ?_) (isBackward_spec a) (next_spec hF a)
  rw [layerAt, hu.lengthAt_input haxis]
  exact hrow _ (StepFunction.visit_lt hk) i hi

theorem Unrolled.shape_of_mem (hlen : plan.states.length = plan.kind.stateCount) {k : Nat}
    (hk : k ≤ steps) : ∀ s ∈ hs k, s.shape = [batch, plan.hidden] :=
  (StepFunction.states_of_cells (hu.length_states hlen) hu.shape_initial hu.cells hk).2.1

/-- The hidden states of all steps, in the order of axes of the loop. -/
theorem Unrolled.arranged?_eq (hlen : plan.states.length = plan.kind.stateCount)
    (haxis : plan.timeAxis ≤ 1) {y : Grid} (hy : y.shape = [batch, steps, plan.hidden])
    (hrow : ∀ k < steps, ∀ s, (hs (k + 1))[0]? = some s → ∀ i < batch,
      y.row [i, visit plan.reverse steps k] = s.row [i])
    (ht : LoopResult.sequence.Holds plan hs steps t) : plan.arranged? y = some t := by
  -- Each position holds the hidden state of the step that visits it.
  have hstep : ∀ p < steps, t.shape = [batch, plan.hidden].insertIdx plan.timeAxis steps ∧
      ∀ i < batch, ∀ j < plan.hidden,
        t.entry ([i, j].insertIdx plan.timeAxis p) = y.entry [i, p, j] := by
    intro p hp
    have hk := @StepFunction.visit_lt plan.reverse _ _ hp
    obtain ⟨hcount, -, -⟩ :=
      StepFunction.states_of_cells (hu.length_states hlen) hu.shape_initial hu.cells hk
    have hpos : 0 < (hs (visit plan.reverse steps p + 1)).length :=
      hcount ▸ StepFunction.stateCount_pos plan.kind
    have hget := List.getElem?_eq_getElem hpos
    have hshape := hu.shape_of_mem hlen hk _ (List.mem_of_getElem? hget)
    obtain ⟨htshape, hentry⟩ := ht _ hk _ hget
    rw [hshape] at htshape hentry
    rw [StepFunction.visit_visit hp] at hentry
    refine ⟨htshape, fun i hi j hj => ?_⟩
    have hyrow := hrow _ hk _ hget i hi
    rw [StepFunction.visit_visit hp] at hyrow
    exact (hentry [i, j] (by simp [hi, hj])).trans
      (@Grid.entry_eq_of_row_eq _ _ [batch, steps] [i, p] _ [batch] [i] hy hshape hyrow j hj).symm
  have htshape := (hstep 0 hu.pos).1
  obtain haxis | haxis := Nat.le_one_iff_eq_zero_or_eq_one.1 haxis
  · rw [haxis] at htshape
    have htshape : t.shape = [steps, batch, plan.hidden] := htshape
    obtain ⟨u, hperm, hushape, huentry⟩ := Grid.permute?_swap hy
    refine (if_pos haxis).trans (hperm.trans (congrArg some ?_))
    refine Grid.ext_entry (hushape.trans htshape.symm) fun index hindex => ?_
    rw [hushape] at hindex
    simp only [List.forall₂_cons_right_iff, List.forall₂_nil_right_iff] at hindex
    obtain ⟨p, -, hp, ⟨i, -, hi, ⟨j, -, hj, rfl, rfl⟩, rfl⟩, rfl⟩ := hindex
    have hentry := (hstep p hp).2 i hi j hj
    rw [haxis] at hentry
    exact (huentry p i j hp hi hj).trans hentry.symm
  · rw [haxis] at htshape
    have htshape : t.shape = [batch, steps, plan.hidden] := htshape
    refine (if_neg (by omega)).trans (congrArg some ?_)
    refine Grid.ext_entry (hy.trans htshape.symm) fun index hindex => ?_
    rw [hy] at hindex
    simp only [List.forall₂_cons_right_iff, List.forall₂_nil_right_iff] at hindex
    obtain ⟨i, -, hi, ⟨p, -, hp, ⟨j, -, hj, rfl, rfl⟩, rfl⟩, rfl⟩ := hindex
    have hentry := (hstep p hp).2 i hi j hj
    rw [haxis] at hentry
    exact hentry.symm

/-- The declared layouts of the sequence node are true of its results. -/
theorem Unrolled.admits_results (hlen : plan.states.length = plan.kind.stateCount) {rows : Nat}
    (hhidden : plan.r.shape = [rows, plan.hidden]) (ha : a.Ready g plan)
    (hseqShape : seq.shape = [batch, steps, width]) (hadmits : a.layout.admits seq = true)
    {y : Grid} (hy : y.shape = [batch, steps, plan.hidden]) {i : Nat}
    (ht : (y.insertAxis 1 :: (hs steps).map (·.insertAxis 1))[i]? = some t) :
    ∃ l, (a.spec plan).outputs[i]? = some l ∧ l.admits t = true := by
  have hall := Layout.admits_iff.1 hadmits
  rw [hseqShape] at hall
  obtain ⟨_, hb, hbatch⟩ := exists_of_forall₂_left hall ha.dim_batch
  obtain rfl := Option.some.inj hb
  obtain ⟨_, hT, htime⟩ := exists_of_forall₂_left hall ha.dim_time
  obtain rfl := Option.some.inj hT
  have hone : Dim.admits (.known 1) 1 = true := by decide
  have hhid : Dim.admits (.known plan.hidden) plan.hidden = true :=
    Dim.admits_iff.2 ⟨hu.weights plan.r (.tail _ (.head _)) _ (by simp [hhidden]),
      fun m hm => (Dim.known.inj hm).symm⟩
  cases i with
  | zero =>
    obtain rfl := Option.some.inj ht
    refine ⟨_, rfl, Layout.admits_iff.2 ?_⟩
    rw [Grid.shape_insertAxis, hy]
    exact .cons hbatch (.cons hone (.cons htime (.cons hhid .nil)))
  | succ i =>
    rw [List.getElem?_cons_succ, List.getElem?_map, Option.map_eq_some_iff] at ht
    obtain ⟨s, hs', rfl⟩ := ht
    have hi := (List.getElem?_eq_some_iff.1 hs').1
    obtain ⟨hcount, hshape, -⟩ := StepFunction.states_of_cells (hu.length_states hlen)
      hu.shape_initial hu.cells (Nat.le_refl steps)
    rw [hcount] at hi
    refine ⟨.planar ⟨[a.batch, .known 1, .known plan.hidden]⟩ a.layout.elementType, ?_,
      Layout.admits_iff.2 ?_⟩
    · rw [Assembly.spec, sequenceSpec, List.getElem?_cons_succ, List.getElem?_replicate, if_pos hi]
    · rw [Grid.shape_insertAxis, hshape s (List.mem_of_getElem? hs')]
      exact .cons hbatch (.cons hone (.cons hhid .nil))

/-- What the sequence node computes, in any graph at a later stage of the replacement. -/
theorem Unrolled.exists_computes (hI : I.Follows F) (hF : F.Ignores ["hidden_size", "direction"])
    (hk : g.Listed) (ha : a.Ready g plan)
    (hsub : ((a.weighted plan).push (a.spec plan)).Substituted old σ h)
    (hid : ∀ i, old i → i < g.slots.length) (hxold : ¬ old plan.x.node)
    (hold : ∀ v ∈ plan.states, ¬ old v.node) (hx : h.Computes I ρ plan.x x)
    (hstates : List.Forall₂ (h.Computes I ρ) plan.states (hs 0))
    (hlen : plan.states.length = plan.kind.stateCount) {rows : Nat}
    (hhidden : plan.r.shape = [rows, plan.hidden]) (haxis : plan.timeAxis ≤ 1) :
    ∃ y : Grid, y.shape = [batch, steps, plan.hidden] ∧
      (∀ k < steps, ∀ s, (hs (k + 1))[0]? = some s → ∀ i < batch,
        y.row [i, visit plan.reverse steps k] = s.row [i]) ∧
      ∀ i t, (y.insertAxis 1 :: (hs steps).map (·.insertAxis 1))[i]? = some t →
        h.Computes I ρ ⟨(a.weighted plan).slots.length, i⟩ t := by
  obtain ⟨seq, hseq, hseqShape, hrow⟩ := exists_arranged hu.shape_input haxis
  obtain ⟨y, hsequence, hy, hyrow⟩ :=
    hu.exists_results hF hlen hhidden haxis hseqShape hrow a
  have hrank : ∀ s ∈ hs 0, s.shape.length + 1 < 2 ^ 63 := by
    intro s hs'
    rw [hu.shape_initial s hs']
    show 2 + 1 < 2 ^ 63
    decide
  obtain ⟨hoperands, hadmits⟩ := ha.computes_operands hk hI hsub hid hxold hold hu.input.hasValue hx
    hseq hseqShape hstates hrank hu.weights
  have hfree := ha.grows_operands (S := fun v => ¬ old v.node) hxold hold fun u hu =>
    Graph.not_old_of_le hid hu
  have hop : (a.spec plan).op.isOrdinary = true := by
    show plan.kind.sequenceOp.isOrdinary = true
    cases plan.kind <;> rfl
  have hI' := (hI.sequence plan.kind _ _ _ _ _ _ _
    (by rw [List.length_map, hu.length_states hlen])).trans hsequence
  refine ⟨y, hy, hyrow, fun i t ht => ?_⟩
  obtain ⟨l, hl, hadmits'⟩ := hu.admits_results hlen hhidden ha hseqShape hadmits hy ht
  exact hsub.computes_pushed (Graph.lt_of_old hid hfree.1.length_le) hop hfree.2 hoperands hI' hl
    hadmits' ht

end Results

end LoopPlan

end Dataflow
