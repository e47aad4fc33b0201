import Dataflow.Proofs.Recurrent.Replacements
import Dataflow.Proofs.Runtime.Layouts
import Dataflow.Proofs.Success

/-!
# When two directions are put together halfway

The search for two directions compares the layouts of their operands and of their outputs before
anything is changed.  Two things are only found out later, when the graph already has new nodes: that a
joined constant has room in memory, and that the reshape which takes the axis for the directions into
the features can tell the length of the new axis.  The second one fails for a batch or a sequence of
known length zero, and may fail when the number of the positions of a batch is too large for a word.
In all other cases the replacement succeeds.

## Main definitions

* `BidirectionalPlan.IsFoundAt` : a plan for a match at a node.
* `BidirectionalPlan.Fusible` : what a replacement needs beyond what the search has checked.

## Main statements

* `BidirectionalPlan.Aligned.plan_unique` : there is at most one plan for a node.
* `BidirectionalPlan.Aligned.fuse_ok_iff` : when a replacement succeeds.
* `BidirectionalPlan.atomic_attempt_iff` : when the rule either applies or leaves the graph as it is.
-/

namespace Dataflow

open Dataflow.Graph (Retains)

variable {β : Type}

namespace BidirectionalPlan

variable {g h : Graph β} {plan plan' : BidirectionalPlan} {concat forward backward : Node β}
  {a b v w : Value} {name : String} {i fused : Nat} {id : Nat}

/-- The search has found the plan for a match at the node. -/
def IsFoundAt (plan : BidirectionalPlan) (g : Graph β) (id : Nat) : Prop :=
  ∃ m, bidirectionalRule.MatchesAt g id m ∧
    find? g (bidirectionalPattern (β := β)).2 m = some plan

/-- What a replacement needs beyond what the search has checked. -/
structure Fusible (g : Graph β) (plan : BidirectionalPlan) : Prop where
  /-- The weights and the biases of both directions, if they are constant, have room end to end. -/
  weights : ∀ i ∈ [4, 5, 6], ∀ v w s t, g.input? ⟨plan.forward, i⟩ = some v →
    g.input? ⟨plan.backward, i⟩ = some w → g.constant? v = some s → g.constant? w = some t →
      ∀ n rest, s.shape = n :: rest → isAddressable ((n + n) :: rest) = true
  /-- Features are not put together for a batch or a sequence that is known to be empty.  The number
  of the positions is a word, like that of the elements, so that it may also vanish or fail to divide
  the other one when it is too large for a word. -/
  features : plan.joint = .feature → ∀ l batch time size, g.layout? ⟨plan.forward, 0⟩ = some l →
    l.shape.dims = [.known batch, .known 1, .known time, .known size] →
      wordCount [batch, time] ≠ 0 ∧ wordCount [batch, time, 2, size] % wordCount [batch, time] = 0

/-! ### One plan -/

/-- The concatenation settles the plan. -/
theorem Aligned.plan_unique (hal : Aligned g plan concat forward backward a b)
    {concat' forward' backward' : Node β} {a' b' : Value}
    (hal' : Aligned g plan' concat' forward' backward' a' b') (hconcat : plan.concat = plan'.concat) :
    plan = plan' := by
  obtain rfl := Option.some.inj (hal.concat_node.symm.trans (hconcat ▸ hal'.concat_node))
  obtain ⟨rfl, rfl⟩ : a = a' ∧ b = b' := by
    simpa using hal.concat_inputs.symm.trans hal'.concat_inputs
  obtain ⟨layout, axis, position, hlayout, -, -, hends⟩ := hal.ends
  obtain ⟨layout', axis', position', hlayout', -, -, hends'⟩ := hal'.ends
  obtain rfl := Option.some.inj (hlayout.symm.trans hlayout')
  have hdrops : ∀ {y y' : Value} {s : Nat}, Drops g y s → Drops g y' s → y = y' := by
    rintro y y' s ⟨hn, -, hin, -, -⟩ ⟨hn', -, hin', -, -⟩
    obtain rfl := Option.some.inj (hn.symm.trans hn')
    exact (List.cons.inj (hin.symm.trans hin')).1
  obtain ⟨c, f, k, s, j⟩ := plan
  obtain ⟨c', f', k', s', j'⟩ := plan'
  dsimp only at hends hends' hconcat
  generalize layout.shape.rank = rank at hends hends'
  cases hends with
  | direction => cases hends' with | direction => rw [hconcat]
  | feature hs hs' =>
    cases hends' with
    | feature ht ht' =>
      have hf := congrArg Value.node (hdrops hs ht)
      have hk := congrArg Value.node (hdrops hs' ht')
      dsimp only at hf hk
      rw [hconcat, hf, hk]

/-! ### What the search has checked -/

theorem exists_of_operandsAgree {rank : Nat} (h : operandsAgree g forward backward i rank = true) :
    ∃ v w l, forward.inputs[i]? = some v ∧ backward.inputs[i]? = some w ∧ g.layout? v = some l ∧
      g.layout? w = some l ∧ l.shape.rank = rank ∧ ∀ s t, g.constant? v = some s →
        g.constant? w = some t → t.shape = s.shape ∧ s.rank = rank ∧ s.elementType = t.elementType := by
  unfold operandsAgree at h
  split at h
  · next v w hv hw =>
    rw [Bool.and_eq_true] at h
    obtain ⟨hlayouts, hconstants⟩ := h
    split at hlayouts
    · next l l' hl hl' =>
      simp only [Bool.and_eq_true, beq_iff_eq] at hlayouts
      obtain ⟨rfl, hrank⟩ := hlayouts
      refine ⟨v, w, l, hv, hw, hl, hl', hrank, fun s t hs ht => ?_⟩
      simp only [hs, ht, Bool.and_eq_true, beq_iff_eq] at hconstants
      exact ⟨hconstants.1.1.symm, hconstants.1.2, hconstants.2⟩
    · simp at hlayouts
  · simp at h

/-- The outputs of a direction have an axis of length one for the directions. -/
theorem exists_outputs_of_declaresOneDirection {n : Node β} (h : declaresOneDirection n = true) :
    ∃ y s b t k b' k', n.outputs = [y, s, s] ∧ y.shape.dims = [b, .known 1, t, k] ∧
      s.shape.dims = [b', .known 1, k'] := by
  unfold declaresOneDirection at h
  split at h
  · next y s c houts =>
    simp only [Bool.and_eq_true, beq_iff_eq, Shape.rank, Shape.dim?] at h
    obtain ⟨⟨⟨⟨hy, hy1⟩, hs⟩, hs1⟩, rfl⟩ := h
    match hdims : y.shape.dims, hdims' : c.shape.dims, hy, hs with
    | [b, d, t, k], [b', d', k'], _, _ =>
      rw [hdims] at hy1
      rw [hdims'] at hs1
      obtain rfl := Option.some.inj hy1
      obtain rfl := Option.some.inj hs1
      exact ⟨y, c, b, t, k, b', k', houts, hdims, hdims'⟩
  · simp at h

/-- The operands of both directions at an input exist and have one layout. -/
theorem Aligned.exists_operands (hal : Aligned g plan concat forward backward a b)
    (hd : g.NoDangling) {rank : Nat} (hi : (i, rank) ∈ operandRanks) :
    ∃ v w l, forward.inputs[i]? = some v ∧ backward.inputs[i]? = some w ∧ g.Declares v l ∧
      g.Declares w l ∧ l.shape.rank = rank ∧ ∀ s t, g.constant? v = some s → g.constant? w = some t →
        t.shape = s.shape ∧ s.rank = rank ∧ s.elementType = t.elementType := by
  have hall := hal.compatible
  simp only [BidirectionalPlan.compatible, Bool.and_eq_true, List.all_eq_true] at hall
  obtain ⟨v, w, l, hv, hw, hl, hl', hrank, hconst⟩ := exists_of_operandsAgree (hall.1.1 _ hi)
  have hread : ∀ {id : Nat} {n : Node β} {v : Value}, g.live? id = some n → n.inputs[i]? = some v →
      g.hasValue v = true := fun {id} {n} {v} hn hv =>
    hd.reads (u := ⟨id, i⟩) ⟨n, hn, hv⟩
  exact ⟨v, w, l, hv, hw, Graph.declares_of_layout? (hread hal.forward_node hv) hl,
    Graph.declares_of_layout? (hread hal.backward_node hw) hl', hrank, hconst⟩

/-! ### When a replacement succeeds -/

theorem yields_operands_bind {α : Type} {R : α → Graph β → Prop} {f : Value × Value → Edit β α}
    (hv : forward.inputs[i]? = some v) (hw : backward.inputs[i]? = some w)
    (hf : (f (v, w)).Yields g R) : (operands forward backward i >>= f).Yields g R := by
  have hpair : (operands forward backward i).Yields g fun p h => (v, w) = p ∧ g = h := by
    unfold operands
    simp only [hv, hw]
    exact .pure ⟨rfl, rfl⟩
  refine hpair.bind fun _ _ hsame => ?_
  obtain ⟨rfl, rfl⟩ := hsame
  exact hf

theorem yields_join {l : Layout} (hk : g.WellKept) (hv : g.Declares v l) (hw : g.Declares w l)
    (hrank : 0 < l.shape.rank) (hconst : ∀ s t, g.constant? v = some s → g.constant? w = some t →
      ∃ u, Tensor.concat [s, t] 0 = .ok u) :
    (join name v w 0).Yields g fun u h => g.Retains h ∧ h.hasValue u = true := by
  refine Edit.Yields.get.bind fun h k hsame => ?_
  obtain ⟨rfl, rfl⟩ := hsame
  split
  · next s t hs ht =>
    obtain ⟨u, hu⟩ := hconst s t hs ht
    refine (Edit.Yields.pureExcept hu).bind fun _ _ hsame => ?_
    obtain ⟨rfl, rfl⟩ := hsame
    exact (Edit.yields_addConstant hk u).mono fun _ _ h => ⟨h.retains, h.declares.hasValue⟩
  · exact Edit.yields_concat hk hv hw rfl rfl hrank

/-- A joined constant has room exactly when the search should have asked for it. -/
theorem Aligned.exists_concat_iff (hal : Aligned g plan concat forward backward a b)
    (hd : g.NoDangling) {rank : Nat} (hi : (i, rank + 1) ∈ operandRanks) :
    (∀ v w s t, forward.inputs[i]? = some v → backward.inputs[i]? = some w →
      g.constant? v = some s → g.constant? w = some t → ∃ u, Tensor.concat [s, t] 0 = .ok u) ↔
    ∀ v w s t, g.input? ⟨plan.forward, i⟩ = some v → g.input? ⟨plan.backward, i⟩ = some w →
      g.constant? v = some s → g.constant? w = some t →
        ∀ n rest, s.shape = n :: rest → isAddressable ((n + n) :: rest) = true := by
  obtain ⟨v, w, l, hv, hw, -, -, -, hconst⟩ := hal.exists_operands hd hi
  have hforward : g.input? ⟨plan.forward, i⟩ = forward.inputs[i]? := by
    rw [Graph.input?, Graph.node?_of_live? hal.forward_node, Option.bind_some]
  have hbackward : g.input? ⟨plan.backward, i⟩ = backward.inputs[i]? := by
    rw [Graph.input?, Graph.node?_of_live? hal.backward_node, Option.bind_some]
  rw [hforward, hbackward, hv, hw]
  constructor
  · rintro h _ _ s t ⟨⟩ ⟨⟩ hs ht n rest hshape
    obtain ⟨hsame, -, htype⟩ := hconst s t hs ht
    exact (Tensor.exists_concat_iff hshape (hsame.trans hshape) htype).1 (h v w s t rfl rfl hs ht)
  · rintro h _ _ s t ⟨⟩ ⟨⟩ hs ht
    obtain ⟨hsame, hrank, htype⟩ := hconst s t hs ht
    obtain ⟨n, rest, hshape⟩ := List.exists_of_length_succ s.shape hrank
    exact (Tensor.exists_concat_iff hshape (hsame.trans hshape) htype).2
      (h v w s t rfl rfl hs ht n rest hshape)

/-- The outputs of the forward direction exist. -/
theorem Aligned.exists_outputs (hal : Aligned g plan concat forward backward a b)
    (hk : g.WellKept) : ∃ y s m t k m' k', y.shape.dims = [m, .known 1, t, k] ∧
      s.shape.dims = [m', .known 1, k'] ∧ g.Declares ⟨plan.forward, 0⟩ y ∧
        g.Declares (forward.output 0) y ∧ g.Declares (forward.output 1) s := by
  have hall := hal.compatible
  simp only [BidirectionalPlan.compatible, Bool.and_eq_true] at hall
  obtain ⟨y, s, m, t, k, m', k', houts, hy, hs⟩ := exists_outputs_of_declaresOneDirection hall.2
  have hdeclares : ∀ i l, forward.outputs[i]? = some l → g.Declares (forward.output i) l := by
    intro i l hl
    refine ⟨forward, ?_, hl⟩
    rw [Node.output, hk.numbered.live hal.forward_node]
    exact hal.forward_node
  have hid : forward.output 0 = ⟨plan.forward, 0⟩ := by
    rw [Node.output, hk.numbered.live hal.forward_node]
  exact ⟨y, s, m, t, k, m', k', hy, hs, hid ▸ hdeclares 0 y (by rw [houts]; rfl),
    hdeclares 0 y (by rw [houts]; rfl), hdeclares 1 s (by rw [houts]; rfl)⟩

/-- The node of both directions is there, with an axis of length two for the directions. -/
structure Fused (g : Graph β) (plan : BidirectionalPlan) (fused : Nat) (h : Graph β) : Prop where
  retains : g.Retains h
  result : ∃ y, g.layout? ⟨plan.forward, 0⟩ = some y ∧ h.Declares ⟨fused, 0⟩ (bothDirections y)
  states : ∀ i ∈ [1, 2], ∃ s, h.Declares ⟨fused, i⟩ s ∧ s.shape.dim? 1 = some (.known 2)

/-- The operands at an input can be laid end to end on their second axis. -/
theorem Aligned.yields_concat (hal : Aligned g plan concat forward backward a b) (hd : g.NoDangling)
    {r : Nat} (hi : (i, r) ∈ operandRanks) (hr : 1 < r) (hg : g.Retains h) :
    ∃ v w, forward.inputs[i]? = some v ∧ backward.inputs[i]? = some w ∧ ∀ name,
      (Edit.concat name [v, w] 1).Yields h fun u k => h.Retains k ∧ k.hasValue u = true := by
  obtain ⟨v, w, l, hv, hw, hl, hl', rfl, -⟩ := hal.exists_operands hd hi
  exact ⟨v, w, hv, hw, fun _ =>
    Edit.yields_concat hg.wellKept (hg.declares hl) (hg.declares hl') rfl rfl hr⟩

/-- The weights at an input can be joined if there is room for them. -/
theorem Aligned.yields_join (hal : Aligned g plan concat forward backward a b) (hd : g.NoDangling)
    (hf : Fusible g plan) {r : Nat} (hi : (i, r + 1) ∈ operandRanks) (hmem : i ∈ [4, 5, 6])
    (hg : g.Retains h) :
    ∃ v w, forward.inputs[i]? = some v ∧ backward.inputs[i]? = some w ∧ ∀ name,
      (join name v w 0).Yields h fun u k => h.Retains k ∧ k.hasValue u = true := by
  obtain ⟨v, w, l, hv, hw, hl, hl', hrank, -⟩ := hal.exists_operands hd hi
  have hroom := (hal.exists_concat_iff hd hi).2 (hf.weights i hmem)
  refine ⟨v, w, hv, hw, fun _ => BidirectionalPlan.yields_join hg.wellKept (hg.declares hl)
    (hg.declares hl') (hrank ▸ Nat.succ_pos r) fun s t hs ht => ?_⟩
  rw [hg.constant?_eq hl.hasValue] at hs
  rw [hg.constant?_eq hl'.hasValue] at ht
  exact hroom v w s t hv hw hs ht

theorem Aligned.yields_addBoth (hal : Aligned g plan concat forward backward a b) (hk : g.WellKept)
    (hd : g.NoDangling) (hf : Fusible g plan) :
    (addBoth forward backward).Yields g (Fused g plan) := by
  obtain ⟨x, l, _, _, _, _, _, _, _, _, _, _, hin, hin'⟩ := hal.inputs
  have hread : ∀ v ∈ forward.inputs, g.hasValue v = true := fun v hv => by
    obtain ⟨u, hu, -⟩ := Graph.reads_of_mem hal.forward_node hv
    exact hd.reads hu
  obtain ⟨y, s, m, t, k, m', k', hy, hs, hdeclares, hresult, hstate⟩ := hal.exists_outputs hk
  -- The states are laid end to end.
  obtain ⟨v₁, w₁, hv₁, hw₁, hconcat₁⟩ := hal.yields_concat hd (i := 1) (r := 3) (by decide)
    (by decide) (.refl hk)
  refine yields_operands_bind hv₁ hw₁ ((hconcat₁ _).bind fun h g₁ ⟨r₁, hh⟩ => ?_)
  obtain ⟨v₂, w₂, hv₂, hw₂, hconcat₂⟩ := hal.yields_concat hd (i := 2) (r := 3) (by decide)
    (by decide) r₁
  refine yields_operands_bind hv₂ hw₂ ((hconcat₂ _).bind fun c g₂ ⟨r₂, hc⟩ => ?_)
  -- The weights and the biases are joined.
  obtain ⟨v₄, w₄, hv₄, hw₄, hjoin₄⟩ := hal.yields_join hd hf (i := 4) (r := 2) (by decide) (by decide)
    (r₁.trans r₂)
  refine yields_operands_bind hv₄ hw₄ ((hjoin₄ _).bind fun w g₃ ⟨r₃, hw⟩ => ?_)
  obtain ⟨v₅, w₅, hv₅, hw₅, hjoin₅⟩ := hal.yields_join hd hf (i := 5) (r := 2) (by decide) (by decide)
    ((r₁.trans r₂).trans r₃)
  refine yields_operands_bind hv₅ hw₅ ((hjoin₅ _).bind fun r g₄ ⟨r₄, hr⟩ => ?_)
  obtain ⟨v₆, w₆, hv₆, hw₆, hjoin₆⟩ := hal.yields_join hd hf (i := 6) (r := 1) (by decide) (by decide)
    (((r₁.trans r₂).trans r₃).trans r₄)
  refine yields_operands_bind hv₆ hw₆ ((hjoin₆ _).bind fun b g₅ ⟨r₅, hb⟩ => ?_)
  have hlast := (((r₁.trans r₂).trans r₃).trans r₄).trans r₅
  refine (Edit.Yields.layoutOf (hlast.declares hresult).layout?).bind fun _ _ hsame => ?_
  obtain ⟨rfl, rfl⟩ := hsame
  refine (Edit.Yields.layoutOf (hlast.declares hstate).layout?).bind fun _ _ hsame => ?_
  obtain ⟨rfl, rfl⟩ := hsame
  refine yields_operands_bind (v := x) (w := x) (by rw [hin]; rfl) (by rw [hin']; rfl)
    (yields_operands_bind (v := l) (w := l) (by rw [hin]; rfl) (by rw [hin']; rfl)
      ((Edit.Yields.addNode ?_).mono fun fused h hnew => ?_))
  · simp only [List.forall_mem_cons, List.not_mem_nil, false_imp_iff, implies_true, and_true]
    exact ⟨hlast.hasValue (hread x (by simp [hin])),
      (((r₂.trans r₃).trans r₄).trans r₅).hasValue hh, ((r₃.trans r₄).trans r₅).hasValue hc,
      hlast.hasValue (hread l (by simp [hin])), (r₄.trans r₅).hasValue hw, r₅.hasValue hr, hb⟩
  · obtain ⟨rfl, rfl⟩ := hnew
    refine ⟨hlast.push _, ⟨y, hdeclares.layout?, Graph.declares_push_new rfl⟩, fun i hi => ?_⟩
    refine ⟨bothDirections s, Graph.declares_push_new ?_, ?_⟩
    · obtain rfl | rfl : i = 1 ∨ i = 2 := by simpa using hi
      · rfl
      · rfl
    · simp [bothDirections, Layout.planar, Shape.setDim, Shape.dim?, hs]

theorem yields_joined (hfu : Fused g plan fused h)
    (hy : ∃ y m t k, g.layout? ⟨plan.forward, 0⟩ = some y ∧ y.shape.dims = [m, .known 1, t, k])
    (hfeatures : plan.joint = .feature → ∀ l batch time size,
      g.layout? ⟨plan.forward, 0⟩ = some l →
        l.shape.dims = [.known batch, .known 1, .known time, .known size] →
          wordCount [batch, time] ≠ 0 ∧
            wordCount [batch, time, 2, size] % wordCount [batch, time] = 0) :
    (joined plan.joint name fused).Yields h fun _ k => h.Retains k := by
  obtain ⟨y, m, t, k, hlayout, hdims⟩ := hy
  obtain ⟨_, hlayout', hdeclares⟩ := hfu.result
  obtain rfl := Option.some.inj (hlayout.symm.trans hlayout')
  have hboth : bothDirections y = .planar ⟨[m, .known 2, t, k]⟩ y.elementType := by
    simp [bothDirections, Shape.setDim, hdims]
  rw [hboth] at hdeclares
  cases hjoint : plan.joint with
  | direction => exact .pure (.refl hfu.retains.wellKept)
  | feature =>
    have htranspose : (Layout.planar ⟨[m, .known 2, t, k]⟩ y.elementType).transpose [0, 2, 1, 3] =
        .ok (.planar ⟨[m, t, .known 2, k]⟩ y.elementType) := rfl
    obtain ⟨s, hs⟩ := (Shape.exists_reshape_lastTwo_iff (b := m) (t := t) (p := .known 2) (k := k)).2
      fun b' t' p' k' heq => by
        obtain ⟨rfl, rfl, rfl, rfl⟩ : m = .known b' ∧ t = .known t' ∧ 2 = p' ∧ k = .known k' := by
          simpa using heq
        exact hfeatures hjoint y b' t' k' hlayout hdims
    have hreshape : (Layout.planar ⟨[m, t, .known 2, k]⟩ y.elementType).reshape [0, 0, -1] =
        .ok (.planar s y.elementType) := by
      simp only [Layout.reshape, Layout.planar, hs, bind, Except.bind, pure, Except.pure]
    refine (Edit.yields_transpose hfu.retains.wellKept hdeclares htranspose).bind fun _ _ ht => ?_
    exact (Edit.yields_reshape ht.retains.wellKept ht.declares hreshape).mono fun _ _ hr =>
      ht.retains.trans hr.retains

theorem yields_connectState {s : Layout} (hk : h.WellKept) (hs : h.Declares ⟨fused, i⟩ s)
    (htwo : s.shape.dim? 1 = some (.known 2)) :
    (plan.connectState name fused i).Yields h fun _ k => h.Retains k := by
  refine Edit.Yields.get.bind fun _ _ hsame => ?_
  obtain ⟨rfl, rfl⟩ := hsame
  split
  · refine (Edit.yields_split (n := 1) hk hs htwo).bind fun parts k ⟨hretains, hlen⟩ => ?_
    obtain ⟨v, w, rfl⟩ := List.length_eq_two.1 hlen
    exact (Edit.Yields.redirect hretains.wellKept _ v).bind fun _ _ hr =>
      (Edit.Yields.redirect hr.wellKept _ w).bind fun _ _ hr' =>
        .pure ((hretains.trans hr).trans hr')
  · exact .pure (.refl hk)

theorem Aligned.yields_fuse (hal : Aligned g plan concat forward backward a b) (hk : g.WellKept)
    (hd : g.NoDangling) (hf : Fusible g plan) : plan.fuse.Yields g fun done _ => done = true := by
  obtain ⟨y, s, m, t, k, m', k', hy, hs, hdeclares, hresult, hstate⟩ := hal.exists_outputs hk
  have hconnect : ∀ fused h, Fused g plan fused h →
      (plan.connect forward backward fused).Yields h fun done _ => done = true := by
    intro fused h hfu
    obtain ⟨s₁, hs₁, htwo₁⟩ := hfu.states 1 (by decide)
    obtain ⟨s₂, hs₂, htwo₂⟩ := hfu.states 2 (by decide)
    refine (yields_joined hfu ⟨y, m, t, k, hdeclares.layout?, hy⟩ hf.features).bind fun y _ r₁ =>
      (Edit.Yields.redirect r₁.wellKept _ y).bind fun _ _ r₂ => ?_
    have r₂ := r₁.trans r₂
    refine (yields_connectState r₂.wellKept (r₂.declares hs₁) htwo₁).bind fun _ _ r₃ => ?_
    have r₃ := r₂.trans r₃
    refine (yields_connectState r₃.wellKept (r₃.declares hs₂) htwo₂).bind fun _ _ _ =>
      Edit.Yields.get.bind fun _ k _ => ?_
    have heliminate : ∀ ids, (eliminateNodes ids).Yields k fun _ _ => True := fun ids =>
      ⟨_, _, apply_eliminateNodes ids k, trivial⟩
    exact (heliminate _).bind fun _ _ _ => (Edit.Yields.always _).bind fun _ _ _ => .pure rfl
  obtain ⟨done, k, happly, hdone⟩ := (hal.yields_addBoth hk hd hf).bind hconnect
  refine ⟨done, k, ?_, hdone⟩
  rw [apply_fuse (Graph.node?_of_live? hal.forward_node) (Graph.node?_of_live? hal.backward_node)]
  exact happly

/-! ### When a replacement fails -/

theorem exists_concat_of_join {x : Value} {s t : Tensor} {g' : Graph β}
    (hjoin : (join name v w 0).apply g = (.ok x, g')) (hs : g.constant? v = some s)
    (ht : g.constant? w = some t) : ∃ u, Tensor.concat [s, t] 0 = .ok u := by
  obtain ⟨_, _, u, hs', ht', hu, -⟩ | ⟨hnone, -⟩ := apply_join_ok hjoin
  · obtain rfl := Option.some.inj (hs.symm.trans hs')
    obtain rfl := Option.some.inj (ht.symm.trans ht')
    exact ⟨u, hu⟩
  · simp [hs, ht] at hnone

/-- Features that have been put together have divided by the number of the positions. -/
theorem mod_eq_zero_of_joined {y : Layout} {x : Value} {g' : Graph β} {batch time size : Nat}
    (hjoined : (joined .feature name fused).apply g = (.ok x, g'))
    (hlayout : g.layout? ⟨fused, 0⟩ = some (bothDirections y))
    (hdims : y.shape.dims = [.known batch, .known 1, .known time, .known size]) :
    wordCount [batch, time] ≠ 0 ∧
      wordCount [batch, time, 2, size] % wordCount [batch, time] = 0 := by
  have hboth : bothDirections y =
      .planar ⟨[.known batch, .known 2, .known time, .known size]⟩ y.elementType := by
    simp [bothDirections, Shape.setDim, hdims]
  have htranspose : (Layout.planar ⟨[.known batch, .known 2, .known time, .known size]⟩
      y.elementType).transpose [0, 2, 1, 3] =
        .ok (.planar ⟨[.known batch, .known time, .known 2, .known size]⟩ y.elementType) := rfl
  obtain ⟨t, g₁, ht, hx⟩ := Edit.apply_bind_ok_iff.1 hjoined
  obtain ⟨l, l', hl, hl', -, rfl, rfl⟩ := Edit.apply_transpose_ok_iff.1 ht
  obtain rfl := Option.some.inj (hlayout.symm.trans hl)
  rw [hboth] at hl'
  obtain rfl := Except.ok.inj (htranspose.symm.trans hl')
  obtain ⟨l, l', hl, hl', -, -, -⟩ := Edit.apply_reshape_ok_iff.1 hx
  obtain rfl := Option.some.inj (Graph.declares_pushWithInts.layout?.symm.trans hl)
  obtain ⟨s, hs, -⟩ := bind_eq_ok.1 hl'
  exact Shape.exists_reshape_lastTwo_iff.1 ⟨s, hs⟩ batch time 2 size rfl

/-- Where the replacement has succeeded there was nothing in its way. -/
theorem Aligned.fusible_of_fuse (hal : Aligned g plan concat forward backward a b) (hk : g.WellKept)
    (hd : g.NoDangling) {g' : Graph β} (hfuse : plan.fuse.apply g = (.ok true, g')) :
    Fusible g plan := by
  obtain ⟨hfalse, -⟩ | ⟨forward', backward', y, g₁, g₂, g₃, g₄, fused, -, hforward, hbackward, hadd,
    hjoined, -, -, -⟩ := apply_fuse_ok hfuse
  · simp at hfalse
  obtain rfl := Option.some.inj ((Graph.node?_of_live? hal.forward_node).symm.trans hforward)
  obtain rfl := Option.some.inj ((Graph.node?_of_live? hal.backward_node).symm.trans hbackward)
  obtain ⟨vs, ws, h, k₁, c, k₂, w, k₃, r, k₄, bias, k₅, ly, ls, hin, hh, hc, hw, hr, hb, hly, -, -,
    rfl, rfl⟩ := apply_addBoth_ok hadd
  have B₁ : Edit.Built (fun _ => True) g k₁ h := .concat hh (by simp)
  have B₂ : Edit.Built (fun _ => True) k₁ k₂ c := .concat hc (by simp)
  have G₂ := B₁.grows.trans B₂.grows
  have G₃ := G₂.trans (built_join (S := fun _ => True) hw trivial trivial).grows
  have G₄ := G₃.trans (built_join (S := fun _ => True) hr trivial trivial).grows
  have G₅ := G₄.trans (built_join (S := fun _ => True) hb trivial trivial).grows
  -- What is joined later is what the directions have read from the start.
  have hweights : ∀ {i r : Nat} {k k' : Graph β} {x : Value} {name : String},
      (i, r + 1) ∈ operandRanks → i < 7 → g.Retains k →
        (join name (vs i) (ws i) 0).apply k = (.ok x, k') →
      ∀ v w s t, g.input? ⟨plan.forward, i⟩ = some v → g.input? ⟨plan.backward, i⟩ = some w →
        g.constant? v = some s → g.constant? w = some t →
          ∀ n rest, s.shape = n :: rest → isAddressable ((n + n) :: rest) = true := by
    intro i r k k' x name hi hlt hg hjoin
    refine (hal.exists_concat_iff hd hi).1 fun v w s t hv hw hs ht => ?_
    obtain ⟨hv', hw'⟩ := hin i hlt
    obtain rfl := Option.some.inj (hv.symm.trans hv')
    obtain rfl := Option.some.inj (hw.symm.trans hw')
    obtain ⟨_, _, _, hv'', hw'', hl, hl', -, -⟩ := hal.exists_operands hd hi
    obtain rfl := Option.some.inj (hv.symm.trans hv'')
    obtain rfl := Option.some.inj (hw.symm.trans hw'')
    exact exists_concat_of_join hjoin (by rw [hg.constant?_eq hl.hasValue, hs])
      (by rw [hg.constant?_eq hl'.hasValue, ht])
  constructor
  case weights =>
    intro i hi
    simp only [List.mem_cons, List.not_mem_nil, or_false] at hi
    obtain rfl | rfl | rfl := hi
    · exact hweights (r := 2) (by decide) (by decide) (.of_grows hk G₂) hw
    · exact hweights (r := 2) (by decide) (by decide) (.of_grows hk G₃) hr
    · exact hweights (r := 1) (by decide) (by decide) (.of_grows hk G₄) hb
  case features =>
    intro hjoint l batch time size hl hdims
    obtain ⟨y', s', m, t, k, m', k', -, -, hdeclares, hresult, -⟩ := hal.exists_outputs hk
    obtain rfl := Option.some.inj (hdeclares.layout?.symm.trans hl)
    obtain rfl := Option.some.inj
      (((Retains.of_grows hk G₅).declares hresult).layout?.symm.trans hly)
    rw [hjoint] at hjoined
    exact mod_eq_zero_of_joined hjoined (Graph.declares_push_new rfl).layout? hdims

/-- By the time a replacement can fail there are new nodes. -/
theorem Aligned.length_lt_fuse (hal : Aligned g plan concat forward backward a b) (hk : g.WellKept)
    (hd : g.NoDangling) : g.slots.length < (plan.fuse.apply g).2.slots.length := by
  obtain ⟨v, w, hv, hw, hconcat⟩ := hal.yields_concat hd (i := 1) (r := 3) (by decide) (by decide)
    (.refl hk)
  obtain ⟨u, k, happly, -⟩ := hconcat (forward.name ++ "/h_init")
  have hlonger : g.slots.length < k.slots.length := by
    obtain ⟨_, _, _, -, -, -, -, -, rfl⟩ := Edit.apply_concat_ok happly
    rw [Graph.length_slots_push]
    exact Nat.lt_succ_self _
  have hrest : plan.fuse.apply g =
      (addAfter forward backward u >>= plan.connect forward backward).apply k := by
    rw [apply_fuse (Graph.node?_of_live? hal.forward_node) (Graph.node?_of_live? hal.backward_node),
      addBoth_eq, operands]
    simp only [hv, hw, Edit.apply_bind, Edit.apply_pure, happly]
  have hkeeps : Edit.Keeps (fun h => g.slots.length < h.slots.length) (fun _ => True)
      (addAfter forward backward u >>= plan.connect forward backward) :=
    (keeps_addAfter (Edit.replaceable_longer _).toExtensible (fun _ _ => trivial) trivial).bind
      fun _ hnew => keeps_connect (Edit.replaceable_longer _) (fun _ _ => trivial) hnew
  rw [hrest]
  exact (hkeeps k hlonger).1

theorem Aligned.fuse_ne_false (hal : Aligned g plan concat forward backward a b) (hk : g.WellKept)
    (hd : g.NoDangling) : (plan.fuse.apply g).1 ≠ .ok false := by
  intro hfalse
  have hlonger := hal.length_lt_fuse hk hd
  have hfuse : plan.fuse.apply g = (.ok false, (plan.fuse.apply g).2) := by rw [← hfalse]
  obtain ⟨-, hsame⟩ | ⟨_, _, _, _, _, _, _, _, hdone, -⟩ := apply_fuse_ok hfuse
  · rw [hsame] at hlonger
    exact Nat.lt_irrefl _ hlonger
  · simp at hdone

/-- **When a replacement succeeds.** -/
theorem Aligned.fuse_ok_iff (hal : Aligned g plan concat forward backward a b) (hk : g.WellKept)
    (hd : g.NoDangling) : (plan.fuse.apply g).1 = .ok true ↔ Fusible g plan := by
  constructor
  · intro hfuse
    have hpair : plan.fuse.apply g = (.ok true, (plan.fuse.apply g).2) := by rw [← hfuse]
    exact hal.fusible_of_fuse hk hd hpair
  · intro hf
    obtain ⟨_, _, happly, rfl⟩ := hal.yields_fuse hk hd hf
    rw [happly]

/-- The plan for a match at a node is the only one there, whichever output has been matched. -/
theorem IsFoundAt.exists_aligned (hk : g.WellKept) (hplan : plan.IsFoundAt g id) :
    plan.concat = id ∧ ∃ concat forward backward a b,
      Aligned g plan concat forward backward a b := by
  obtain ⟨m, ⟨n, i, hn, -, hm⟩, hfind⟩ := hplan
  obtain ⟨_, _, _, _, _, _, _, _, _, hr⟩ :=
    exists_reading isBidirectional_bidirectionalPattern hk.numbered hm hfind
  exact ⟨hr.ids_eq.1, _, _, _, _, _, hr.aligned⟩

theorem apply_action_of_found {m : Match}
    (hfind : find? g (bidirectionalPattern (β := β)).2 m = some plan) :
    (bidirectionalRule.action m : Edit β Bool).apply g = plan.fuse.apply g := by
  rw [apply_action]
  have h : find? g ⟨7, 13, 14, 15⟩ m = some plan := hfind
  simp only [h]

/-- **The rule either applies or leaves the graph as it is** exactly if nothing is in the way of the
plan that it has found, if it has found one. -/
theorem atomic_attempt_iff (hk : g.WellKept) (hd : g.NoDangling) (id : Nat) :
    bidirectionalRule.AtomicAt g id ↔ ∀ plan, IsFoundAt plan g id → Fusible g plan := by
  have hdecided : ∀ m, bidirectionalRule.MatchesAt g id m →
      ((bidirectionalRule.action m).apply g).1 ≠ .ok false → ∃ plan, IsFoundAt plan g id ∧
        (bidirectionalRule.action m).apply g = plan.fuse.apply g := by
    intro m hm hact
    cases hfind : find? g (bidirectionalPattern (β := β)).2 m with
    | some plan => exact ⟨plan, ⟨m, hm, hfind⟩, apply_action_of_found hfind⟩
    | none =>
      have hnone : find? g ⟨7, 13, 14, 15⟩ m = none := hfind
      rw [apply_action, hnone] at hact
      exact absurd rfl hact
  by_cases hfound : ∃ plan : BidirectionalPlan, plan.IsFoundAt g id
  · obtain ⟨plan, hplan⟩ := hfound
    obtain ⟨hid, _, _, _, _, _, hal⟩ := hplan.exists_aligned hk
    have hone : ∀ plan', IsFoundAt plan' g id → plan' = plan := by
      intro plan' hplan'
      obtain ⟨hid', _, _, _, _, _, hal'⟩ := hplan'.exists_aligned hk
      exact hal'.plan_unique hal (hid'.trans hid.symm)
    obtain ⟨m, hm, hfind⟩ := hplan
    have hact := apply_action_of_found hfind
    rw [Rule.atomicAt_iff declines_bidirectionalRule hm, hact, hal.fuse_ok_iff hk hd]
    · have hchanged : (plan.fuse.apply g).2 ≠ g := fun h =>
        absurd (hal.length_lt_fuse hk hd) (by rw [h]; exact Nat.lt_irrefl _)
      rw [or_iff_left hchanged]
      exact ⟨fun hf plan' hplan' => hone plan' hplan' ▸ hf, fun hall => hall plan ⟨m, hm, hfind⟩⟩
    · rw [hact]
      exact hal.fuse_ne_false hk hd
    · intro m' hm' hact'
      obtain ⟨plan', hplan', hsame⟩ := hdecided m' hm' hact'
      rw [hact, hsame, hone plan' hplan']
  · refine iff_of_true (Rule.atomicAt_of_declined declines_bidirectionalRule fun m hm => ?_)
      fun plan hplan => absurd ⟨plan, hplan⟩ hfound
    by_contra hact
    obtain ⟨plan, hplan, -⟩ := hdecided m hm hact
    exact hfound ⟨plan, hplan⟩

/-! ### Two directions over a batch of any size -/

/-- A sequence node over a batch of the given size, whose operands are the first seven nodes. -/
def batchDirectionSpec (batch : Nat) (direction : String) : NodeSpec Unit :=
  { directionSpec direction with
    outputs := [.planar (.ofLengths [batch, 1, 5, 2]) .f32, .planar (.ofLengths [batch, 1, 2]) .f32,
      .planar (.ofLengths [batch, 1, 2]) .f32] }

/-- Two directions, numbers 7 and 8, whose results lose the axis for the directions and have their
features put together by the node 12. -/
def joinedFeaturesSpecs (batch : Nat) : List (NodeSpec Unit) :=
  [parameterSpec [batch, 5, 3], parameterSpec [batch], parameterSpec [batch, 1, 2],
    parameterSpec [batch, 1, 2], parameterSpec [1, 8, 3], parameterSpec [1, 8, 2],
    parameterSpec [1, 8], batchDirectionSpec batch "forward", batchDirectionSpec batch "reverse",
    Graph.constantSpec "axes" (.vector [1]),
    { op := .squeeze
      inputs := [⟨7, 0⟩, ⟨9, 0⟩]
      outputs := [.planar (.ofLengths [batch, 5, 2]) .f32] },
    { op := .squeeze
      inputs := [⟨8, 0⟩, ⟨9, 0⟩]
      outputs := [.planar (.ofLengths [batch, 5, 2]) .f32] },
    { op := .concat
      inputs := [⟨10, 0⟩, ⟨11, 0⟩]
      outputs := [.planar (.ofLengths [batch, 5, 4]) .f32]
      attributes := Attributes.empty.insert "axis" (.int 2) }]

def joinedFeatures (batch : Nat) : Graph Unit :=
  .ofSpecs (joinedFeaturesSpecs batch) [⟨12, 0⟩]

theorem joinedFeatures_sound (batch : Nat) :
    (joinedFeatures batch).WellKept ∧ (joinedFeatures batch).Acyclic ∧
      (joinedFeatures batch).NoDangling :=
  Graph.ofSpecs_sound (joinedFeaturesSpecs batch) _ (by rfl) (by rfl)

/-- The features of a batch of two are put together, and nothing was in the way. -/
theorem atomic_attempt_joinedFeatures :
    ((joinedFeatures 2).WellKept ∧ (joinedFeatures 2).NoDangling) ∧
      ((bidirectionalRule.attempt 12).apply (joinedFeatures 2)).1 =
        .ok (.applied [12, 10, 7, 11, 8]) ∧
      ∀ plan, IsFoundAt plan (joinedFeatures 2) 12 → Fusible (joinedFeatures 2) plan := by
  obtain ⟨hk, -, hd⟩ := joinedFeatures_sound 2
  have happlied : ((bidirectionalRule.attempt 12).apply (joinedFeatures 2)).1 =
      .ok (.applied [12, 10, 7, 11, 8]) := by
    decide +kernel
  exact ⟨⟨hk, hd⟩, happlied, (atomic_attempt_iff hk hd 12).1 (.inl ⟨_, happlied⟩)⟩

/-- The features of an empty batch cannot be put together, which the rule finds out after it has added
the bidirectional node. -/
theorem exists_partial_fusion :
    ¬ ∀ (g : Graph Unit) (id : Nat), g.WellKept → g.NoDangling → bidirectionalRule.AtomicAt g id := by
  intro hall
  obtain ⟨hk, -, hd⟩ := joinedFeatures_sound 0
  obtain ⟨nodes, happlied⟩ | hsame := hall (joinedFeatures 0) 12 hk hd
  · have hfailed : ((bidirectionalRule.attempt 12).apply (joinedFeatures 0)).1 =
        .error (.shapeMismatch (.reshape (.ofLengths [0, 5, 2, 2]) [0, 0, -1])) := by
      decide +kernel
    simp [hfailed] at happlied
  · have hgrown : ((bidirectionalRule.attempt 12).apply (joinedFeatures 0)).2.slots.length = 21 := by
      decide +kernel
    rw [hsame] at hgrown
    exact absurd hgrown (by decide +kernel)

end BidirectionalPlan

end Dataflow
