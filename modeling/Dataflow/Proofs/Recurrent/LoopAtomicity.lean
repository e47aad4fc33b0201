import Dataflow.Proofs.Recurrent.Replacements
import Dataflow.Proofs.Success

/-!
# When a loop is replaced halfway

The search for a loop that can become a sequence node looks at the rank of the sequence and at the
shapes of the weights, but not at the layouts of the initial states.  A state that is declared to be a
scalar gets no axis for the directions, and by the time this is found out the graph may have new nodes.
The other thing in the way is a batch so large that there is no room for a list of its lengths.  In all
other cases the replacement succeeds.

## Main definitions

* `LoopPlan.Accepts` : a rule has found a plan at a node.
* `LoopPlan.Buildable` : what a replacement needs beyond what the search has checked.
* `LoopPlan.FailsFirst` : the very first step of a replacement fails.
* `LoopPlan.timeMajorLoop` : the graph of a loop in time-major order.

## Main statements

* `LoopPlan.Fits.build_ok_iff` : when a replacement succeeds.
* `LoopPlan.Fits.build_unchanged_iff` : when it leaves the graph as it is.
* `LoopPlan.atomic_convert_iff` : when a rule either applies or leaves the graph as it is.
-/

namespace Dataflow

open Dataflow.Graph (Retains)

namespace LoopPlan

variable {g h : Graph Body} {plan : LoopPlan} {loop : Node Body} {body : Body} {step : CellStep}
  {walk : Walk} {v w : Value} {rule : Rule Body} {id : Nat}

/-- What a replacement needs beyond what the search has checked. -/
structure Buildable (g : Graph Body) (plan : LoopPlan) : Prop where
  /-- The initial states are no scalars. -/
  states : ∀ v ∈ plan.states, ∀ l, g.layout? v = some l → l.shape.rank ≠ 0
  /-- If the batch and the time are known, a list with an entry for each sequence has room. -/
  lengths : ∀ l batch time, g.layout? plan.x = some l →
    l.shape.dim? (1 - plan.timeAxis) = some (.known batch) →
      l.shape.dim? plan.timeAxis = some (.known time) → batch ≤ Word.maxInts

/-- The first step of a replacement fails: there is nothing to transpose, and the initial hidden state
is a scalar. -/
def FailsFirst (g : Graph Body) (plan : LoopPlan) : Prop :=
  plan.timeAxis ≠ 0 ∧ ∀ l, g.layout? plan.h = some l → l.shape.rank = 0

theorem dim_of_dim? {s : Shape} {axis : Nat} {d : Dim} (h : s.dim? axis = some d) :
    s.dim axis = .ok d := by
  simp only [Shape.dim, h]

/-! ### The operands -/

section Fits

variable (hf : plan.Fits g loop body step walk) (hloop : g.live? plan.loop = some loop)
  (hk : g.WellKept) (hd : g.NoDangling)
include hf hloop hd

theorem Fits.exists_state (hv : v ∈ plan.states) : ∃ l, g.Declares v l := by
  obtain ⟨u, hu, -⟩ := Graph.reads_of_mem hloop (hf.states_mem v hv)
  exact Graph.exists_declares (hd.reads hu)

include hk

/-- The sequence can be put in batch-major order. -/
theorem Fits.yields_batchMajor : ∃ l batch time, g.layout? plan.x = some l ∧
    l.shape.dim? (1 - plan.timeAxis) = some batch ∧ l.shape.dim? plan.timeAxis = some time ∧
      plan.batchMajor.Yields g fun x h => g.Retains h ∧ (plan.timeAxis ≠ 0 → g = h) ∧
        (plan.timeAxis = 0 → g.slots.length < h.slots.length) ∧
          ∃ l', h.Declares x l' ∧ l'.shape.dim? 0 = some batch ∧ l'.shape.dim? 1 = some time := by
  obtain ⟨l, hl, hrank⟩ := hf.layout
  obtain ⟨u, hu, -⟩ := Graph.reads_of_mem hloop hf.x_mem
  have hx := Graph.declares_of_layout? (hd.reads hu) hl
  obtain ⟨⟨dims⟩, type, format⟩ := l
  match dims, hrank with
  | [d, e, k], _ =>
    obtain htime | htime : plan.timeAxis = 0 ∨ plan.timeAxis = 1 := by
      have := hf.axis_le
      omega
    · have htranspose : (Layout.mk ⟨[d, e, k]⟩ type format).transpose [1, 0, 2] =
          .ok (.planar ⟨[e, d, k]⟩ type) := rfl
      refine ⟨_, e, d, hl, by rw [htime]; rfl, by rw [htime]; rfl, ?_⟩
      rw [batchMajor, if_pos htime]
      have hyields : (Edit.transpose (plan.part "x_batch_major") plan.x [1, 0, 2]).Yields g
          (Edit.Made g (.planar ⟨[e, d, k]⟩ type)) := Edit.yields_transpose hk hx htranspose
      obtain ⟨x, h, happly, hmade⟩ := hyields
      refine ⟨x, h, happly, hmade.retains, absurd htime, fun _ => ?_, _, hmade.declares, rfl, rfl⟩
      obtain ⟨_, _, -, -, -, -, rfl⟩ := Edit.apply_transpose_ok_iff.1 happly
      rw [Graph.pushWithInts, Graph.length_slots_push, Graph.length_slots_push]
      omega
    · have hne : plan.timeAxis ≠ 0 := by omega
      refine ⟨_, d, e, hl, by rw [htime]; rfl, by rw [htime]; rfl, ?_⟩
      rw [batchMajor, if_neg hne]
      exact .pure ⟨.refl hk, fun _ => rfl, fun h => absurd h hne, _, hx, rfl, rfl⟩

end Fits

/-! ### When a replacement succeeds -/

theorem yields_addWeight (hk : g.WellKept) (suffix : String) (t : Tensor) :
    (plan.addWeight suffix t).Yields g fun u h => g.Retains h ∧ h.hasValue u = true := by
  refine (Edit.Yields.pureExcept (if_pos (Nat.zero_le _))).bind fun _ _ hsame => ?_
  obtain ⟨rfl, rfl⟩ := hsame
  exact (Edit.yields_addConstant hk _).mono fun _ _ h => ⟨h.retains, h.declares.hasValue⟩

/-- A state that is no scalar gets an axis for the directions. -/
theorem yields_unsqueeze {l : Layout} {name : String} (hk : g.WellKept) (hv : g.Declares v l)
    (hrank : l.shape.rank ≠ 0) : (Edit.unsqueeze name v 1).Yields g fun u h =>
      g.slots.length < h.slots.length ∧ g.Retains h ∧ h.hasValue u = true := by
  have hyields : (Edit.unsqueeze name v 1).Yields g (Edit.Made g _) :=
    Edit.yields_unsqueeze hk hv (if_pos (Nat.one_le_iff_ne_zero.2 hrank))
  obtain ⟨u, h, happly, hmade⟩ := hyields
  refine ⟨u, h, happly, ?_, hmade.retains, hmade.declares.hasValue⟩
  obtain ⟨_, _, -, -, -, -, rfl⟩ := Edit.apply_unsqueeze_ok_iff.1 happly
  rw [Graph.pushWithInts, Graph.length_slots_push, Graph.length_slots_push]
  omega

/-- The sequence node is there, with the sequence of hidden states and the last states as outputs. -/
structure Sequenced (g : Graph Body) (plan : LoopPlan) (sequence : Nat) (h : Graph Body) : Prop where
  retains : g.Retains h
  declares : ∀ i ≤ plan.kind.stateCount, ∃ l, h.Declares ⟨sequence, i⟩ l ∧
    l.shape.dim? 1 = some (.known 1) ∧ (i = 0 → l.shape.rank = 4)

theorem yields_addLast {x : Value} {l : Layout} {batch time : Dim} {states : List Value}
    (hk : g.WellKept) (hx : g.Declares x l) (hbatch : l.shape.dim? 0 = some batch)
    (htime : l.shape.dim? 1 = some time)
    (hroom : ∀ b t, batch = .known b → time = .known t → b ≤ Word.maxInts)
    (hstates : ∀ v ∈ states, g.hasValue v = true) :
    (plan.addLast x l batch time states).Yields g (Sequenced g plan) := by
  refine (Edit.yields_sequenceLengths hk hx hbatch htime hroom).bind fun lengths k₁ ⟨r₁, hlengths⟩ =>
    (yields_addWeight r₁.wellKept "W" plan.w).bind fun w k₂ ⟨r₂, hw⟩ =>
      (yields_addWeight r₂.wellKept "R" plan.r).bind fun r k₃ ⟨r₃, hr⟩ =>
        (yields_addWeight r₃.wellKept "B" plan.b).bind fun b k₄ ⟨r₄, hb⟩ =>
          (Edit.Yields.addNode fun v hv => ?_).mono fun sequence k hnew => ?_
  · have hlast := ((r₁.trans r₂).trans r₃).trans r₄
    simp only [sequenceSpec, List.mem_append, List.mem_cons, List.not_mem_nil, or_false] at hv
    obtain (rfl | hv) | rfl | rfl | rfl | rfl := hv
    · exact hlast.hasValue hx.hasValue
    · exact hlast.hasValue (hstates v hv)
    · exact ((r₂.trans r₃).trans r₄).hasValue hlengths
    · exact (r₃.trans r₄).hasValue hw
    · exact r₄.hasValue hr
    · exact hb
  · obtain ⟨rfl, rfl⟩ := hnew
    refine ⟨(((r₁.trans r₂).trans r₃).trans r₄).push _, fun i hi => ?_⟩
    cases i with
    | zero => exact ⟨_, Graph.declares_push_new rfl, rfl, fun _ => rfl⟩
    | succ i =>
      refine ⟨.planar ⟨[batch, .known 1, .known plan.hidden]⟩ l.elementType,
        Graph.declares_push_new ?_, rfl, by simp⟩
      simp only [sequenceSpec, List.getElem?_cons_succ, List.getElem?_replicate]
      exact if_pos hi

theorem yields_addRest {x hidden : Value} {l : Layout} {batch time : Dim} (hk : g.WellKept)
    (hx : g.Declares x l) (hbatch : l.shape.dim? 0 = some batch) (htime : l.shape.dim? 1 = some time)
    (hroom : ∀ b t, batch = .known b → time = .known t → b ≤ Word.maxInts)
    (hhidden : g.hasValue hidden = true)
    (hc : ∀ c ∈ plan.c, ∃ s, g.Declares c s ∧ s.shape.rank ≠ 0) :
    (plan.addRest x l batch time hidden).Yields g (Sequenced g plan) := by
  unfold addRest
  split
  · next c hplan =>
    obtain ⟨s, hs, hrank⟩ := hc c hplan
    refine (yields_unsqueeze hk hs hrank).bind ?_
    rintro c k ⟨-, hretains, hval⟩
    exact (yields_addLast hretains.wellKept (hretains.declares hx) hbatch htime hroom
      (by simpa using ⟨hretains.hasValue hhidden, hval⟩)).mono fun _ _ hs =>
        ⟨hretains.trans hs.retains, hs.declares⟩
  · exact yields_addLast hk hx hbatch htime hroom (by simpa using hhidden)

theorem retains_redirected (hk : g.WellKept) (i : Nat) (v : Value) (outputs : List Nat) :
    g.Retains (redirected i v outputs g) := by
  induction outputs generalizing g with
  | nil => exact .refl hk
  | cons j rest ih =>
    have hfirst := (Retains.refl hk).redirect ⟨i, j⟩ v
    exact hfirst.trans (ih hfirst.wellKept)

theorem yields_redirectOutputs (hk : g.WellKept) (v : Value) (outputs : List Nat) :
    (plan.redirectOutputs v outputs).Yields g fun _ h => g.Retains h :=
  ⟨(), _, apply_redirectOutputs_ok.2 rfl, retains_redirected hk plan.loop v outputs⟩

theorem yields_connectSequence {sequence : Nat} {l : Layout} (hk : g.WellKept)
    (hs : g.Declares ⟨sequence, 0⟩ l) (hone : l.shape.dim? 1 = some (.known 1))
    (hrank : l.shape.rank = 4) :
    (plan.connectSequence sequence).Yields g fun _ h => g.Retains h := by
  obtain ⟨⟨dims⟩, type, format⟩ := l
  match dims, hrank with
  | [m, d, t, k], _ =>
    obtain rfl : d = .known 1 := Option.some.inj hone
    have hsqueeze : (Layout.mk ⟨[m, .known 1, t, k]⟩ type format).squeeze 1 =
        .ok (.planar ⟨[m, t, k]⟩ type) := rfl
    have htranspose : (Layout.planar ⟨[m, t, k]⟩ type).transpose [1, 0, 2] =
        .ok (.planar ⟨[t, m, k]⟩ type) := rfl
    unfold connectSequence
    dsimp only
    split
    · refine (Edit.yields_squeeze hk hs hsqueeze).bind fun y h hy => ?_
      split
      · refine (Edit.yields_transpose hy.retains.wellKept hy.declares htranspose).bind
          fun z k hz => (yields_redirectOutputs hz.retains.wellKept z _).mono fun _ _ hr => ?_
        exact (hy.retains.trans hz.retains).trans hr
      · exact (yields_redirectOutputs hy.retains.wellKept y _).mono fun _ _ hr => hy.retains.trans hr
    · exact .pure (.refl hk)

theorem yields_connectState {result : LoopResult} {suffix : String} (hk : g.WellKept)
    (hs : plan.outputsOf result ≠ [] → ∃ l, g.Declares v l ∧ l.shape.dim? 1 = some (.known 1)) :
    (plan.connectState result suffix v).Yields g fun _ h => g.Retains h := by
  unfold connectState
  dsimp only
  split
  · next hsome =>
    obtain ⟨l, hl, hone⟩ := hs fun hnil => by simp [hnil] at hsome
    have hsqueeze : l.squeeze 1 = .ok (.planar (l.shape.dropAxis 1) l.elementType) := by
      simp only [Layout.squeeze, hone]
    exact (Edit.yields_squeeze hk hl hsqueeze).bind fun y h hy =>
      (yields_redirectOutputs hy.retains.wellKept y _).mono fun _ _ hr => hy.retains.trans hr
  · exact .pure (.refl hk)

theorem hasCellState_of_loopResult? {kind : Cell} {axis output : Nat} {d : OutputMap}
    (h : loopResult? kind body step walk axis d = some (.cell, output)) :
    kind.hasCellState = true := by
  obtain ⟨v, -, h⟩ := Option.bind_eq_some_iff.1 h
  cases d with
  | concat r output' w =>
    obtain ⟨_, -, h⟩ := Option.bind_eq_some_iff.1 h
    simp at h
  | last r output' =>
    dsimp only at h
    split at h
    · simp at h
    · split at h
      · next hcell => exact hcell.1
      · simp at h

/-- Only a cell with a cell state has one as a result. -/
theorem Fits.stateCount_of_cell (hf : plan.Fits g loop body step walk)
    (hcell : plan.outputsOf .cell ≠ []) : plan.kind.stateCount = 2 := by
  obtain ⟨i, hi⟩ := List.exists_mem_of_ne_nil _ hcell
  obtain ⟨j, hj⟩ := List.mem_iff_getElem?.1 (mem_outputsOf.1 hi)
  obtain ⟨d, -, hd⟩ := exists_of_forall₂_right (mapM_eq_some_iff.1 hf.results) hj
  exact if_pos (hasCellState_of_loopResult? hd)

theorem Fits.yields_connect (hf : plan.Fits g loop body step walk) {sequence : Nat}
    (hs : Sequenced g plan sequence h) :
    (plan.connect sequence).Yields h fun done _ => done = true := by
  have hstate : ∀ i ≤ plan.kind.stateCount, ∀ {k}, h.Retains k →
      ∃ l, k.Declares ⟨sequence, i⟩ l ∧ l.shape.dim? 1 = some (.known 1) := by
    intro i hi k hk
    obtain ⟨l, hl, hone, -⟩ := hs.declares i hi
    exact ⟨l, hk.declares hl, hone⟩
  have hcount : 1 ≤ plan.kind.stateCount := by
    unfold Cell.stateCount
    split <;> decide
  obtain ⟨l, hl, hone, hrank⟩ := hs.declares 0 (Nat.zero_le _)
  refine (yields_connectSequence hs.retains.wellKept hl hone (hrank rfl)).bind fun _ _ r₁ =>
    (yields_connectState r₁.wellKept fun _ => hstate 1 hcount r₁).bind fun _ _ r₂ =>
      (yields_connectState r₂.wellKept fun hcell =>
        hstate 2 (Nat.le_of_eq (hf.stateCount_of_cell hcell).symm) (r₁.trans r₂)).bind fun _ _ _ =>
          Edit.Yields.get.bind fun _ _ _ => (Edit.Yields.always _).bind fun _ _ _ =>
            (Edit.Yields.always _).bind fun _ _ _ => .pure rfl

/-- States that have been given an axis are no scalars. -/
theorem Unsqueezed.rank_ne_zero {vs ws : List Value} (hs : Unsqueezed g vs h ws) (hk : g.WellKept) :
    g.Retains h ∧ ∀ v ∈ vs, ∀ l, g.Declares v l → l.shape.rank ≠ 0 := by
  induction hs with
  | nil => exact ⟨.refl hk, by simp⟩
  | cons hv _ ih =>
    have hbuilt : Edit.Built (fun _ => True) _ _ _ := .unsqueeze hv trivial fun _ _ => trivial
    have hfirst := Retains.of_grows hk hbuilt.grows
    obtain ⟨l, l', hl, hl', -, -, -⟩ := Edit.apply_unsqueeze_ok_iff.1 hv
    obtain ⟨hrest, hstates⟩ := ih hfirst.wellKept
    refine ⟨hfirst.trans hrest, List.forall_mem_cons.2 ⟨fun m hm hzero => ?_, fun v hv m hm =>
      hstates v hv m (hfirst.declares hm)⟩⟩
    obtain rfl := Option.some.inj (hm.layout?.symm.trans hl)
    simp [Layout.unsqueeze, hzero] at hl'

section Fits

variable (hf : plan.Fits g loop body step walk) (hloop : g.live? plan.loop = some loop)
  (hk : g.WellKept) (hd : g.NoDangling)
include hf hloop hk hd

theorem Fits.yields_build (hb : Buildable g plan) :
    plan.build.Yields g fun done _ => done = true := by
  obtain ⟨l, batch, time, hl, hbatch, htime, hmajor⟩ := hf.yields_batchMajor hloop hk hd
  have hstate : ∀ v ∈ plan.states, ∃ s, g.Declares v s ∧ s.shape.rank ≠ 0 := by
    intro v hv
    obtain ⟨s, hs⟩ := hf.exists_state hloop hd hv
    exact ⟨s, hs, hb.states v hv s hs.layout?⟩
  have hadd : plan.addSequence.Yields g (Sequenced g plan) := by
    rw [addSequence_eq]
    refine hmajor.bind fun x h ⟨r₁, _, _, l', hx, hbatch', htime'⟩ => ?_
    refine (Edit.Yields.layoutOf hx.layout?).bind fun _ _ hsame => ?_
    obtain ⟨rfl, rfl⟩ := hsame
    refine (Edit.Yields.pureExcept (dim_of_dim? hbatch')).bind fun _ _ hsame => ?_
    obtain ⟨rfl, rfl⟩ := hsame
    refine (Edit.Yields.pureExcept (dim_of_dim? htime')).bind fun _ _ hsame => ?_
    obtain ⟨rfl, rfl⟩ := hsame
    obtain ⟨s, hs, hrank⟩ := hstate plan.h List.mem_cons_self
    refine (yields_unsqueeze r₁.wellKept (r₁.declares hs) hrank).bind
      fun hidden k ⟨_, r₂, hhidden⟩ => ?_
    refine (yields_addRest r₂.wellKept (r₂.declares hx) hbatch' htime' ?_ hhidden ?_).mono
      fun _ _ hsequenced => ⟨(r₁.trans r₂).trans hsequenced.retains, hsequenced.declares⟩
    · rintro b t rfl rfl
      exact hb.lengths l b t hl hbatch htime
    · intro c hc
      obtain ⟨s, hs, hrank⟩ := hstate c (List.mem_cons_of_mem _ (Option.mem_toList.2 hc))
      exact ⟨s, (r₁.trans r₂).declares hs, hrank⟩
  rw [build_eq]
  exact hadd.bind fun _ _ hsequenced => hf.yields_connect hsequenced

/-! ### When a replacement fails -/

/-- Where the replacement has succeeded there was nothing in its way. -/
theorem Fits.buildable_of_build {g' : Graph Body} (hbuild : plan.build.apply g = (.ok true, g')) :
    Buildable g plan := by
  obtain ⟨a, _, _, _, ha, -⟩ := apply_build_ok hbuild
  obtain ⟨l, batch, time, hl, hbatch, htime, x, first, happly, r₁, -, -, l', hx, hbatch', htime'⟩ :=
    hf.yields_batchMajor hloop hk hd
  obtain ⟨rfl, rfl⟩ : x = a.x ∧ first = a.first := by
    simpa using happly.symm.trans ha.apply_x
  obtain rfl := Option.some.inj (hx.layout?.symm.trans ha.layout_x)
  obtain ⟨r₂, hstates⟩ := ha.unsqueezed.rank_ne_zero r₁.wellKept
  constructor
  case states =>
    intro v hv l hl
    obtain ⟨l', hl'⟩ := hf.exists_state hloop hd hv
    obtain rfl := Option.some.inj (hl'.layout?.symm.trans hl)
    exact hstates v hv l' (r₁.declares hl')
  case lengths =>
    intro m b t hm hb ht
    obtain rfl := Option.some.inj (hm.symm.trans hl)
    obtain rfl := Option.some.inj (hb.symm.trans hbatch)
    obtain rfl := Option.some.inj (ht.symm.trans htime)
    exact Edit.le_of_sequenceLengths ha.apply_lengths (r₂.declares hx).layout? hbatch' htime'

/-- **When a replacement succeeds.** -/
theorem Fits.build_ok_iff : (plan.build.apply g).1 = .ok true ↔ Buildable g plan := by
  constructor
  · intro hbuild
    have hpair : plan.build.apply g = (.ok true, (plan.build.apply g).2) := by rw [← hbuild]
    exact hf.buildable_of_build hloop hk hd hpair
  · intro hb
    obtain ⟨_, _, happly, rfl⟩ := hf.yields_build hloop hk hd hb
    rw [happly]

/-- The replacement leaves the graph as it is only if its first step fails: afterwards there are new
nodes. -/
theorem Fits.build_unchanged_iff : (plan.build.apply g).2 = g ↔ FailsFirst g plan := by
  obtain ⟨l, batch, time, -, -, -, x, h, happly, r₁, hsame, hlonger, l', hx, hbatch, htime⟩ :=
    hf.yields_batchMajor hloop hk hd
  obtain ⟨s, hs⟩ := hf.exists_state hloop hd List.mem_cons_self
  have hbuild : plan.build.apply g = (plan.addFrom x >>= plan.connect).apply h := by
    rw [build_eq, addSequence_eq, Edit.apply_bind, Edit.apply_bind_of_ok happly, ← Edit.apply_bind]
  have hadd : (plan.addFrom x).apply h = (do
      let hidden ← Edit.unsqueeze (plan.part "h_init") plan.h 1
      plan.addRest x l' batch time hidden).apply h := by
    rw [addFrom, Edit.apply_bind_of_ok (Edit.apply_layoutOf_ok_iff.2 ⟨hx.layout?, rfl⟩),
      Edit.apply_bind_of_ok (Edit.apply_pureExcept_ok_iff.2 ⟨dim_of_dim? hbatch, rfl⟩),
      Edit.apply_bind_of_ok (Edit.apply_pureExcept_ok_iff.2 ⟨dim_of_dim? htime, rfl⟩)]
  have hQ := Edit.replaceable_longer (β := Body) g.slots.length
  have hgrown : g.slots.length < (plan.build.apply g).2.slots.length → (plan.build.apply g).2 ≠ g :=
    fun hlt heq => by
      rw [heq] at hlt
      exact Nat.lt_irrefl _ hlt
  have hconnect : ∀ sequence, Edit.Keeps (fun h => g.slots.length < h.slots.length) (fun _ => True)
      (plan.connect sequence) := fun _ => keeps_connect hQ trivial fun _ => trivial
  by_cases hzero : plan.timeAxis = 0
  · refine iff_of_false (hgrown ?_) fun hfails => hfails.1 hzero
    rw [hbuild]
    exact (((keeps_addFrom hQ.toExtensible trivial fun _ _ => trivial).bind
      fun _ _ => hconnect _) h (hlonger hzero)).1
  · obtain rfl := hsame hzero
    by_cases hrank : s.shape.rank = 0
    · refine iff_of_true ?_ ⟨hzero, fun l hl => ?_⟩
      · have hlt : s.shape.rank < 1 := by omega
        have hfailed : ∃ e, (Edit.unsqueeze (plan.part "h_init") plan.h 1).apply g = (.error e, g) :=
          Edit.apply_unsqueeze_of_lt hs.layout? hlt
        obtain ⟨e, he⟩ := hfailed
        rw [hbuild, Edit.apply_bind, hadd, Edit.apply_bind, he]
      · obtain rfl := Option.some.inj (hs.layout?.symm.trans hl)
        exact hrank
    · have hyields : (Edit.unsqueeze (plan.part "h_init") plan.h 1).Yields g _ :=
        yields_unsqueeze hk hs hrank
      obtain ⟨hidden, k, hhidden, hlt, -⟩ := hyields
      refine iff_of_false (hgrown ?_) fun hfails => hrank (hfails.2 s hs.layout?)
      rw [hbuild, Edit.apply_bind, hadd, Edit.apply_bind_of_ok hhidden, ← Edit.apply_bind]
      exact (((keeps_addRest hQ.toExtensible trivial trivial fun _ _ => trivial).bind
        fun _ _ => hconnect _) k hlt).1

end Fits

/-! ### The rules -/

/-- The rule has found the plan at the node: an iterator over the kind of cell, or a loop over a long
short-term memory that runs over the whole input. -/
inductive Accepts (g : Graph Body) (id : Nat) (plan : LoopPlan) : Rule Body → Prop
  | iterator {kind : Cell} {m : Match} (hm : (iteratorRule kind).MatchesAt g id m)
      (hfind : find? g id kind = some plan) : Accepts g id plan (iteratorRule kind)
  | loop {m : Match} (hm : loopRule.MatchesAt g id m) (hfind : find? g id .lstm = some plan)
      (hplain : plan.isPlain g = true) : Accepts g id plan loopRule

theorem root_of_matchesAt (hrule : rule ∈ conversions) {m : Match} (hm : rule.MatchesAt g id m) :
    m.root.node = id := by
  obtain ⟨n, i, hn, -, hm⟩ := hm
  obtain rfl | hrule := List.mem_cons.1 hrule
  · rw [(op_of_matchValue_loopPattern hm hn).2]
  · obtain ⟨kind, -, rfl⟩ := List.mem_map.1 hrule
    rw [(op_of_matchValue_loopPattern hm hn).2]

/-- The action of a rule looks at nothing but the node of the match. -/
theorem apply_action_eq (hrule : rule ∈ conversions) {m m' : Match} (hm : rule.MatchesAt g id m)
    (hm' : rule.MatchesAt g id m') : (rule.action m').apply g = (rule.action m).apply g := by
  have hroot : m'.root.node = m.root.node :=
    (root_of_matchesAt hrule hm').trans (root_of_matchesAt hrule hm).symm
  obtain rfl | hrule := List.mem_cons.1 hrule
  · rw [apply_loopAction, apply_loopAction, hroot]
  · obtain ⟨kind, -, rfl⟩ := List.mem_map.1 hrule
    rw [apply_iteratorAction, apply_iteratorAction, hroot]

/-- A match that is not declined has a plan. -/
theorem exists_accepts (hrule : rule ∈ conversions) {m : Match} (hm : rule.MatchesAt g id m)
    (hact : ((rule.action m).apply g).1 ≠ .ok false) : ∃ plan, Accepts g id plan rule := by
  have hroot := root_of_matchesAt hrule hm
  obtain rfl | hrule := List.mem_cons.1 hrule
  · rw [apply_loopAction, hroot] at hact
    split at hact
    · next plan hplan =>
      split at hact
      · next hplain => exact ⟨plan, .loop hm hplan hplain⟩
      · exact absurd rfl hact
    · exact absurd rfl hact
  · obtain ⟨kind, -, rfl⟩ := List.mem_map.1 hrule
    rw [apply_iteratorAction, hroot] at hact
    split at hact
    · next plan hplan => exact ⟨plan, .iterator hm hplan⟩
    · exact absurd rfl hact

/-- With a plan at hand, the rule does what the plan says. -/
theorem Accepts.exists_match (ha : Accepts g id plan rule) (hrule : rule ∈ conversions) :
    ∃ m, rule.MatchesAt g id m ∧ (rule.action m).apply g = plan.build.apply g ∧
      ∃ loop body step walk, g.live? plan.loop = some loop ∧ plan.Fits g loop body step walk := by
  cases ha with
  | @iterator kind m hm hfind =>
    have hroot := root_of_matchesAt hrule hm
    have hlive := hm
    obtain ⟨n, -, hn, -⟩ := hlive
    obtain ⟨rfl, body, step, walk, hf⟩ := exists_fits_of_find? hn hfind
    refine ⟨m, hm, ?_, n, body, step, walk, hn, hf⟩
    rw [apply_iteratorAction, hroot, hfind]
  | @loop m hm hfind hplain =>
    have hroot := root_of_matchesAt hrule hm
    have hlive := hm
    obtain ⟨n, -, hn, -⟩ := hlive
    obtain ⟨rfl, body, step, walk, hf⟩ := exists_fits_of_find? hn hfind
    refine ⟨m, hm, ?_, n, body, step, walk, hn, hf⟩
    rw [apply_loopAction, hroot, hfind]
    simp only [hplain, if_true]

/-- **A rule either applies or leaves the graph as it is** exactly if nothing is in the way of the plan
that it has found, or the very first step fails. -/
theorem atomic_convert_iff (hk : g.WellKept) (hd : g.NoDangling) (hrule : rule ∈ conversions)
    (id : Nat) : rule.AtomicAt g id ↔
      ∀ plan, Accepts g id plan rule → Buildable g plan ∨ FailsFirst g plan := by
  have hdeclines := declines_conversion hrule
  by_cases hfound : ∃ plan, Accepts g id plan rule
  · obtain ⟨plan, hplan⟩ := hfound
    obtain ⟨m, hm, hact, loop, body, step, walk, hloop, hf⟩ := hplan.exists_match hrule
    have hatomic : rule.AtomicAt g id ↔
        ((rule.action m).apply g).1 = .ok true ∨ ((rule.action m).apply g).2 = g := by
      refine Rule.atomicAt_iff hdeclines hm ?_ fun m' hm' _ => apply_action_eq hrule hm hm'
      rw [hact]
      intro hfalse
      have hpair : plan.build.apply g = (.ok false, (plan.build.apply g).2) := by rw [← hfalse]
      obtain ⟨_, _, _, _, -, -, -, -, hdone, -⟩ := apply_build_ok hpair
      simp at hdone
    rw [hatomic]
    constructor
    · intro hend plan' hplan'
      obtain ⟨m', hm', hact', _, _, _, _, hloop', hf'⟩ := hplan'.exists_match hrule
      rw [← apply_action_eq hrule hm hm', hact', hf'.build_ok_iff hloop' hk hd,
        hf'.build_unchanged_iff hloop' hk hd] at hend
      exact hend
    · intro hall
      rw [hact, hf.build_ok_iff hloop hk hd, hf.build_unchanged_iff hloop hk hd]
      exact hall plan hplan
  · refine iff_of_true (Rule.atomicAt_of_declined hdeclines fun m hm => ?_)
      fun plan hplan => absurd ⟨plan, hplan⟩ hfound
    by_contra hact
    exact hfound (exists_accepts hrule hm hact)

/-! ### A loop in time-major order -/

/-- An iterator over the two positions of the first axis, whose initial state has the given lengths. -/
def timeMajorSpecs (state : List Nat) : List (NodeSpec Body) :=
  [{ op := .parameter, outputs := [.planar (.ofLengths [2, 1, 1]) .f32] },
    { op := .parameter, outputs := [.planar (.ofLengths state) .f32] },
    { op := .tensorIterator
      inputs := [⟨0, 0⟩, ⟨1, 0⟩]
      outputs := [.planar (.ofLengths [2, 1, 1]) .f32]
      body := some {
        graph := .ofSpecs (stepSpecs.set 5 (Graph.constantSpec "axes" (.vector [0]))) [⟨8, 0⟩, ⟨7, 0⟩]
        params := [0, 1]
        inputs := [.sliced 0 0 (.full 0 1), .merged 1 1 1]
        outputs := [.concat 0 0 (.full 0 1)]
        control := none } }]

def timeMajorLoop (state : List Nat) : Graph Body :=
  .ofSpecs (timeMajorSpecs state) [⟨2, 0⟩]

theorem timeMajorLoop_sound (state : List Nat) :
    (timeMajorLoop state).WellKept ∧ (timeMajorLoop state).Acyclic ∧
      (timeMajorLoop state).NoDangling :=
  Graph.ofSpecs_sound (timeMajorSpecs state) _ (by rfl) (by rfl)

/-- A loop whose initial state has two axes is replaced, and nothing was in the way. -/
theorem atomic_convert_timeMajorLoop :
    ((timeMajorLoop [1, 1]).WellKept ∧ (timeMajorLoop [1, 1]).NoDangling) ∧
      iteratorRule .rnn ∈ conversions ∧
        (((iteratorRule .rnn).attempt 2).apply (timeMajorLoop [1, 1])).1 = .ok (.applied [2]) ∧
          ∀ plan, Accepts (timeMajorLoop [1, 1]) 2 plan (iteratorRule .rnn) →
            Buildable (timeMajorLoop [1, 1]) plan ∨ FailsFirst (timeMajorLoop [1, 1]) plan := by
  obtain ⟨hk, -, hd⟩ := timeMajorLoop_sound [1, 1]
  have hrule : iteratorRule .rnn ∈ conversions := by
    simp [conversions]
  have happlied : (((iteratorRule .rnn).attempt 2).apply (timeMajorLoop [1, 1])).1 =
      .ok (.applied [2]) := by
    decide +kernel
  exact ⟨⟨hk, hd⟩, hrule, happlied, (atomic_convert_iff hk hd hrule 2).1 (.inl ⟨_, happlied⟩)⟩

/-- A scalar cannot get an axis for the directions, which the rule finds out after it has transposed the
sequence. -/
theorem exists_partial_conversion :
    ¬ ∀ (g : Graph Body) (rule : Rule Body) (id : Nat), g.WellKept → g.NoDangling →
      rule ∈ conversions → rule.AtomicAt g id := by
  intro hall
  obtain ⟨hk, -, hd⟩ := timeMajorLoop_sound []
  have hrule : iteratorRule .rnn ∈ conversions := by
    simp [conversions]
  obtain ⟨nodes, happlied⟩ | hsame := hall (timeMajorLoop []) _ 2 hk hd hrule
  · have hfailed : (((iteratorRule .rnn).attempt 2).apply (timeMajorLoop [])).1 =
        .error (.invalidAxis 1 0) := by
      decide +kernel
    simp [hfailed] at happlied
  · have hgrown : (((iteratorRule .rnn).attempt 2).apply (timeMajorLoop [])).2.slots.length = 5 := by
      decide +kernel
    rw [hsame] at hgrown
    exact absurd hgrown (by decide +kernel)

end LoopPlan

end Dataflow
