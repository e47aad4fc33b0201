import Dataflow.Proofs.Build
import Dataflow.Proofs.Graph.Substitution
import Dataflow.Proofs.Recurrent.ReversalPlan
import Dataflow.Proofs.Rule

/-!
# Reversals taken into a sequence node, step by step

The replacement adds a backward sequence node that reads the sequence itself, and lets everything
that has read the second reversal or a last state read a value of the new node.  Then the second
reversal and the sequence node are taken out, with the node between them that drops an axis, and the
first reversal if nothing else reads it.

## Main definitions

* `ReversalPlan.replaced` : the nodes that are taken out.
* `ReversalPlan.spec`, `ReversalPlan.result` : the new node, and what is read in the place of the
  second reversal.
* `ReversalPlan.Kept` : the values that other nodes may read.

## Main statements

* `ReversalPlan.apply_fuse_ok` : the steps of the replacement.
* `ReversalPlan.exists_plan_of_applied` : what the rule has found where it has applied.
* `ReversalPlan.Involved.reaches` : the sequence node leads to all nodes that are taken out.
-/

namespace Dataflow

namespace ReversalPlan

/-! ### The steps of the replacement -/

section Steps

variable {β : Type} {g g' : Graph β} {plan : ReversalPlan}

/-- The nodes that are taken out, apart from the first reversal. -/
def replaced (plan : ReversalPlan) : List Nat :=
  plan.second :: plan.squeeze.toList ++ [plan.lstm]

/-- The backward sequence node over the sequence itself. -/
def spec (plan : ReversalPlan) (lstm : Node β) (data : Value) : NodeSpec β where
  op := .lstmSequence
  name := some (lstm.name ++ "/reverse")
  inputs := (lstm.inputs.set 0 data).set 3 plan.lengths
  outputs := lstm.outputs
  attributes := lstm.attributes.withDirection "reverse"

/-- The result of the backward sequence node with the axes of the second reversal. -/
def result (plan : ReversalPlan) (lstm : Node β) (new : Nat) : Edit β Value :=
  if plan.squeeze.isSome then Edit.squeeze (lstm.name ++ "/y") ⟨new, 0⟩ 1 else pure ⟨new, 0⟩

/-- What is read in the place of the second reversal and of the last states. -/
def pairs (plan : ReversalPlan) (lstm : Node β) (new : Nat) (y : Value) : List (Value × Value) :=
  (⟨plan.second, 0⟩, y) ::
    ((List.range lstm.outputs.length).drop 1).map fun i => (⟨plan.lstm, i⟩, ⟨new, i⟩)

theorem substAll_pairs_second (plan : ReversalPlan) (lstm : Node β) (new : Nat) (y : Value) :
    Value.substAll (plan.pairs lstm new y) ⟨plan.second, 0⟩ = y := by
  simp [Value.substAll, pairs]

private theorem lookup_map_of_mem {old new i : Nat} {l : List Nat} (hi : i ∈ l) :
    (l.map fun i => ((⟨old, i⟩ : Value), (⟨new, i⟩ : Value))).lookup ⟨old, i⟩ = some ⟨new, i⟩ := by
  induction l with
  | nil => simp at hi
  | cons j rest ih =>
    rw [List.map_cons, List.lookup_cons]
    by_cases hij : i = j
    · simp [hij]
    · have hne : ((⟨old, i⟩ : Value) == ⟨old, j⟩) = false := by simpa using hij
      rw [hne]
      exact ih ((List.mem_cons.1 hi).resolve_left hij)

/-- The last states are those of the new node. -/
theorem substAll_pairs_lstm {lstm : Node β} {i : Nat} (hne : i ≠ 0) (hlt : i < lstm.outputs.length)
    (new : Nat) (y : Value) :
    Value.substAll (plan.pairs lstm new y) ⟨plan.lstm, i⟩ = ⟨new, i⟩ := by
  have hmem : i ∈ (List.range lstm.outputs.length).drop 1 := by
    rw [List.range_eq_range', List.drop_range', List.mem_range'_1]
    omega
  have hother : ((⟨plan.lstm, i⟩ : Value) == ⟨plan.second, 0⟩) = false := by simp [hne]
  rw [Value.substAll, pairs, List.lookup_cons, hother, lookup_map_of_mem hmem]
  rfl

theorem apply_redirectFrom (old new : Nat) (l : List Nat) (g : Graph β) :
    (redirectFrom old new l).apply g =
      (.ok (), Graph.redirectAll (l.map fun i => (⟨old, i⟩, ⟨new, i⟩)) g) := by
  induction l generalizing g with
  | nil => rfl
  | cons i rest ih =>
    simp only [redirectFrom, Edit.apply_bind, Edit.apply_redirect, ih, List.map_cons,
      Graph.redirectAll]

/-- **The steps of the replacement.** -/
theorem apply_fuse_ok {done : Bool} (h : plan.fuse.apply g = (.ok done, g')) :
    (done = false ∧ g' = g) ∨ ∃ lstm first data y k, done = true ∧ g.node? plan.lstm = some lstm ∧
      g.node? plan.first = some first ∧ first.inputs[0]? = some data ∧
      (∀ v ∈ (plan.spec lstm data).inputs, g.hasValue v = true) ∧
      (plan.result lstm g.slots.length).apply (g.push (plan.spec lstm data)) = (.ok y, k) ∧
      g' = ((Graph.eliminateAll plan.replaced
        (Graph.redirectAll (plan.pairs lstm g.slots.length y) k)).2.eliminateIfUnused
          plan.first).2 := by
  simp only [fuse, Edit.apply_bind_ok_iff, Edit.apply_get, Prod.mk.injEq, Except.ok.injEq] at h
  obtain ⟨_, _, ⟨rfl, rfl⟩, h⟩ := h
  split at h
  · next lstm data hlstm hdata =>
    obtain ⟨first, hfirst, hdata⟩ := Option.bind_eq_some_iff.1 hdata
    rw [Edit.apply_bind_ok_iff] at h
    obtain ⟨new, g₀, hnew, h⟩ := h
    obtain ⟨hin, rfl, rfl⟩ := Edit.apply_addNode_ok_iff.1 hnew
    rw [Edit.ite_bind] at h
    obtain ⟨y, k, hresult, h⟩ := Edit.apply_bind_ok_iff.1 h
    obtain ⟨rfl, rfl⟩ : done = true ∧ g' = ((Graph.eliminateAll plan.replaced
        (Graph.redirectAll (plan.pairs lstm g.slots.length y) k)).2.eliminateIfUnused
          plan.first).2 := by
      simp only [Edit.apply_bind, Edit.apply_redirect, apply_redirectFrom,
        Edit.apply_markEliminated] at h
      unfold replaced
      split at h
      · next s hs =>
        rw [hs]
        exact ⟨(Except.ok.inj (Prod.mk.inj h).1).symm, (Prod.mk.inj h).2.symm⟩
      · next hs =>
        rw [Option.eq_none_iff_forall_ne_some.2 fun s heq => hs s heq]
        exact ⟨(Except.ok.inj (Prod.mk.inj h).1).symm, (Prod.mk.inj h).2.symm⟩
    exact .inr ⟨lstm, first, data, y, k, rfl, hlstm, hfirst, hdata, hin, hresult, rfl⟩
  · exact .inl ⟨(Except.ok.inj (Prod.mk.inj h).1).symm, (Prod.mk.inj h).2.symm⟩

theorem apply_reversalAction (m : Match) (g : Graph β) :
    (reversalRule.action m : Edit β Bool).apply g =
      match find? g ⟨2, 1, 9, 10⟩ m with
      | .ok (some plan) => plan.fuse.apply g
      | .ok none => (.ok false, g)
      | .error e => (.error e, g) := by
  have hnodes : (reversalPattern (β := β)).2 = ⟨2, 1, 9, 10⟩ := rfl
  unfold reversalRule
  dsimp only
  rw [Edit.apply_bind, Edit.apply_ask, hnodes]
  cases h : find? g ⟨2, 1, 9, 10⟩ m with
  | error e => rfl
  | ok found => cases found <;> rfl

theorem declines_reversalRule : (reversalRule (β := β)).Declines := by
  intro m g g' h
  rw [apply_reversalAction] at h
  split at h
  · obtain ⟨-, rfl⟩ | ⟨_, _, _, _, _, hdone, -⟩ := apply_fuse_ok h
    · rfl
    · exact absurd hdone (by simp)
  · exact (Prod.mk.inj h).2.symm
  · simp at h

/-- Where the rule has applied, there was a plan that ends at the node. -/
theorem exists_plan_of_applied (hk : g.WellKept) {id : Nat} {nodes : List Nat}
    (h : (reversalRule.attempt id).apply g = (.ok (.applied nodes), g')) :
    ∃ (plan : ReversalPlan) (first lstm second : Node β) (data x l a : Value),
      Involved g plan first lstm second data x l a ∧ plan.fuse.apply g = (.ok true, g') := by
  obtain ⟨n, i, m, -, -, hm, -, hact⟩ := Rule.exists_match_of_applied declines_reversalRule h
  rw [apply_reversalAction] at hact
  split at hact
  · next plan hplan =>
    obtain ⟨-, first, lstm, second, data, x, l, a, hi⟩ :=
      involved_of_find? isReversal_reversalPattern hk hm hplan
    exact ⟨plan, first, lstm, second, data, x, l, a, hi, hact⟩
  · simp at hact
  · simp at hact

end Steps

/-! ### The nodes that are taken out -/

section Replaced

variable {β : Type} {g k : Graph β} {plan : ReversalPlan} {first lstm second : Node β}
  {data x l a v y : Value} {id : Nat}

theorem mem_replaced : id ∈ plan.replaced ↔
    id = plan.second ∨ plan.squeeze = some id ∨ id = plan.lstm := by
  simp [replaced]

/-- Nothing but the nodes that are taken out reads the values between the sequence node and the
second reversal. -/
theorem Way.inside {lstm second : Nat} {squeeze : Option Nat} (hw : Way g lstm second squeeze a)
    (hv : v = ⟨lstm, 0⟩ ∨ ∃ s, squeeze = some s ∧ v = ⟨s, 0⟩) :
    v ∉ g.outputs ∧ ∀ u, g.Reads u v → u.node = second ∨ squeeze = some u.node := by
  cases hw with
  | direct honly hout =>
    obtain rfl | ⟨s, hs, -⟩ := hv
    · exact ⟨hout, fun u hu => .inl (honly u hu)⟩
    · simp at hs
  | squeezed hn hop houts hin haxes haxis honly hout honly' hout' =>
    obtain rfl | ⟨s, hs, rfl⟩ := hv
    · exact ⟨hout, fun u hu => .inr (congrArg some (honly u hu).symm)⟩
    · obtain rfl := Option.some.inj hs
      exact ⟨hout', fun u hu => .inl (honly' u hu)⟩

/-- The node that drops an axis has one output. -/
theorem Way.squeeze_node {lstm second s : Nat} (hw : Way g lstm second (some s) a) :
    ∃ n, g.live? s = some n ∧ n.outputs.length = 1 ∧ g.Reads ⟨s, 0⟩ ⟨lstm, 0⟩ ∧ a = ⟨s, 0⟩ := by
  cases hw with
  | squeezed hn hop houts hin haxes haxis honly hout honly' hout' =>
    exact ⟨_, hn, houts, ⟨_, hn, by rw [hin]; rfl⟩, rfl⟩

theorem Way.node_eq {lstm second : Nat} (hw : Way g lstm second none a) : a = ⟨lstm, 0⟩ := by
  cases hw with
  | direct _ _ => rfl

namespace Involved

variable (hi : Involved g plan first lstm second data x l a)
include hi

/-- The sequence node leads to all nodes that are taken out. -/
theorem reaches (hid : id ∈ plan.replaced) : Relation.ReflTransGen g.Feeds plan.lstm id := by
  have hsecond : g.Feeds a.node plan.second :=
    .of_mem hi.second_node (hi.second_inputs ▸ List.mem_cons_self)
  have hway := hi.way
  cases hsqueeze : plan.squeeze with
  | none =>
    rw [hsqueeze] at hway
    obtain rfl := hway.node_eq
    obtain rfl | hs | rfl := mem_replaced.1 hid
    · exact .single hsecond
    · simp [hsqueeze] at hs
    · exact .refl
  | some s =>
    rw [hsqueeze] at hway
    obtain ⟨n, -, -, hread, rfl⟩ := hway.squeeze_node
    obtain rfl | hs | rfl := mem_replaced.1 hid
    · exact .tail (.single hread.feeds) hsecond
    · obtain rfl := Option.some.inj (hsqueeze.symm.trans hs)
      exact .single hread.feeds
    · exact .refl

/-- What the sequence node is computed from stays. -/
theorem notMem_of_transGen (ha : g.Acyclic) (h : Relation.TransGen g.Feeds id plan.lstm) :
    id ∉ plan.replaced :=
  fun hid => ha id (h.trans_left (hi.reaches hid))

theorem lt_length (hid : id ∈ plan.replaced) : id < g.slots.length := by
  obtain rfl | hs | rfl := mem_replaced.1 hid
  · exact Graph.lt_length_of_live? hi.second_node
  · obtain ⟨n, hn, -⟩ := (hs ▸ hi.way).squeeze_node
    exact Graph.lt_length_of_live? hn
  · exact Graph.lt_length_of_live? hi.lstm_node

/-- The operands of the new node are computed before the sequence node. -/
theorem transGen_of_mem (hv : v ∈ (plan.spec lstm data).inputs) :
    Relation.TransGen g.Feeds v.node plan.lstm := by
  obtain ⟨h, c, w, r, b, hin⟩ := hi.lstm_inputs
  have hlstm : ∀ v ∈ lstm.inputs, Relation.TransGen g.Feeds v.node plan.lstm :=
    fun v hv => .single (.of_mem hi.lstm_node hv)
  have hfirst : ∀ v ∈ first.inputs, Relation.TransGen g.Feeds v.node plan.lstm := by
    intro v hv
    have hx := hlstm x (by simp [hin])
    rw [hi.x.1] at hx
    exact .head (.of_mem hi.first_node hv) hx
  have hmem : v ∈ first.inputs ∨ v ∈ lstm.inputs := by
    rw [hi.first_inputs, hin]
    simp only [spec, hin, List.set_cons_zero, List.set_cons_succ, List.mem_cons] at hv ⊢
    tauto
  exact hmem.elim (hfirst v) (hlstm v)

end Involved

/-- Among the values of the nodes that are taken out, other nodes read only those that get another
value in their place. -/
def Kept (plan : ReversalPlan) (v : Value) : Prop :=
  v.node ∈ plan.replaced → v = ⟨plan.second, 0⟩ ∨ (v.node = plan.lstm ∧ v.index ≠ 0)

namespace Involved

variable (hi : Involved g plan first lstm second data x l a) (houts : second.outputs.length = 1)
include hi houts

theorem kept (hv : g.hasValue v = true)
    (hout : ¬ (v = ⟨plan.lstm, 0⟩ ∨ ∃ s, plan.squeeze = some s ∧ v = ⟨s, 0⟩)) : plan.Kept v := by
  intro hmem
  have hzero : ∀ n, g.live? v.node = some n → n.outputs.length = 1 → v = ⟨v.node, 0⟩ := by
    intro n hn hlen
    obtain ⟨m, hm, hlt⟩ := Graph.hasValue_iff.1 hv
    obtain rfl := Option.some.inj (hn.symm.trans hm)
    have hindex : v.index = 0 := by omega
    rw [← hindex]
  obtain hs | hs | hl := mem_replaced.1 hmem
  · refine .inl ?_
    rw [← hs]
    exact hzero second (hs ▸ hi.second_node) houts
  · obtain ⟨n, hn, hlen, -⟩ := (hs ▸ hi.way).squeeze_node
    exact absurd (.inr ⟨v.node, hs, hzero n hn hlen⟩) hout
  · refine .inr ⟨hl, fun hindex => hout (.inl ?_)⟩
    rw [← hl, ← hindex]

theorem kept_of_mem (hd : g.NoDangling) {n : Node β} (hn : g.live? id = some n)
    (hid : id ∉ plan.replaced) (hv : v ∈ n.inputs) : plan.Kept v := by
  obtain ⟨u, hu, rfl⟩ := Graph.reads_of_mem hn hv
  refine hi.kept houts (hd.reads hu) fun hinside => hid ?_
  obtain hreader | hreader := (hi.way.inside hinside).2 u hu
  · exact mem_replaced.2 (.inl hreader)
  · exact mem_replaced.2 (.inr (.inl hreader))

theorem kept_of_output (hd : g.NoDangling) (hv : v ∈ g.outputs) : plan.Kept v :=
  hi.kept houts (hd.outputs v hv) fun hinside => (hi.way.inside hinside).1 hv

end Involved

/-- The result of the sequence node exists. -/
theorem Involved.length_pos (hi : Involved g plan first lstm second data x l a)
    (hd : g.NoDangling) : 0 < lstm.outputs.length := by
  have hread : ∃ u, g.Reads u ⟨plan.lstm, 0⟩ := by
    cases hsqueeze : plan.squeeze with
    | none =>
      obtain rfl := (hsqueeze ▸ hi.way).node_eq
      exact ⟨⟨plan.second, 0⟩, second, hi.second_node, by rw [hi.second_inputs]; rfl⟩
    | some s =>
      obtain ⟨_, -, -, hread, -⟩ := (hsqueeze ▸ hi.way).squeeze_node
      exact ⟨_, hread⟩
  obtain ⟨u, hu⟩ := hread
  obtain ⟨n, hn, hlt⟩ := Graph.hasValue_iff.1 (hd.reads hu)
  obtain rfl := Option.some.inj (hi.lstm_node.symm.trans hn)
  exact hlt

/-- What is read in the place of the second reversal is new. -/
theorem grows_result {S : Value → Prop} (hnew : ∀ u, g.slots.length ≤ u.node → S u)
    (hlen : 0 < lstm.outputs.length)
    (h : (plan.result lstm g.slots.length).apply (g.push (plan.spec lstm data)) = (.ok y, k)) :
    (g.push (plan.spec lstm data)).Grows S k ∧ k.hasValue y = true ∧ g.slots.length ≤ y.node := by
  unfold result at h
  split at h
  · have hbuilt : Edit.Built S _ k y := .squeeze h (hnew _ (Nat.le_refl _)) fun u hu => by
      rw [Graph.length_slots_push] at hu
      exact hnew u (Nat.le_of_succ_le hu)
    have hle := hbuilt.new
    rw [Graph.length_slots_push] at hle
    exact ⟨hbuilt.grows, hbuilt.hasValue, Nat.le_of_succ_le hle⟩
  · simp only [Edit.apply_pure, Prod.mk.injEq, Except.ok.injEq] at h
    obtain ⟨rfl, rfl⟩ := h
    exact ⟨.refl, Graph.hasValue_push_new hlen, Nat.le_refl _⟩

/-- The readers of the values of the nodes that are taken out read values of the new nodes. -/
theorem Involved.substituted (hi : Involved g plan first lstm second data x l a) (hk : g.WellKept)
    (ha : g.Acyclic) (hd : g.NoDangling)
    (hspec : ∀ v ∈ (plan.spec lstm data).inputs, g.hasValue v = true)
    (hresult : (plan.result lstm g.slots.length).apply (g.push (plan.spec lstm data)) =
      (.ok y, k)) :
    (g.push (plan.spec lstm data)).Substituted (· ∈ plan.replaced) (fun v => v) k ∧
      k.Substituted (· ∈ plan.replaced) (Value.substAll (plan.pairs lstm g.slots.length y))
        (Graph.eliminateAll plan.replaced
          (Graph.redirectAll (plan.pairs lstm g.slots.length y) k)).2 := by
  have hfresh : ∀ u : Value, g.slots.length ≤ u.node → u.node ∉ plan.replaced :=
    fun u hu hmem => Nat.not_le_of_lt (hi.lt_length hmem) hu
  have hfirst : g.Grows (·.node ∉ plan.replaced) (g.push (plan.spec lstm data)) :=
    .push _ .refl fun v hv => ⟨hspec v hv, hi.notMem_of_transGen ha (hi.transGen_of_mem hv)⟩
  obtain ⟨hgrows, hy, hynew⟩ := grows_result hfresh (hi.length_pos hd) hresult
  have hk' := ((hfirst.trans hgrows).wellKept hk).listed
  have hfree : ∀ v : Value, g.slots.length ≤ v.node → k.hasValue v = true →
      k.Free (· ∈ plan.replaced) v := by
    intro v hv hval
    obtain ⟨n, hn, -⟩ := Graph.hasValue_iff.1 hval
    exact ⟨hfresh v hv, n, hn, (hfirst.trans hgrows).mem_inputs hv hn⟩
  have hpairs : k.Substituted (· ∈ plan.replaced)
      (Value.substAll (plan.pairs lstm g.slots.length y))
      (Graph.redirectAll (plan.pairs lstm g.slots.length y) k) := by
    refine .of_redirectAll hk' (fun p hp => ?_) fun p hp => ?_
    all_goals obtain rfl | hp := List.mem_cons.1 hp
    · exact mem_replaced.2 (.inl rfl)
    · obtain ⟨i, -, rfl⟩ := List.mem_map.1 hp
      exact mem_replaced.2 (.inr (.inr rfl))
    · exact hfree y hynew hy
    · obtain ⟨i, hi, rfl⟩ := List.mem_map.1 hp
      have hlt : i < lstm.outputs.length := List.mem_range.1 (List.mem_of_mem_drop hi)
      exact hfree _ (Nat.le_refl _) (hgrows.hasValue (Graph.hasValue_push_new hlt))
  exact ⟨.of_grows (hfirst.wellKept hk).listed _ hgrows,
    hpairs.trans (.of_eliminateAll hpairs.listed fun id hid => hid)⟩

end Replaced

end ReversalPlan

end Dataflow
