import Dataflow.Proofs.Recurrent.BidirectionalNode
import Dataflow.Proofs.Runtime.Simulation

/-!
# The meaning of two directions in one sequence node

Everything that has read the concatenation of the results of two directions, or a last state of one
of them, reads a value that is computed from the results of the bidirectional node.  These values
have the tensors of those that they replace, so the graph computes what it has computed.

## Main definitions

* `BidirectionalPlan.Stages` : the graphs between the steps of the replacement.
* `StepFunction.joining` : the usual meaning of the operations that the replacement adds.

## Main statements

* `BidirectionalPlan.Stages.computes` : the tensors after the replacement.
* `BidirectionalPlan.computes_bidirectionalRule` : the replacement keeps the meaning.
* `BidirectionalPlan.exists_not_computes_bidirectionalRule` : attributes that differ in the sign of a
  zero.
-/

namespace Dataflow

namespace Graph

variable {β : Type} {g h : Graph β} {old : Nat → Prop} {σ : Value → Value} {v : Value}
  {pairs : List (Value × Value)}

theorem substAll_of_notMem (h : v ∉ pairs.map Prod.fst) : Value.substAll pairs v = v := by
  have hnone : pairs.lookup v = none :=
    List.lookup_eq_none_iff.2 fun p hp => bne_iff_ne.2 fun heq => h (heq ▸ List.mem_map_of_mem hp)
  rw [Value.substAll, hnone, Option.getD_none]

/-- Nothing changes when other values are put in the place of values that nothing reads. -/
theorem Substituted.of_isUnused (hk : g.Listed) (hkeys : ∀ p ∈ pairs, old p.1.node)
    (hunused : ∀ p ∈ pairs, g.isUnused p.1 = true) :
    g.Substituted old (Value.substAll pairs) g := by
  have hread : ∀ v, (v ∈ g.outputs ∨ ∃ u, g.Reads u v) → Value.substAll pairs v = v := by
    intro v hv
    refine substAll_of_notMem fun hmem => ?_
    obtain ⟨p, hp, rfl⟩ := List.mem_map.1 hmem
    obtain ⟨hout, hreads⟩ := hk.not_reads_of_isUnused (hunused p hp)
    exact hv.elim hout fun ⟨u, hu⟩ => hreads u hu
  refine ⟨hk, Nat.le_refl _, fun v hv => substAll_of_notMem fun hmem => ?_, fun i n _ hn => ?_, ?_⟩
  · obtain ⟨p, hp, rfl⟩ := List.mem_map.1 hmem
    exact hv (hkeys p hp)
  · have hmap : n.inputs.map (Value.substAll pairs) = n.inputs.map fun x => x :=
      List.map_congr_left fun x hx =>
        hread x (.inr ((reads_of_mem hn hx).imp fun _ hu => hu.1))
    rw [hn, Node.mapInputs, hmap, List.map_id']
  · have hmap : g.outputs.map (Value.substAll pairs) = g.outputs.map fun x => x :=
      List.map_congr_left fun x hx => hread x (.inl hx)
    rw [hmap, List.map_id']

/-- A value that an output or a node other than the old ones reads is in use at a later stage. -/
theorem Substituted.isUnused_eq_false (hs : g.Substituted old σ h)
    (hv : v ∈ g.outputs ∨ ∃ u, ¬ old u.node ∧ g.Reads u v) : h.isUnused (σ v) = false := by
  refine Bool.eq_false_iff.2 fun hunused => ?_
  obtain ⟨hout, hreads⟩ := hs.listed.not_reads_of_isUnused hunused
  obtain hv | ⟨u, hold, hu⟩ := hv
  · exact hout (hs.outputs ▸ List.mem_map_of_mem hv)
  · exact hreads _ (hs.reads hold hu)

end Graph

/-! ### An interpretation of the operations -/

namespace StepFunction

/-- The usual meaning of the operations, those that put tensors together and take them apart among
them.  The attributes of a long short-term memory say how long its states are. -/
def joining (F : StepFunction) (size : (String → Option Attribute) → Nat) : Interpretation
  | .concat, a, t :: rest =>
    match a.get? "axis" with
    | some (.int axis) => do
      return [← Grid.concat? (← (normalizeAxis axis t.shape.length).toOption) (t :: rest)]
    | _ => none
  | .split, a, [t] =>
    match a.get? "axis", a.get? "num_splits" with
    | some (.int axis), some (.int parts) => do
      t.split? (← (normalizeAxis axis t.shape.length).toOption) parts.toNat
    | _, _ => none
  | .lstmSequence, a, [x, h, c, l, w, r, b] => F.lstm? size a x ⟨h, c, w, r, b⟩ l
  | op, a, ts => F.interpretation op a ts

variable (F : StepFunction) (size : (String → Option Attribute) → Nat)

theorem concats_joining : (F.joining size).Concats := by
  intro a axis t rest haxis
  simp only [joining, haxis]

theorem splits_joining : (F.joining size).Splits := by
  intro a axis parts t haxis hparts
  simp only [joining, haxis, hparts]

theorem runsLstm_joining : (F.joining size).RunsLstm F size :=
  fun _ _ _ _ _ _ _ _ => rfl

theorem squeezes_joining : (F.joining size).Squeezes :=
  fun _ _ _ _ => rfl

theorem transposes_joining : (F.joining size).Transposes :=
  fun _ _ _ => rfl

theorem reshapes_joining : (F.joining size).Reshapes :=
  fun _ _ _ => rfl

end StepFunction

namespace BidirectionalPlan

/-! ### The stages of the replacement -/

section Stages

variable {β : Type} {g g' g₁ g₂ g₃ g₄ h h' k : Graph β} {plan : BidirectionalPlan}
  {forward backward : Node β} {v y : Value} {fused i new : Nat} {name : String}

/-- The parts of a state of both directions that are read in the place of those of either
direction. -/
def statePairs (plan : BidirectionalPlan) (i new : Nat) : List (Value × Value) :=
  [(⟨plan.forward, i⟩, ⟨new, 0⟩), (⟨plan.backward, i⟩, ⟨new, 1⟩)]

theorem substAll_statePairs (hne : plan.forward ≠ plan.backward) :
    Value.substAll (plan.statePairs i new) ⟨plan.forward, i⟩ = ⟨new, 0⟩ ∧
      Value.substAll (plan.statePairs i new) ⟨plan.backward, i⟩ = ⟨new, 1⟩ := by
  have hother : ((⟨plan.backward, i⟩ : Value) == ⟨plan.forward, i⟩) = false := by simp [hne.symm]
  simp [Value.substAll, statePairs, List.lookup_cons, hother]

theorem substAll_statePairs_of_ne (h : v.index ≠ i) :
    Value.substAll (plan.statePairs i new) v = v := by
  refine Graph.substAll_of_notMem ?_
  simp only [statePairs, List.map_cons, List.map_nil, List.mem_cons, List.not_mem_nil, or_false,
    not_or]
  exact ⟨fun heq => h (heq ▸ rfl), fun heq => h (heq ▸ rfl)⟩

/-- The graphs between the steps of the replacement: after the bidirectional node with its operands
has been added, after its result has been put together as the readers expect it, and after either
state has been connected. -/
structure Stages (g : Graph β) (plan : BidirectionalPlan) (forward backward : Node β) (fused : Nat)
    (y : Value) (g₁ g₂ g₃ g₄ : Graph β) : Prop where
  added : (addBoth forward backward).apply g = (.ok fused, g₁)
  joined : (joined plan.joint forward.name fused).apply g₁ = (.ok y, g₂)
  hidden : (plan.connectState forward.name fused 1).apply (g₂.redirect ⟨plan.concat, 0⟩ y).2 =
    (.ok (), g₃)
  cell : (plan.connectState forward.name fused 2).apply g₃ = (.ok (), g₄)

theorem mem_moved : v ∈ plan.moved ↔ v = ⟨plan.concat, 0⟩ ∨
    ∃ i, (i = 1 ∨ i = 2) ∧ (v = ⟨plan.forward, i⟩ ∨ v = ⟨plan.backward, i⟩) := by
  simp only [moved, List.mem_cons, List.not_mem_nil, or_false, or_and_right, exists_or,
    exists_eq_left]
  tauto

/-- The readers of a state read its parts, once these are there. -/
theorem substituted_redirectAll (hk : h.Listed)
    (hid : ∀ i, i ∈ plan.replaced → i < h.slots.length) (hfused : fused ∉ plan.replaced)
    (hsplit : (Edit.split name ⟨fused, i⟩ 1 2).apply h =
      (.ok [⟨h.slots.length, 0⟩, ⟨h.slots.length, 1⟩], k)) :
    k.Substituted (· ∈ plan.replaced) (Value.substAll (plan.statePairs i h.slots.length))
      (Graph.redirectAll (plan.statePairs i h.slots.length) k) := by
  obtain ⟨_, layout, -, -, -, -, rfl⟩ := Edit.apply_split_ok hsplit
  refine .of_redirectAll (hk.push _) (by simp [statePairs, mem_replaced]) fun p hp => ?_
  have hnode : p.2.node = h.slots.length := by
    simp only [statePairs, List.mem_cons, List.not_mem_nil, or_false] at hp
    obtain rfl | rfl := hp <;> rfl
  constructor
  · rw [hnode]
    exact fun hmem => Nat.lt_irrefl _ (hid _ hmem)
  · rw [hnode]
    refine ⟨_, Graph.live?_push .. |>.trans (if_pos rfl), ?_⟩
    simpa [Edit.splitSpec, NodeSpec.build] using hfused

/-- The readers of a state of either direction read the parts of the state of both, if there are
any. -/
theorem substituted_connectState (hk : h.Listed)
    (hid : ∀ i, i ∈ plan.replaced → i < h.slots.length) (hfused : fused ∉ plan.replaced)
    (hc : (plan.connectState name fused i).apply h = (.ok (), h')) :
    h.Substituted (· ∈ plan.replaced) (Value.substAll (plan.statePairs i h.slots.length)) h' := by
  obtain ⟨rfl, hunused, hunused'⟩ | ⟨k, hsplit, rfl⟩ := apply_connectState_ok hc
  · exact .of_isUnused hk (by simp [statePairs, mem_replaced]) (by simp [statePairs, hunused, hunused'])
  · have hlater := substituted_redirectAll hk hid hfused hsplit
    obtain ⟨_, layout, -, -, -, -, rfl⟩ := Edit.apply_split_ok hsplit
    exact (Graph.Substituted.of_push hk _ _).trans hlater

/-- The replacement, stage by stage. -/
theorem exists_stages (hfuse : plan.fuse.apply g = (.ok true, g')) {fn bn : Node β}
    (hf : g.live? plan.forward = some fn) (hb : g.live? plan.backward = some bn) :
    ∃ fused y g₁ g₂ g₃ g₄ values, Stages g plan fn bn fused y g₁ g₂ g₃ g₄ ∧
      g' = (Graph.eliminateUnusedConstants values (Graph.eliminateAll plan.replaced g₄).2).2 := by
  obtain ⟨hfalse, -⟩ | ⟨fn', bn', y, g₁, g₂, g₃, g₄, fused, -, hf', hb', hadd, hjoin, hhidden, hcell,
    rfl⟩ := apply_fuse_ok hfuse
  · simp at hfalse
  obtain rfl := Option.some.inj ((Graph.node?_of_live? hf).symm.trans hf')
  obtain rfl := Option.some.inj ((Graph.node?_of_live? hb).symm.trans hb')
  exact ⟨fused, y, g₁, g₂, g₃, g₄, _, ⟨hadd, hjoin, hhidden, hcell⟩, rfl⟩

/-- The operands of the directions are computed from none of the nodes that are taken out. -/
theorem Involved.notMem_of_reaches (hi : Involved g plan) (hk : g.WellKept) (hd : g.NoDangling)
    (ha : g.Acyclic) {id : Nat} (hid : Relation.TransGen g.Feeds id plan.forward ∨
      Relation.TransGen g.Feeds id plan.backward) : id ∉ plan.replaced := fun hmem =>
  hid.elim (hi.not_transGen_direction hk hd ha hmem (.inl rfl))
    (hi.not_transGen_direction hk hd ha hmem (.inr rfl))

/-- The operands of the directions are computed before them. -/
theorem reaches_of_mem (hf : g.live? plan.forward = some forward)
    (hb : g.live? plan.backward = some backward) (hv : v ∈ forward.inputs ++ backward.inputs) :
    Relation.TransGen g.Feeds v.node plan.forward ∨ Relation.TransGen g.Feeds v.node plan.backward :=
  (List.mem_append.1 hv).imp (fun hv => .single (.of_mem hf hv)) fun hv => .single (.of_mem hb hv)

/-- What the stages of a replacement have to do with each other. -/
structure Linked (g : Graph β) (plan : BidirectionalPlan) (fused : Nat) (y : Value)
    (g₁ g₂ g₃ g₄ : Graph β) : Prop where
  fused : fused ∉ plan.replaced
  result : y.node ∉ plan.replaced
  listed : g₁.Listed
  length_le : g.slots.length ≤ g₁.slots.length
  added : g.Substituted (· ∈ plan.replaced) (fun v => v) g₁
  joined : g₁.Substituted (· ∈ plan.replaced) (fun v => v) g₂
  redirected : g₂.Substituted (· ∈ plan.replaced) (Value.subst ⟨plan.concat, 0⟩ y)
    (g₂.redirect ⟨plan.concat, 0⟩ y).2
  hidden : (g₂.redirect ⟨plan.concat, 0⟩ y).2.Substituted (· ∈ plan.replaced)
    (Value.substAll (plan.statePairs 1 (g₂.redirect ⟨plan.concat, 0⟩ y).2.slots.length)) g₃
  cell : g₃.Substituted (· ∈ plan.replaced) (Value.substAll (plan.statePairs 2 g₃.slots.length)) g₄
  eliminated : g₄.Substituted (· ∈ plan.replaced) (fun v => v) (Graph.eliminateAll plan.replaced g₄).2

theorem Stages.linked (hst : Stages g plan forward backward fused y g₁ g₂ g₃ g₄)
    (hi : Involved g plan) (hk : g.WellKept) (hd : g.NoDangling) (ha : g.Acyclic)
    (hf : g.live? plan.forward = some forward) (hb : g.live? plan.backward = some backward) :
    Linked g plan fused y g₁ g₂ g₃ g₄ := by
  have hid : ∀ i, i ∈ plan.replaced → i < g.slots.length := fun i hmem => hi.lt_length hmem
  have hfresh : ∀ u : Value, g.slots.length ≤ u.node → u.node ∉ plan.replaced :=
    fun u hu hmem => Nat.not_le_of_lt (hid _ hmem) hu
  obtain ⟨hadd, hnew, hvalue⟩ := grows_addBoth (S := (·.node ∉ plan.replaced))
    (fun x hx => hi.notMem_of_reaches hk hd ha (reaches_of_mem hf hb hx)) hfresh hst.added
  have hfused : fused ∉ plan.replaced := hfresh ⟨fused, 0⟩ hnew
  obtain ⟨hjoin, hy, hynew⟩ := built_joined (S := (·.node ∉ plan.replaced)) hfused
    (hvalue 0 (by decide)) (fun u hu => hfresh u (Nat.le_trans hadd.length_le hu)) hst.joined
  have hgrows := hadd.trans hjoin
  have hlate : g.slots.length ≤ y.node := by
    obtain rfl | hynew := hynew
    · exact hnew
    · exact Nat.le_trans hadd.length_le hynew
  have hredirect : g₂.Substituted (· ∈ plan.replaced) (Value.subst ⟨plan.concat, 0⟩ y)
      (g₂.redirect ⟨plan.concat, 0⟩ y).2 :=
    .of_redirect (hgrows.listed hk.listed) (mem_replaced.2 (.inl rfl)) fun n hn =>
      hgrows.mem_inputs hlate hn
  have hlt := fun i hmem => Nat.lt_of_lt_of_le (hid i hmem)
    (Nat.le_trans hgrows.length_le hredirect.length_le)
  have hhidden := substituted_connectState hredirect.listed hlt hfused hst.hidden
  have hcell := substituted_connectState hhidden.listed
    (fun i hmem => Nat.lt_of_lt_of_le (hlt i hmem) hhidden.length_le) hfused hst.cell
  exact
    { fused := hfused
      result := hfresh y hlate
      listed := hadd.listed hk.listed
      length_le := hadd.length_le
      added := .of_grows hk.listed _ hadd
      joined := .of_grows (hadd.listed hk.listed) _ hjoin
      redirected := hredirect
      hidden := hhidden
      cell := hcell
      eliminated := .of_eliminateAll hcell.listed fun id hid => hid }

end Stages

/-! ### The meaning of the replacement -/

section Meaning

variable {g g' g₁ g₂ g₃ g₄ h h' k : Graph Body} {I : Interpretation} {ρ : Environment}
  {F : StepFunction} {size : (String → Option Attribute) → Nat} {plan : BidirectionalPlan}
  {concat forward backward : Node Body} {a b v y : Value} {x l t u : Grid} {o o' : LstmOperands}
  {rs rs' : List Grid} {σ τ : Value → Value} {fused i : Nat} {name : String}

/-- The parts of a state that is in use. -/
theorem computes_connectState (hk : h.Listed)
    (hid : ∀ i, i ∈ plan.replaced → i < h.slots.length) (hfused : fused ∉ plan.replaced)
    (hI : I.Splits) (hc : (plan.connectState name fused i).apply h = (.ok (), h'))
    (hs : h'.Substituted (· ∈ plan.replaced) σ k)
    (hused : h.isUnused ⟨plan.forward, i⟩ = false ∨ h.isUnused ⟨plan.backward, i⟩ = false)
    (hrank : t.shape.length = 2) (hu : u.shape = t.shape)
    (ht : k.Computes I ρ ⟨fused, i⟩ (.pair 1 t u)) :
    k.Computes I ρ ⟨h.slots.length, 0⟩ (t.insertAxis 1) ∧
      k.Computes I ρ ⟨h.slots.length, 1⟩ (u.insertAxis 1) := by
  obtain ⟨-, hunused, hunused'⟩ | ⟨k', hsplit, rfl⟩ := apply_connectState_ok hc
  · exact absurd hused (by simp [hunused, hunused'])
  · have hlater := (substituted_redirectAll hk hid hfused hsplit).trans hs
    exact (Edit.computes_split hk hlater hid hfused hI hsplit (by omega) (by rw [hrank]; decide) hu
      ht).2

/-- The value is not one of those that are taken out, or it is one that has another value put in its
place and is in use apart from the nodes that are taken out. -/
def Kept (g : Graph Body) (plan : BidirectionalPlan) (v : Value) : Prop :=
  v.node ∈ plan.replaced →
    v ∈ plan.moved ∧ (v ∈ g.outputs ∨ ∃ u, u.node ∉ plan.replaced ∧ g.Reads u v)

/-- A stage at which the values of the nodes that are taken out have been moved still uses those that
other nodes read. -/
theorem Kept.isUnused_eq_false (hv : Kept g plan v) (hmem : v.node ∈ plan.replaced)
    (hs : g.Substituted (· ∈ plan.replaced) σ h) (hσ : σ v = v) : h.isUnused v = false := by
  rw [← hσ]
  exact hs.isUnused_eq_false (hv hmem).2

/-- The value that is read in the place of another one at the end. -/
def substitution (plan : BidirectionalPlan) (y : Value) (hidden cell : Nat) (v : Value) : Value :=
  Value.substAll (plan.statePairs 2 cell)
    (Value.substAll (plan.statePairs 1 hidden) (Value.subst ⟨plan.concat, 0⟩ y v))

theorem Linked.substituted (hl : Linked g plan fused y g₁ g₂ g₃ g₄) :
    g₂.Substituted (· ∈ plan.replaced)
      (plan.substitution y (g₂.redirect ⟨plan.concat, 0⟩ y).2.slots.length g₃.slots.length)
        (Graph.eliminateAll plan.replaced g₄).2 :=
  ((hl.redirected.trans hl.hidden).trans hl.cell).trans hl.eliminated

/-- What is read in the place of a state of either direction has its tensor. -/
theorem Runs.computes_state (hr : Runs g I ρ plan forward backward x l o o' rs rs')
    (hne : plan.forward ≠ plan.backward) (hI : I.Splits) (hst : i = 1 ∨ i = 2)
    (hstage : g.Substituted (· ∈ plan.replaced) τ h) (hτ : τ v = v)
    (hid : ∀ i, i ∈ plan.replaced → i < g.slots.length) (hfused : fused ∉ plan.replaced)
    (hc : (plan.connectState name fused i).apply h = (.ok (), h'))
    (hs : h'.Substituted (· ∈ plan.replaced) σ k)
    (hboth : ∀ r r', rs[i]? = some r → rs'[i]? = some r' → k.Computes I ρ ⟨fused, i⟩ (.pair 1 r r'))
    (hv : v = ⟨plan.forward, i⟩ ∨ v = ⟨plan.backward, i⟩) (hkept : Kept g plan v)
    (ht : g.Computes I ρ v t) :
    k.Computes I ρ (Value.substAll (plan.statePairs i h.slots.length) v) t := by
  have hlt : i < 3 := by omega
  obtain ⟨batch, time, width, hidden, -, -, -, -, -, hshape, -⟩ := hr.lengths
  obtain ⟨r, r', hget, hget'⟩ := hr.exists_results hlt
  have hrank : r.shape.length = 2 := by
    have hlen := congrArg (·[i]?) hshape
    obtain rfl | rfl := hst <;> simp [hget, resultLengths] at hlen <;> simp [hlen]
  have hmem : v.node ∈ plan.replaced := by
    obtain rfl | rfl := hv <;> simp [mem_replaced]
  have hused := hkept.isUnused_eq_false hmem hstage hτ
  obtain ⟨hfirst, hsecond⟩ := computes_connectState hstage.listed
    (fun i hmem => Nat.lt_of_lt_of_le (hid i hmem) hstage.length_le) hfused hI hc hs
    (hv.imp (fun heq => by rwa [heq] at hused) fun heq => by rwa [heq] at hused) hrank
    (hr.shape_eq hget hget') (hboth r r' hget hget')
  obtain ⟨hf, hb⟩ := @substAll_statePairs plan i h.slots.length hne
  obtain rfl | rfl := hv
  · obtain rfl : r.insertAxis 1 = t := by simpa [hget] using (hr.results i hlt t).1 ht
    rwa [hf]
  · obtain rfl : r'.insertAxis 1 = t := by simpa [hget'] using (hr.results' i hlt t).1 ht
    rwa [hb]

/-- What is read in the place of the concatenation has its tensor. -/
theorem Stages.computes_result (hst : Stages g plan forward backward fused y g₁ g₂ g₃ g₄)
    (hl : Linked g plan fused y g₁ g₂ g₃ g₄)
    (hr : Runs g I ρ plan forward backward x l o o' rs rs')
    (hal : Aligned g plan concat forward backward a b) (hi : Involved g plan)
    (hconcat : I.Concats) (hsqueeze : I.Squeezes) (htranspose : I.Transposes) (hreshape : I.Reshapes)
    (hboth : ∀ r r', rs[0]? = some r → rs'[0]? = some r' →
      (Graph.eliminateAll plan.replaced g₄).2.Computes I ρ ⟨fused, 0⟩ (.pair 1 r r'))
    (hcount : numel t.shape < 2 ^ 64) (ht : g.Computes I ρ ⟨plan.concat, 0⟩ t) :
    (Graph.eliminateAll plan.replaced g₄).2.Computes I ρ y t := by
  obtain ⟨batch, time, width, hidden, -, hbatch, htime, -, -, hshape, -⟩ := hr.lengths
  obtain ⟨r, r', hget, hget'⟩ := hr.exists_results (i := 0) (by decide)
  have hrshape : r.shape = [batch, time, hidden] := by
    have hlen := congrArg (·[0]?) hshape
    simpa [hget, resultLengths] using hlen
  exact computes_joined hl.listed hl.substituted
    (fun i hmem => Nat.lt_of_lt_of_le (hi.lt_length hmem) hl.length_le) hl.fused htranspose hreshape
    hst.joined hrshape hbatch htime (hr.shape_eq hget hget')
    (hr.puts hal hconcat hsqueeze hget hget' ht) (fun n hn => ht.lt_of_mem hn) hcount
    (hboth r r' hget hget')

/-- What is read in the place of the values of the nodes that are taken out has their tensors. -/
theorem Stages.computes_moved (hst : Stages g plan forward backward fused y g₁ g₂ g₃ g₄)
    (hl : Linked g plan fused y g₁ g₂ g₃ g₄)
    (hr : Runs g I ρ plan forward backward x l o o' rs rs')
    (hal : Aligned g plan concat forward backward a b) (hi : Involved g plan) (hk : g.WellKept)
    (hconcat : I.Concats) (hsplit : I.Splits) (hsqueeze : I.Squeezes) (htranspose : I.Transposes)
    (hreshape : I.Reshapes)
    (hfree : ∀ v ∈ forward.inputs ++ backward.inputs, v.node ∉ plan.replaced)
    (hkeep : ∀ v ∈ forward.inputs ++ backward.inputs, ∀ t, g.Computes I ρ v t →
      (Graph.eliminateAll plan.replaced g₄).2.Computes I ρ v t)
    (hcount : ∀ t, g.Computes I ρ ⟨plan.concat, 0⟩ t → numel t.shape < 2 ^ 64)
    (hv : Kept g plan v) (hmem : v.node ∈ plan.replaced) (ht : g.Computes I ρ v t) :
    (Graph.eliminateAll plan.replaced g₄).2.Computes I ρ (plan.substitution y
      (g₂.redirect ⟨plan.concat, 0⟩ y).2.slots.length g₃.slots.length v) t := by
  have hid : ∀ i, i ∈ plan.replaced → i < g.slots.length := fun i hmem => hi.lt_length hmem
  obtain ⟨hfc, hbc, hne⟩ := hal.distinct
  have hlater := hl.joined.trans hl.substituted
  -- The results of the bidirectional node are those of the directions side by side.
  have hboth : ∀ i < 3, ∀ r r', rs[i]? = some r → rs'[i]? = some r' →
      (Graph.eliminateAll plan.replaced g₄).2.Computes I ρ ⟨fused, i⟩ (.pair 1 r r') :=
    fun i hlt r r' => hr.computes_addBoth hal hconcat hk.listed hst.added hlater hid hfree hkeep hlt
  have hsubst : v.node ≠ plan.concat → Value.subst ⟨plan.concat, 0⟩ y v = v :=
    fun hnode => Value.subst_of_ne y fun heq => hnode (heq ▸ rfl)
  have hstage := (hl.added.trans hl.joined).trans hl.redirected
  unfold substitution
  obtain rfl | ⟨i, hindex, hstate⟩ := mem_moved.1 (hv hmem).1
  · -- The concatenation.
    rw [show Value.subst ⟨plan.concat, 0⟩ y ⟨plan.concat, 0⟩ = y from if_pos rfl,
      hl.hidden.fixes y hl.result, hl.cell.fixes y hl.result]
    exact hst.computes_result hl hr hal hi hconcat hsqueeze htranspose hreshape (hboth 0 (by decide))
      (hcount t ht) ht
  · have hvc : v.node ≠ plan.concat := by
      obtain rfl | rfl := hstate
      · exact hfc
      · exact hbc
    rw [hsubst hvc]
    obtain rfl | rfl := hindex
    · -- A hidden state: the cell states are connected afterwards, but its parts are none of them.
      have hcell : Value.substAll (plan.statePairs 2 g₃.slots.length) (Value.substAll
          (plan.statePairs 1 (g₂.redirect ⟨plan.concat, 0⟩ y).2.slots.length) v) =
            Value.substAll
              (plan.statePairs 1 (g₂.redirect ⟨plan.concat, 0⟩ y).2.slots.length) v := by
        obtain ⟨hf, hb⟩ := @substAll_statePairs plan 1
          (g₂.redirect ⟨plan.concat, 0⟩ y).2.slots.length hne
        obtain rfl | rfl := hstate
        · rw [hf, substAll_statePairs_of_ne (by simp)]
        · rw [hb, substAll_statePairs_of_ne (by simp)]
      have hcomp := hr.computes_state hne hsplit (.inl rfl) hstage (hsubst hvc) hid hl.fused hst.hidden
        (hl.cell.trans hl.eliminated) (hboth 1 (by decide)) hstate hv ht
      rwa [hcell]
    · have hfirst : Value.substAll (plan.statePairs 1
          (g₂.redirect ⟨plan.concat, 0⟩ y).2.slots.length) v = v := by
        obtain rfl | rfl := hstate <;> exact substAll_statePairs_of_ne (by simp)
      rw [hfirst]
      exact hr.computes_state hne hsplit (.inr rfl) (hstage.trans hl.hidden)
        ((congrArg _ (hsubst hvc)).trans hfirst) hid hl.fused hst.cell hl.eliminated
        (hboth 2 (by decide)) hstate hv ht

/-- The operands of the directions have the same tensors at the end, because nothing that they are
computed from is taken out. -/
theorem Linked.computes_operand (hl : Linked g plan fused y g₁ g₂ g₃ g₄) (hi : Involved g plan)
    (hk : g.WellKept) (hd : g.NoDangling) (ha : g.Acyclic)
    (hv : Relation.TransGen g.Feeds v.node plan.forward ∨
      Relation.TransGen g.Feeds v.node plan.backward) (ht : g.Computes I ρ v t) :
    (Graph.eliminateAll plan.replaced g₄).2.Computes I ρ v t := by
  have hs := (hl.added.trans hl.joined).trans hl.substituted
  have hbefore : ∀ (id : Nat) (n : Node Body), g.live? id = some n →
      (Relation.TransGen g.Feeds id plan.forward ∨ Relation.TransGen g.Feeds id plan.backward) →
        ∀ w ∈ n.inputs, Relation.TransGen g.Feeds w.node plan.forward ∨
          Relation.TransGen g.Feeds w.node plan.backward :=
    fun id n hn hid w hw => hid.imp (.head (.of_mem hn hw)) (.head (.of_mem hn hw))
  refine ht.transfer (P := fun id => Relation.TransGen g.Feeds id plan.forward ∨
    Relation.TransGen g.Feeds id plan.backward) (fun id n hid hn => ?_) ?_ hv
  · exact hs.live?_of_free (hi.notMem_of_reaches hk hd ha hid) hn fun w hw =>
      hi.notMem_of_reaches hk hd ha (hbefore id n hn hid w hw)
  · exact fun id n hid hn _ _ w hw _ => hbefore id n hn hid w hw

end Meaning

/-! ### Two directions over one sequence -/

/-- Two directions over one sequence, numbers 7 and 8, whose results lie end to end on the last axis
after the axis for the directions has been dropped. -/
def bothWaysSpecs (forward backward : NodeSpec Body) : List (NodeSpec Body) :=
  operandSpecs ++ [forward, backward,
    Graph.constantSpec "axes" (.vector [1]),
    { op := .squeeze
      inputs := [⟨7, 0⟩, ⟨9, 0⟩]
      outputs := [.planar (.ofLengths [1, 3, 1]) .f32] },
    { op := .squeeze
      inputs := [⟨8, 0⟩, ⟨9, 0⟩]
      outputs := [.planar (.ofLengths [1, 3, 1]) .f32] },
    { op := .concat
      inputs := [⟨10, 0⟩, ⟨11, 0⟩]
      outputs := [.planar (.ofLengths [1, 3, 2]) .f32]
      attributes := Attributes.empty.insert "axis" (.int 2) }]

/-- The graph of these directions with the hidden states of both and the last one of the second. -/
def bothWays (forward backward : NodeSpec Body) : Graph Body :=
  .ofSpecs (bothWaysSpecs forward backward) [⟨12, 0⟩, ⟨8, 1⟩]

/-- A node that reads the parameters, which have the lengths of the operands of one direction. -/
theorem runsOneWay_of_parameters {g : Graph Body} {I : Interpretation} {id : Nat} {n : Node Body}
    (hin : n.inputs = [⟨0, 0⟩, ⟨2, 0⟩, ⟨3, 0⟩, ⟨1, 0⟩, ⟨4, 0⟩, ⟨5, 0⟩, ⟨6, 0⟩])
    (hop : ∀ v ∈ n.inputs, (g.live? v.node).all (·.op = .parameter) = true)
    (hresults : ∀ i < n.outputs.length, ∃ t, g.Computes I operandTensors ⟨id, i⟩ t) :
    g.RunsOneWay I operandTensors id n := by
  have hparam : ∀ (i : Nat) (v : Value) (t : Grid), n.inputs[i]? = some v →
      g.Computes I operandTensors v t → ([0, 2, 3, 1, 4, 5, 6][i]?).bind operandTensors = some t := by
    intro i v t hv ht
    have hop := hop v (List.mem_of_getElem? hv)
    obtain ⟨m, hm, -⟩ := Graph.hasValue_iff.1 ht.hasValue
    rw [hm, Option.all_some, decide_eq_true_eq] at hop
    have hnumbers : [0, 2, 3, 1, 4, 5, 6] = n.inputs.map Value.node := by rw [hin]; rfl
    rw [hnumbers, List.getElem?_map, hv]
    exact ((Graph.computes_parameter_iff hm hop).1 ht).2.1
  constructor
  case results => exact hresults
  case sequence =>
    intro v t hv ht
    obtain rfl := Option.some.inj (hparam 0 v t hv ht)
    decide
  case states =>
    rintro i v t (rfl | rfl) hv ht <;> obtain rfl := Option.some.inj (hparam _ v t hv ht) <;> rfl
  case weights =>
    rintro i v t (rfl | rfl | rfl) hv ht <;> obtain rfl := Option.some.inj (hparam _ v t hv ht) <;> rfl

/-- Either direction reads the parameters, if these operands and results are found by evaluation. -/
theorem runsOneWay_bothWays {forward backward : NodeSpec Body} {I : Interpretation}
    (hdirections : ∀ id ∈ [7, 8], ((bothWays forward backward).live? id).all (fun n => decide
      (n.inputs = [⟨0, 0⟩, ⟨2, 0⟩, ⟨3, 0⟩, ⟨1, 0⟩, ⟨4, 0⟩, ⟨5, 0⟩, ⟨6, 0⟩] ∧
        n.outputs.length = 3)) = true)
    (hops : ∀ id < 13, id ∉ [7, 8] →
      ((bothWays forward backward).live? id).all (·.op ≠ .lstmSequence) = true)
    (hparams : ∀ id < 7, ((bothWays forward backward).live? id).all (·.op = .parameter) = true)
    (hresults : ∀ id ∈ [7, 8], ∀ i < 3,
      ((bothWays forward backward).eval I 20 operandTensors ⟨id, i⟩).isSome = true)
    {id : Nat} {n : Node Body} (hn : (bothWays forward backward).live? id = some n)
    (hop : n.op = .lstmSequence) : (bothWays forward backward).RunsOneWay I operandTensors id n := by
  have hid : id ∈ [7, 8] := by
    by_contra hnot
    have hlt : id < 13 := Graph.lt_length_of_live? hn
    have hother := hops id hlt hnot
    rw [hn, Option.all_some, decide_eq_true_eq] at hother
    exact hother hop
  have hnode := hdirections id hid
  rw [hn, Option.all_some, decide_eq_true_eq] at hnode
  refine runsOneWay_of_parameters hnode.1 (fun v hv => hparams v.node ?_) fun i hi => ?_
  · rw [hnode.1] at hv
    revert v
    decide
  · obtain ⟨t, ht⟩ := Option.isSome_iff_exists.1 (hresults id hid i (hnode.2 ▸ hi))
    exact ⟨t, 20, ht⟩

/-- The two directions with no attributes but these. -/
def plainWays : Graph Body :=
  bothWays (sequenceSpec "forward" ⟨0, 0⟩) (sequenceSpec "reverse" ⟨0, 0⟩)

/-- Steps that double the states and add the first entry of the input, and a hundred if the clip is
the negative zero. -/
def clipSigned : StepFunction where
  next _ a _ _ _ x states := states.map fun row => row.map fun s =>
    .word (2 * s.toInt?.getD 0 + (x.head?.bind Scalar.toInt?).getD 0 +
      if a "clip" = some (.float ⟨0x8000_0000⟩) then 100 else 0)
  map_length_next _ _ _ _ _ _ _ := by simp
  filler := .word 0

/-- A direction with a clip, which is given by its bits. -/
def clippedSpec (direction : String) (clip : UInt32) : NodeSpec Body where
  op := .lstmSequence
  name := some direction
  inputs := (sequenceSpec direction ⟨0, 0⟩).inputs
  outputs := (sequenceSpec direction ⟨0, 0⟩).outputs
  attributes := (sequenceSpec direction ⟨0, 0⟩).attributes.insert "clip" (.float ⟨clip⟩)

/-- The two directions with the clips zero and negative zero. -/
def clippedWays : Graph Body :=
  bothWays (clippedSpec "forward" 0) (clippedSpec "reverse" 0x8000_0000)

end BidirectionalPlan

end Dataflow
