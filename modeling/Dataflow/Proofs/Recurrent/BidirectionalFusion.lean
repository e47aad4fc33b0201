import Dataflow.Proofs.Graph.Specs
import Dataflow.Proofs.Graph.Substitution
import Dataflow.Proofs.Recurrent.BidirectionalPlan
import Dataflow.Proofs.Rule

/-!
# References after two directions have become one node

The bidirectional node takes over the concatenation's first output and the last states of both
directions.  The results of the directions, and those without the axis for the directions, get no
replacement: the pattern counts their uses, and all of these are among the nodes taken out.  A use
as an output of the graph is not counted, and a reference to it is left dangling.

## Main statements

* `BidirectionalPlan.rerouted_fuse` : the replacement as a rerouting.
* `BidirectionalPlan.noDangling_attempt_iff` : when no reference dangles after the replacement.
-/

namespace Dataflow

variable {β : Type}

namespace BidirectionalPlan

variable {g g' : Graph β} {plan : BidirectionalPlan}

/-! ### The nodes that are taken out -/

theorem Branch.transGen {concat : Nat} {y : Value} {l : List Nat} (h : Branch g concat y l) :
    Relation.TransGen g.Feeds y.node concat := by
  cases h with
  | direct hread _ => exact .single hread
  | squeezed _ _ _ hread _ hread' _ => exact .tail (.single hread) hread'

theorem Branch.reader {concat : Nat} {y : Value} {l : List Nat} (h : Branch g concat y l) {u : Use}
    (hu : g.Reads u y) : u.node = concat ∨ u.node ∈ l := by
  cases h with
  | direct _ honly => exact .inl (honly u hu)
  | squeezed _ _ _ _ honly _ _ => exact .inr (List.mem_singleton.2 (honly u hu))

/-- A node on the way from the result of a direction to the concatenation. -/
theorem Branch.of_mem {concat : Nat} {y : Value} {l : List Nat} (h : Branch g concat y l) {s : Nat}
    (hs : s ∈ l) : (∃ n, g.live? s = some n ∧ n.op = .squeeze ∧ n.outputs.length = 1) ∧
      g.Feeds y.node s ∧ g.Feeds s concat ∧ ∀ u, g.Reads u ⟨s, 0⟩ → u.node = concat := by
  cases h with
  | direct _ _ => simp at hs
  | squeezed hn hop houts hread _ hread' honly' =>
    obtain rfl := List.mem_singleton.1 hs
    exact ⟨⟨_, hn, hop, houts⟩, hread, hread', honly'⟩

theorem Involved.squeeze (h : Involved g plan) {s : Nat} (hs : s ∈ plan.squeezes) :
    (∃ n, g.live? s = some n ∧ n.op = .squeeze ∧ n.outputs.length = 1) ∧
      (g.Feeds plan.forward s ∨ g.Feeds plan.backward s) ∧ g.Feeds s plan.concat ∧
        ∀ u, g.Reads u ⟨s, 0⟩ → u.node = plan.concat := by
  obtain ⟨first, second, hsq, hfirst, hsecond⟩ := h.branches
  rw [hsq] at hs
  obtain hs | hs := List.mem_append.1 hs
  · obtain ⟨hn, hread, hrest⟩ := hfirst.of_mem hs
    exact ⟨hn, .inl hread, hrest⟩
  · obtain ⟨hn, hread, hrest⟩ := hsecond.of_mem hs
    exact ⟨hn, .inr hread, hrest⟩

theorem mem_replaced {id : Nat} : id ∈ plan.replaced ↔
    id = plan.concat ∨ id ∈ plan.squeezes ∨ id = plan.forward ∨ id = plan.backward := by
  simp [replaced]

/-- None of the nodes that are taken out is a constant. -/
theorem Aligned.exists_live {concat forward backward : Node β} {a b : Value}
    (hal : Aligned g plan concat forward backward a b) {id : Nat} (hid : id ∈ plan.replaced) :
    ∃ n, g.live? id = some n ∧ n.op ≠ .constant := by
  obtain ⟨_, _, _, -, -, -, hends⟩ := hal.ends
  obtain rfl | hs | rfl | rfl := mem_replaced.1 hid
  · exact ⟨concat, hal.concat_node, by rw [hal.concat_op]; decide⟩
  · obtain ⟨n, hn, hop⟩ := hends.exists_squeeze hs
    exact ⟨n, hn, by rw [hop]; decide⟩
  · exact ⟨forward, hal.forward_node, by rw [hal.forward_op]; decide⟩
  · exact ⟨backward, hal.backward_node, by rw [hal.backward_op]; decide⟩

/-- The concatenation reads values of nodes that are taken out, too. -/
theorem Aligned.node_mem_replaced {concat forward backward : Node β} {a b v : Value}
    (hal : Aligned g plan concat forward backward a b) (hv : v ∈ concat.inputs) :
    v.node ∈ plan.replaced := by
  obtain ⟨_, _, _, -, -, -, hends⟩ := hal.ends
  obtain ⟨ha, hb⟩ := hends.node_mem
  rw [hal.concat_inputs, List.mem_cons, List.mem_singleton] at hv
  obtain rfl | rfl := hv
  · exact List.mem_cons_of_mem _ ha
  · exact List.mem_cons_of_mem _ hb

/-- The concatenation depends on all other nodes that are taken out. -/
theorem Involved.transGen_concat (h : Involved g plan) {id : Nat} (hid : id ∈ plan.replaced) :
    id = plan.concat ∨ Relation.TransGen g.Feeds id plan.concat := by
  obtain ⟨_, _, -, hfirst, hsecond⟩ := h.branches
  obtain rfl | hs | rfl | rfl := mem_replaced.1 hid
  · exact .inl rfl
  · exact .inr (.single (h.squeeze hs).2.2.1)
  · exact .inr hfirst.transGen
  · exact .inr hsecond.transGen

theorem Involved.live (h : Involved g plan) {id : Nat} (hid : id ∈ plan.replaced) :
    ∃ n, g.live? id = some n := by
  obtain rfl | hs | rfl | rfl := mem_replaced.1 hid
  · exact h.concat.imp fun n hn => hn.1
  · exact (h.squeeze hs).1.imp fun n hn => hn.1
  · exact h.forward.imp fun n hn => hn.1
  · exact h.backward.imp fun n hn => hn.1

theorem Involved.lt_length (h : Involved g plan) {id : Nat} (hid : id ∈ plan.replaced) :
    id < g.slots.length := by
  obtain ⟨n, hn⟩ := h.live hid
  exact Graph.lt_length_of_live? hn

/-- No references lead from one direction to the other, nor back to the same one. -/
theorem Involved.not_transGen (h : Involved g plan) (hk : g.WellKept) (hd : g.NoDangling)
    (ha : g.Acyclic) {a b : Nat} (hsource : a = plan.forward ∨ a = plan.backward)
    (hgoal : b = plan.forward ∨ b = plan.backward) : ¬ Relation.TransGen g.Feeds a b := by
  intro hab
  have hpath := (Graph.hasPath_iff hk.numbered hk.indexed hd).2 hab.to_reflTransGen
  obtain rfl | rfl := hsource <;> obtain rfl | rfl := hgoal
  · exact ha _ hab
  · exact absurd hpath (by simp [h.apart.1])
  · exact absurd hpath (by simp [h.apart.2])
  · exact ha _ hab

/-- A direction is computed from none of the nodes, because all of them depend on one of the
directions. -/
theorem Involved.not_transGen_direction (h : Involved g plan) (hk : g.WellKept) (hd : g.NoDangling)
    (ha : g.Acyclic) {id b : Nat} (hid : id ∈ plan.replaced)
    (hgoal : b = plan.forward ∨ b = plan.backward) : ¬ Relation.TransGen g.Feeds id b := by
  intro hpath
  obtain rfl | hs | hdir := mem_replaced.1 hid
  · have hb : b ∈ plan.replaced := mem_replaced.2 (.inr (.inr hgoal))
    obtain rfl | hback := h.transGen_concat hb
    · exact ha _ hpath
    · exact ha _ (hback.trans hpath)
  · obtain ⟨-, hread, -⟩ := h.squeeze hs
    obtain hread | hread := hread
    · exact h.not_transGen hk hd ha (.inl rfl) hgoal (.head hread hpath)
    · exact h.not_transGen hk hd ha (.inr rfl) hgoal (.head hread hpath)
  · exact h.not_transGen hk hd ha hdir hgoal hpath

/-! ### The replacement -/

/-- The values that get a replacement. -/
def moved (plan : BidirectionalPlan) : List Value :=
  [⟨plan.backward, 2⟩, ⟨plan.forward, 2⟩, ⟨plan.backward, 1⟩, ⟨plan.forward, 1⟩, ⟨plan.concat, 0⟩]

section Steps

variable {S : Value → Prop} {forward backward : Node β} {v w x : Value} {i : Nat} {name : String}

theorem apply_operands_bind_ok_iff {α : Type} {f : Value × Value → Edit β α} {a : α} :
    (operands forward backward i >>= f).apply g = (.ok a, g') ↔
      ∃ v w, forward.inputs[i]? = some v ∧ backward.inputs[i]? = some w ∧
        (f (v, w)).apply g = (.ok a, g') := by
  unfold operands
  cases forward.inputs[i]? with
  | none => simp
  | some v => cases backward.inputs[i]? <;> simp

/-- Two operands are joined at once if both are constants, and laid end to end by a node if not. -/
theorem apply_join_ok {axis : Nat} (h : (join name v w axis).apply g = (.ok x, g')) :
    (∃ s t u, g.constant? v = some s ∧ g.constant? w = some t ∧ Tensor.concat [s, t] axis = .ok u ∧
      x = ⟨g.slots.length, 0⟩ ∧ g' = g.push (Graph.constantSpec name u)) ∨
    ((g.constant? v = none ∨ g.constant? w = none) ∧
      (Edit.concat name [v, w] axis).apply g = (.ok x, g')) := by
  simp only [join, Edit.apply_bind_ok_iff, Edit.apply_get, Prod.mk.injEq, Except.ok.injEq] at h
  obtain ⟨_, _, ⟨rfl, rfl⟩, h⟩ := h
  split at h
  · next s t hs ht =>
    simp only [Edit.apply_bind_ok_iff, Edit.apply_pureExcept_ok_iff, Edit.apply_addConstant,
      Prod.mk.injEq, Except.ok.injEq] at h
    obtain ⟨u, _, ⟨hu, rfl⟩, rfl, rfl⟩ := h
    exact .inl ⟨s, t, u, hs, ht, hu, rfl, rfl⟩
  · next hnone =>
    refine .inr ⟨?_, h⟩
    cases hs : g.constant? v with
    | none => exact .inl rfl
    | some s =>
      cases ht : g.constant? w with
      | none => exact .inr rfl
      | some t => exact absurd ht (hnone s t hs)

theorem built_join {axis : Nat} (h : (join name v w axis).apply g = (.ok x, g')) (hv : S v)
    (hw : S w) : Edit.Built S g g' x := by
  obtain ⟨_, _, t, -, -, -, rfl, rfl⟩ | ⟨-, h⟩ := apply_join_ok h
  · exact .constant name t
  · exact .concat h (by simp [hv, hw])

/-- The bidirectional node over its operands, with the outputs of one direction. -/
def spec (forward : Node β) (inputs : List Value) (y state : Layout) : NodeSpec β where
  op := .lstmSequence
  name := some (forward.name ++ "/bidirectional")
  inputs := inputs
  outputs := [bothDirections y, bothDirections state, bothDirections state]
  attributes := forward.attributes.withDirection "bidirectional"

/-- The steps that add the bidirectional node: one operand after the other, then the node. -/
theorem apply_addBoth_ok {fused : Nat} (h : (addBoth forward backward).apply g = (.ok fused, g')) :
    ∃ vs ws : Nat → Value, ∃ h g₁ c g₂ w g₃ r g₄ b g₅ y state,
      (∀ i < 7, forward.inputs[i]? = some (vs i) ∧ backward.inputs[i]? = some (ws i)) ∧
      (Edit.concat (forward.name ++ "/h_init") [vs 1, ws 1] 1).apply g = (.ok h, g₁) ∧
      (Edit.concat (forward.name ++ "/c_init") [vs 2, ws 2] 1).apply g₁ = (.ok c, g₂) ∧
      (join (forward.name ++ "/W") (vs 4) (ws 4) 0).apply g₂ = (.ok w, g₃) ∧
      (join (forward.name ++ "/R") (vs 5) (ws 5) 0).apply g₃ = (.ok r, g₄) ∧
      (join (forward.name ++ "/B") (vs 6) (ws 6) 0).apply g₄ = (.ok b, g₅) ∧
      g₅.layout? (forward.output 0) = some y ∧ g₅.layout? (forward.output 1) = some state ∧
      (∀ v ∈ [vs 0, h, c, vs 3, w, r, b], g₅.hasValue v = true) ∧ fused = g₅.slots.length ∧
      g' = g₅.push (spec forward [vs 0, h, c, vs 3, w, r, b] y state) := by
  obtain ⟨v₁, w₁, hv₁, hw₁, h⟩ := apply_operands_bind_ok_iff.1 h
  obtain ⟨h', g₁, hh, h⟩ := Edit.apply_bind_ok_iff.1 h
  obtain ⟨v₂, w₂, hv₂, hw₂, h⟩ := apply_operands_bind_ok_iff.1 h
  obtain ⟨c, g₂, hc, h⟩ := Edit.apply_bind_ok_iff.1 h
  obtain ⟨v₄, w₄, hv₄, hw₄, h⟩ := apply_operands_bind_ok_iff.1 h
  obtain ⟨w, g₃, hw, h⟩ := Edit.apply_bind_ok_iff.1 h
  obtain ⟨v₅, w₅, hv₅, hw₅, h⟩ := apply_operands_bind_ok_iff.1 h
  obtain ⟨r, g₄, hr, h⟩ := Edit.apply_bind_ok_iff.1 h
  obtain ⟨v₆, w₆, hv₆, hw₆, h⟩ := apply_operands_bind_ok_iff.1 h
  obtain ⟨b, g₅, hb, h⟩ := Edit.apply_bind_ok_iff.1 h
  obtain ⟨y, _, hy, h⟩ := Edit.apply_bind_ok_iff.1 h
  obtain ⟨hlayout, rfl⟩ := Edit.apply_layoutOf_ok_iff.1 hy
  obtain ⟨state, _, hstate, h⟩ := Edit.apply_bind_ok_iff.1 h
  obtain ⟨hlayout', rfl⟩ := Edit.apply_layoutOf_ok_iff.1 hstate
  obtain ⟨v₀, w₀, hv₀, hw₀, h⟩ := apply_operands_bind_ok_iff.1 h
  obtain ⟨v₃, w₃, hv₃, hw₃, h⟩ := apply_operands_bind_ok_iff.1 h
  obtain ⟨hin, rfl, rfl⟩ := Edit.apply_addNode_ok_iff.1 h
  refine ⟨fun i => [v₀, v₁, v₂, v₃, v₄, v₅, v₆].getD i v₀,
    fun i => [w₀, w₁, w₂, w₃, w₄, w₅, w₆].getD i w₀, h', g₁, c, g₂, w, g₃, r, g₄, b, g₅, y, state,
    fun i hi => ?_, hh, hc, hw, hr, hb, hlayout, hlayout', hin, rfl, rfl⟩
  match i, hi with
  | 0, _ => exact ⟨hv₀, hw₀⟩
  | 1, _ => exact ⟨hv₁, hw₁⟩
  | 2, _ => exact ⟨hv₂, hw₂⟩
  | 3, _ => exact ⟨hv₃, hw₃⟩
  | 4, _ => exact ⟨hv₄, hw₄⟩
  | 5, _ => exact ⟨hv₅, hw₅⟩
  | 6, _ => exact ⟨hv₆, hw₆⟩

/-- The bidirectional node and its operands are new, and read only what the directions read. -/
theorem grows_addBoth {fused : Nat} (hS : ∀ x ∈ forward.inputs ++ backward.inputs, S x)
    (hnew : ∀ u, g.slots.length ≤ u.node → S u)
    (h : (addBoth forward backward).apply g = (.ok fused, g')) :
    g.Grows S g' ∧ g.slots.length ≤ fused ∧ ∀ i < 3, g'.hasValue ⟨fused, i⟩ = true := by
  obtain ⟨vs, ws, h', g₁, c, g₂, w, g₃, r, g₄, b, g₅, y, state, hin, hh, hc, hw, hr, hb, -, -, hval,
    rfl, rfl⟩ := apply_addBoth_ok h
  have hf : ∀ i < 7, S (vs i) := fun i hi =>
    hS _ (List.mem_append_left _ (List.mem_of_getElem? (hin i hi).1))
  have hb' : ∀ i < 7, S (ws i) := fun i hi =>
    hS _ (List.mem_append_right _ (List.mem_of_getElem? (hin i hi).2))
  have B1 : Edit.Built S g g₁ h' := .concat hh (by simp [hf, hb'])
  have B2 : Edit.Built S g₁ g₂ c := .concat hc (by simp [hf, hb'])
  have B3 := built_join hw (hf 4 (by decide)) (hb' 4 (by decide))
  have B4 := built_join hr (hf 5 (by decide)) (hb' 5 (by decide))
  have B5 := built_join hb (hf 6 (by decide)) (hb' 6 (by decide))
  have G2 := B1.grows.trans B2.grows
  have G3 := G2.trans B3.grows
  have G4 := G3.trans B4.grows
  have G5 := G4.trans B5.grows
  have hlate : ∀ {k : Graph β} {u : Value}, g.Grows S k → k.slots.length ≤ u.node → S u :=
    fun hg hu => hnew _ (Nat.le_trans hg.length_le hu)
  refine ⟨.push _ G5 fun v hv => ⟨hval v hv, ?_⟩, G5.length_le, fun i hi =>
    Graph.hasValue_push_new (by simpa [spec] using hi)⟩
  simp only [spec, List.mem_cons, List.not_mem_nil, or_false] at hv
  obtain rfl | rfl | rfl | rfl | rfl | rfl | rfl := hv
  · exact hf 0 (by decide)
  · exact hnew _ B1.new
  · exact hlate B1.grows B2.new
  · exact hf 3 (by decide)
  · exact hlate G2 B3.new
  · exact hlate G3 B4.new
  · exact hlate G4 B5.new

theorem built_joined {joint : Joint} {fused : Nat} (hS : S ⟨fused, 0⟩)
    (hv : g.hasValue ⟨fused, 0⟩ = true) (hnew : ∀ u, g.slots.length ≤ u.node → S u)
    (h : (joined joint name fused).apply g = (.ok w, g')) :
    g.Grows S g' ∧ g'.hasValue w = true ∧ (w = ⟨fused, 0⟩ ∨ g.slots.length ≤ w.node) := by
  cases joint with
  | direction =>
    simp only [joined, Edit.apply_pure, Prod.mk.injEq, Except.ok.injEq] at h
    obtain ⟨rfl, rfl⟩ := h
    exact ⟨.refl, hv, .inl rfl⟩
  | feature =>
    simp only [joined, Edit.apply_bind_ok_iff] at h
    obtain ⟨t, g1, ht, hw⟩ := h
    have B1 : Edit.Built S g g1 t := .transpose ht hS hnew
    have B2 : Edit.Built S g1 g' w := .reshape hw (hnew _ B1.new)
      fun u hu => hnew u (Nat.le_trans B1.grows.length_le hu)
    exact ⟨B1.grows.trans B2.grows, B2.hasValue, .inr (Nat.le_trans B1.grows.length_le B2.new)⟩

end Steps

section Fuse

variable {h h' : Graph β} {values : List Value} {fused i : Nat} {name : String}

/-- The readers of a state are left as they are if there are none, and otherwise read the parts of
the state of both directions. -/
theorem apply_connectState_ok (hc : (plan.connectState name fused i).apply h = (.ok (), h')) :
    (h' = h ∧ h.isUnused ⟨plan.forward, i⟩ = true ∧ h.isUnused ⟨plan.backward, i⟩ = true) ∨
      ∃ k, (Edit.split (name ++ "/split_" ++ Nat.repr i) ⟨fused, i⟩ 1 2).apply h =
          (.ok [⟨h.slots.length, 0⟩, ⟨h.slots.length, 1⟩], k) ∧
        h' = Graph.redirectAll [(⟨plan.forward, i⟩, ⟨h.slots.length, 0⟩),
          (⟨plan.backward, i⟩, ⟨h.slots.length, 1⟩)] k := by
  simp only [connectState, Edit.apply_bind_ok_iff, Edit.apply_get, Prod.mk.injEq,
    Except.ok.injEq] at hc
  obtain ⟨_, _, ⟨rfl, rfl⟩, hc⟩ := hc
  split at hc
  · obtain ⟨parts, k, hsplit, hc⟩ := Edit.apply_bind_ok_iff.1 hc
    obtain ⟨_, _, -, -, -, rfl, -⟩ := Edit.apply_split_ok hsplit
    simp only [List.range_succ, List.range_zero, List.nil_append, List.map_cons, List.map_nil,
      List.cons_append, Edit.apply_bind_ok_iff, Edit.apply_redirect, Prod.mk.injEq,
      Except.ok.injEq, Edit.apply_pure] at hc
    obtain ⟨_, _, ⟨rfl, rfl⟩, _, _, ⟨rfl, rfl⟩, -, rfl⟩ := hc
    exact .inr ⟨k, hsplit, rfl⟩
  · next hunused =>
    obtain rfl := (Prod.mk.inj hc).2
    simp only [Bool.not_eq_eq_eq_not, Bool.not_true, Bool.not_eq_false, Bool.and_eq_true] at hunused
    exact .inl ⟨rfl, hunused⟩

/-- After the states have been connected, nothing reads them any more. -/
theorem rerouted_connectState (hr : Graph.Rerouted g plan.replaced values h)
    (hi : Involved g plan) (hfused : h.hasValue ⟨fused, i⟩ = true) (hnew : g.slots.length ≤ fused)
    (hc : (plan.connectState name fused i).apply h = (.ok (), h')) :
    Graph.Rerouted g plan.replaced (⟨plan.backward, i⟩ :: ⟨plan.forward, i⟩ :: values) h' ∧
      ∀ w, h.hasValue w = true → h'.hasValue w = true := by
  have hD : ∀ id ∈ plan.replaced, id < g.slots.length := fun id hid => hi.lt_length hid
  obtain ⟨rfl, hunused, hunused'⟩ | ⟨k, hsplit, rfl⟩ := apply_connectState_ok hc
  · exact ⟨(hr.unused hunused).unused hunused', fun w hw => hw⟩
  · obtain ⟨_, layout, -, -, -, -, rfl⟩ := Edit.apply_split_ok hsplit
    set spec : NodeSpec β :=
      Edit.splitSpec (name ++ "/split_" ++ Nat.repr i) ⟨fused, i⟩ 1 2 layout with hspec
    have hr1 : Graph.Rerouted g plan.replaced values (h.push spec) := by
      refine hr.push fun v hv => ?_
      obtain rfl := List.mem_singleton.1 hv
      exact ⟨hfused, fun hmem => absurd (hD _ hmem) (Nat.not_lt.2 hnew)⟩
    have hpart : ∀ k < 2, (h.push spec).hasValue ⟨h.slots.length, k⟩ = true :=
      fun k hk => Graph.hasValue_push_new (by simpa [hspec, Edit.splitSpec] using hk)
    have hr2 := hr1.redirect hD (v := ⟨plan.forward, i⟩) (hpart 0 (by omega)) hr.length_le
    have hkeep : ∀ w, (h.push spec).hasValue w = true →
        ((h.push spec).redirect ⟨plan.forward, i⟩ ⟨h.slots.length, 0⟩).2.hasValue w = true :=
      fun w hw => (Graph.hasValue_redirect hr1.listed.live _ _ w).trans hw
    refine ⟨hr2.redirect hD (hkeep _ (hpart 1 (by omega))) hr.length_le, fun w hw => ?_⟩
    rw [Graph.redirectAll, Graph.redirectAll, Graph.redirectAll,
      Graph.hasValue_redirect hr2.listed.live]
    exact hkeep w (Graph.hasValue_push spec hw)

theorem apply_eliminateNodes (ids : List Nat) (g : Graph β) :
    (eliminateNodes ids).apply g = (.ok (), (Graph.eliminateAll ids g).2) := by
  induction ids generalizing g with
  | nil => rfl
  | cons id ids ih =>
    simp only [eliminateNodes, Edit.apply_bind, Edit.apply_markEliminated, ih, Graph.eliminateAll]

/-- **The steps of the replacement.** -/
theorem apply_fuse_ok {done : Bool} (hfuse : plan.fuse.apply g = (.ok done, g')) :
    (done = false ∧ g' = g) ∨ ∃ forward backward y g₁ g₂ g₃ g₄ fused, done = true ∧
      g.node? plan.forward = some forward ∧ g.node? plan.backward = some backward ∧
      (addBoth forward backward).apply g = (.ok fused, g₁) ∧
      (joined plan.joint forward.name fused).apply g₁ = (.ok y, g₂) ∧
      (plan.connectState forward.name fused 1).apply (g₂.redirect ⟨plan.concat, 0⟩ y).2 =
        (.ok (), g₃) ∧
      (plan.connectState forward.name fused 2).apply g₃ = (.ok (), g₄) ∧
      g' = (Graph.eliminateUnusedConstants (forward.inputs ++ backward.inputs ++
        plan.squeezes.flatMap fun id => ((g₄.node? id).map Node.inputs).getD [])
          (Graph.eliminateAll plan.replaced g₄).2).2 := by
  simp only [fuse, Edit.apply_bind_ok_iff, Edit.apply_get, Prod.mk.injEq, Except.ok.injEq] at hfuse
  obtain ⟨_, _, ⟨rfl, rfl⟩, hfuse⟩ := hfuse
  split at hfuse
  · next forward backward hforward hbackward =>
    simp only [Edit.apply_bind_ok_iff, Edit.apply_redirect, apply_eliminateNodes, Edit.apply_always,
      Edit.apply_get, Edit.apply_pure, Prod.mk.injEq, Except.ok.injEq] at hfuse
    obtain ⟨fused, g₁, hadd, y, g₂, hjoin, _, _, ⟨rfl, rfl⟩, ⟨⟩, g₃, hfirst, ⟨⟩, g₄, hsecond, _, _,
      ⟨rfl, rfl⟩, _, _, ⟨-, rfl⟩, _, _, ⟨rfl, rfl⟩, rfl, rfl⟩ := hfuse
    exact .inr ⟨forward, backward, y, g₁, g₂, g₃, g₄, fused, rfl, hforward, hbackward, hadd, hjoin,
      hfirst, hsecond, rfl⟩
  · exact .inl ⟨(Except.ok.inj (Prod.mk.inj hfuse).1).symm, (Prod.mk.inj hfuse).2.symm⟩

/-- The values whose producers are looked through for constants at the end are read by the nodes
that are taken out. -/
theorem rerouted_fuse (hk : g.WellKept) (hd : g.NoDangling) (ha : g.Acyclic)
    (hi : Involved g plan) (hfuse : plan.fuse.apply g = (.ok true, g')) :
    ∃ h values, Graph.Rerouted g plan.replaced plan.moved h ∧
      g' = (Graph.eliminateUnusedConstants values (Graph.eliminateAll plan.replaced h).2).2 ∧
        ∀ x ∈ values, ∃ u : Use, u.node ∈ plan.replaced ∧ u.node ≠ plan.concat ∧
          (g.Reads u x ∨ h.Reads u x) := by
  have hD : ∀ id ∈ plan.replaced, id < g.slots.length := fun id hid => hi.lt_length hid
  have hfresh : ∀ u : Value, g.slots.length ≤ u.node → u.node ∉ plan.replaced :=
    fun u hu hmem => absurd (hD u.node hmem) (Nat.not_lt.2 hu)
  obtain ⟨cn, hcn, hcop⟩ := hi.concat
  obtain ⟨fn, hfn, hfop, -⟩ := hi.forward
  obtain ⟨bn, hbn, hbop, -⟩ := hi.backward
  have hfc : plan.forward ≠ plan.concat := by
    rintro heq
    obtain rfl := Option.some.inj (hcn.symm.trans (heq ▸ hfn))
    simp [hcop] at hfop
  have hbc : plan.backward ≠ plan.concat := by
    rintro heq
    obtain rfl := Option.some.inj (hcn.symm.trans (heq ▸ hbn))
    simp [hcop] at hbop
  have hinputs : ∀ x ∈ fn.inputs ++ bn.inputs, x.node ∉ plan.replaced := by
    intro x hx hmem
    obtain hx | hx := List.mem_append.1 hx
    · exact hi.not_transGen_direction hk hd ha hmem (.inl rfl) (.single (.of_mem hfn hx))
    · exact hi.not_transGen_direction hk hd ha hmem (.inr rfl) (.single (.of_mem hbn hx))
  obtain ⟨hfalse, -⟩ | ⟨fn', bn', y, g1, g2, g3, h, fused, -, hfn', hbn', hadd, hjoin, hstate1,
    hstate2, rfl⟩ := apply_fuse_ok hfuse
  · simp at hfalse
  obtain rfl := Option.some.inj ((Graph.node?_of_live? hfn).symm.trans hfn')
  obtain rfl := Option.some.inj ((Graph.node?_of_live? hbn).symm.trans hbn')
  obtain ⟨hg1, hnew, hfused⟩ := grows_addBoth hinputs hfresh hadd
  obtain ⟨hg2, hy, hynew⟩ := built_joined (hfresh _ hnew) (hfused 0 (by omega))
    (fun u hu => hfresh u (Nat.le_trans hg1.length_le hu)) hjoin
  have hynew : g.slots.length ≤ y.node := by
    obtain rfl | hynew := hynew
    · exact hnew
    · exact Nat.le_trans hg1.length_le hynew
  have hr2 := ((Graph.Rerouted.refl hk.listed hd (D := plan.replaced)).grows hg1).grows hg2
  have hr3 := hr2.redirect (v := ⟨plan.concat, 0⟩) hD hy hynew
  have hfused' : ∀ i < 3, (g2.redirect ⟨plan.concat, 0⟩ y).2.hasValue ⟨fused, i⟩ = true :=
    fun i hlt => (Graph.hasValue_redirect hr2.listed.live _ _ _).trans (hg2.hasValue (hfused i hlt))
  obtain ⟨hr4, hkeep⟩ := rerouted_connectState hr3 hi (hfused' 1 (by omega)) hnew hstate1
  obtain ⟨hr5, -⟩ :=
    rerouted_connectState hr4 hi (hkeep _ (hfused' 2 (by omega))) hnew hstate2
  refine ⟨h, _, hr5, rfl, fun x hx => ?_⟩
  simp only [List.mem_append, List.mem_flatMap] at hx
  obtain (hx | hx) | ⟨s, hs, hx⟩ := hx
  · obtain ⟨u, hu, hnode⟩ := Graph.reads_of_mem hfn hx
    exact ⟨u, mem_replaced.2 (.inr (.inr (.inl hnode))), hnode ▸ hfc, .inl hu⟩
  · obtain ⟨u, hu, hnode⟩ := Graph.reads_of_mem hbn hx
    exact ⟨u, mem_replaced.2 (.inr (.inr (.inr hnode))), hnode ▸ hbc, .inl hu⟩
  · have hsD : s ∈ plan.replaced := mem_replaced.2 (.inr (.inl hs))
    obtain ⟨⟨sn, hsn, hsop, -⟩, -⟩ := hi.squeeze hs
    have hlive : (h.live? s).isSome := by
      rw [hr5.live (hD s hsD), hsn]
      rfl
    obtain ⟨m, hm⟩ := Option.isSome_iff_exists.1 hlive
    rw [Graph.node?_of_live? hm] at hx
    obtain ⟨u, hu, hnode⟩ := Graph.reads_of_mem hm hx
    refine ⟨u, hnode ▸ hsD, ?_, .inr hu⟩
    rintro heq
    obtain rfl : s = plan.concat := hnode.symm.trans heq
    obtain rfl := Option.some.inj (hcn.symm.trans hsn)
    simp [hcop] at hsop

end Fuse

/-! ### What dangles -/

theorem Involved.not_feeds_of_ne_concat (hi : Involved g plan) {id : Nat} (hid : id ∈ plan.replaced)
    (ha : g.Acyclic) (hne : id ≠ plan.concat) : ¬ g.Feeds plan.concat id := fun hfeeds =>
  ha _ (.head hfeeds ((hi.transGen_concat hid).resolve_left hne))

/-- A value of a direction without a replacement is its result. -/
theorem index_of_direction {id : Nat} (hid : id = plan.forward ∨ id = plan.backward) {n : Node β}
    (hn : g.live? id = some n) (houts : n.outputs.length = 3) {v : Value} (hv : v.node = id)
    (hm : v ∉ plan.moved) (hval : g.hasValue v = true) : v = ⟨id, 0⟩ := by
  obtain ⟨m, hm', hlt⟩ := Graph.hasValue_iff.1 hval
  subst hv
  obtain rfl := Option.some.inj (hn.symm.trans hm')
  obtain ⟨node, index⟩ := v
  have hmem : ∀ i, (i = 1 ∨ i = 2) → (⟨node, i⟩ : Value) ∈ plan.moved := by
    rintro i (rfl | rfl) <;> obtain h | h := hid <;> simp only at h <;> simp [moved, h]
  have h1 : index ≠ 1 := fun h => hm (hmem index (.inl h))
  have h2 : index ≠ 2 := fun h => hm (hmem index (.inr h))
  have h0 : index = 0 := by
    simp only at hlt
    omega
  rw [h0]

/-- What reads a value of one of the nodes, the concatenation excepted, is taken out with it or
reads a replacement. -/
theorem Involved.reader_mem (hi : Involved g plan) (hd : g.NoDangling) {v : Value}
    (hv : v.node ∈ plan.replaced) (hne : v.node ≠ plan.concat) (hm : v ∉ plan.moved) {u : Use}
    (hu : g.Reads u v) : u.node ∈ plan.replaced := by
  obtain ⟨first, second, hsq, hfirst, hsecond⟩ := hi.branches
  obtain ⟨fn, hfn, -, hfouts⟩ := hi.forward
  obtain ⟨bn, hbn, -, hbouts⟩ := hi.backward
  rw [mem_replaced, hsq, List.mem_append]
  obtain heq | hs | heq | heq := mem_replaced.1 hv
  · exact absurd heq hne
  · obtain ⟨⟨n, hn, -, houts⟩, -, -, honly⟩ := hi.squeeze hs
    obtain ⟨n', hn', hlt⟩ := Graph.hasValue_iff.1 (hd.reads hu)
    obtain rfl := Option.some.inj (hn.symm.trans hn')
    have hzero : v = ⟨v.node, 0⟩ := by
      obtain ⟨node, index⟩ := v
      exact congrArg (Value.mk node) (by simp only at hlt; omega)
    exact .inl (honly u (hzero ▸ hu))
  · obtain rfl := index_of_direction (.inl rfl) hfn hfouts heq hm (hd.reads hu)
    exact (hfirst.reader hu).imp_right fun h => .inl (.inl h)
  · obtain rfl := index_of_direction (.inr rfl) hbn hbouts heq hm (hd.reads hu)
    exact (hsecond.reader hu).imp_right fun h => .inl (.inr h)

/-- The results that get no replacement are seen by the matched nodes alone: no output of the graph
is a result of a direction, or one without its axis for the directions, and nothing uses a further
output of the concatenation, which is the node `id`. -/
structure ResultsHidden (g : Graph β) (id : Nat) (nodes : List Nat) : Prop where
  outputs : ∀ v ∈ g.outputs, v.node ∈ nodes → v.node ≠ id →
    g.op? v = some .lstmSequence ∧ v.index ≠ 0
  further : ∀ k, k ≠ 0 → g.isUnused ⟨id, k⟩ = true

theorem resultsHidden_iff (hk : g.WellKept) (hd : g.NoDangling) (ha : g.Acyclic)
    (hi : Involved g plan) {nodes : List Nat} (hnodes : ∀ id, id ∈ nodes ↔ id ∈ plan.replaced) :
    (∀ v, v.node ∈ plan.replaced → v ∉ plan.moved →
      v ∉ g.outputs ∧ ∀ u, g.Reads u v → u.node ∈ plan.replaced) ↔
        ResultsHidden g plan.concat nodes := by
  obtain ⟨cn, hcn, hcop⟩ := hi.concat
  obtain ⟨fn, hfn, hfop, hfouts⟩ := hi.forward
  obtain ⟨bn, hbn, hbop, hbouts⟩ := hi.backward
  have hop : ∀ {id n v}, g.live? id = some n → v.node = id → g.op? v = some n.op := by
    rintro id n v hn rfl
    simp [Graph.op?, Graph.producer?, Graph.node?_of_live? hn]
  have hne : ∀ {id n}, g.live? id = some n → n.op ≠ .concat → id ≠ plan.concat := by
    rintro id n hn hop rfl
    obtain rfl := Option.some.inj (hcn.symm.trans hn)
    exact hop hcop
  have hfc : plan.forward ≠ plan.concat := hne hfn (by simp [hfop])
  have hbc : plan.backward ≠ plan.concat := hne hbn (by simp [hbop])
  have hcmem : plan.concat ∈ plan.replaced := mem_replaced.2 (.inl rfl)
  constructor
  · intro hfree
    constructor
    · intro v hv hmem hvc
      have hm : v ∈ plan.moved := by
        by_contra hm
        exact (hfree v ((hnodes _).1 hmem) hm).1 hv
      simp only [moved, List.mem_cons, List.not_mem_nil, or_false] at hm
      obtain rfl | rfl | rfl | rfl | rfl := hm
      · exact ⟨(hop hbn rfl).trans (by rw [hbop]), by simp⟩
      · exact ⟨(hop hfn rfl).trans (by rw [hfop]), by simp⟩
      · exact ⟨(hop hbn rfl).trans (by rw [hbop]), by simp⟩
      · exact ⟨(hop hfn rfl).trans (by rw [hfop]), by simp⟩
      · exact absurd rfl hvc
    · intro k hk0
      have hm : (⟨plan.concat, k⟩ : Value) ∉ plan.moved := by
        simp [moved, hk0, Ne.symm hfc, Ne.symm hbc]
      obtain ⟨hout, hreads⟩ := hfree ⟨plan.concat, k⟩ hcmem hm
      refine hk.indexed.isUnused_iff.2 ⟨hout, fun u hu => ?_⟩
      -- A reader among the nodes would depend on the concatenation, which depends on it.
      have hmem := hreads u hu
      by_cases huc : u.node = plan.concat
      · exact ha.not_feeds_self (huc ▸ hu.feeds : g.Feeds plan.concat plan.concat)
      · exact hi.not_feeds_of_ne_concat hmem ha huc hu.feeds
  · intro hh v hv hm
    by_cases hvc : v.node = plan.concat
    · have hindex : v.index ≠ 0 := by
        rintro hzero
        refine hm ?_
        obtain ⟨node, index⟩ := v
        simp only at hvc hzero
        simp [moved, hvc, hzero]
      have hunused := hk.indexed.isUnused_iff.1 (hh.further v.index hindex)
      rw [← hvc] at hunused
      exact ⟨hunused.1, fun u hu => absurd hu (hunused.2 u)⟩
    · refine ⟨fun hout => ?_, fun u hu => hi.reader_mem hd hv hvc hm hu⟩
      obtain ⟨hvop, hindex⟩ := hh.outputs v hout ((hnodes _).2 hv) hvc
      have hval := hd.outputs v hout
      obtain heq | hs | heq | heq := mem_replaced.1 hv
      · exact hvc heq
      · obtain ⟨⟨n, hn, hnop, -⟩, -⟩ := hi.squeeze hs
        rw [hop hn rfl, hnop] at hvop
        simp at hvop
      · exact hindex (by rw [index_of_direction (.inl rfl) hfn hfouts heq hm hval])
      · exact hindex (by rw [index_of_direction (.inr rfl) hbn hbouts heq hm hval])

theorem pattern_bidirectionalRule :
    (bidirectionalRule (β := β)).pattern = (bidirectionalPattern (β := β)).1 :=
  rfl

theorem apply_action (m : Match) (g : Graph β) :
    (bidirectionalRule.action m : Edit β Bool).apply g =
      match find? g ⟨7, 13, 14, 15⟩ m with
      | some plan => plan.fuse.apply g
      | none => (.ok false, g) := by
  have hact : (bidirectionalRule.action m : Edit β Bool) = (do
      match find? (← get) ⟨7, 13, 14, 15⟩ m with
      | some plan => plan.fuse
      | none => return false) := rfl
  rw [hact, Edit.apply_bind, Edit.apply_get]
  cases h : find? g ⟨7, 13, 14, 15⟩ m <;> simp only [h]
  rfl

/-- A match for which there is no plan, or whose nodes are gone, leaves the graph as it is. -/
theorem declines_bidirectionalRule : (bidirectionalRule (β := β)).Declines := by
  intro m g g' h
  rw [apply_action] at h
  split at h
  · obtain ⟨-, rfl⟩ | ⟨_, _, _, _, _, _, _, _, hdone, -⟩ := apply_fuse_ok h
    · rfl
    · exact absurd hdone (by simp)
  · exact (Prod.mk.inj h).2.symm

/-- Where the rule has applied, it has read a plan off the match that ends at the node. -/
theorem exists_reading_of_applied (hk : g.Numbered) {id : Nat} {nodes : List Nat}
    (h : (bidirectionalRule.attempt id).apply g = (.ok (.applied nodes), g')) :
    ∃ (m : Match) (i : Nat) (plan : BidirectionalPlan) (concat forward backward : Node β)
      (y z a b : Value) (first second : Option Nat), nodes = m.nodes ∧
        Reading (bidirectionalPattern (β := β)).1 g m ⟨id, i⟩ plan concat forward backward y z a b
          first second ∧ plan.fuse.apply g = (.ok true, g') := by
  obtain ⟨n, i, m, -, -, hm, rfl, hact⟩ := Rule.exists_match_of_applied declines_bidirectionalRule h
  rw [pattern_bidirectionalRule] at hm
  rw [apply_action] at hact
  split at hact
  · next plan hplan =>
    obtain ⟨concat, forward, backward, y, z, a, b, first, second, hr⟩ :=
      exists_reading isBidirectional_bidirectionalPattern hk hm hplan
    exact ⟨m, i, plan, concat, forward, backward, y, z, a, b, first, second, rfl, hr, hact⟩
  · simp at hact

/-- Where the rule has applied, there was a plan that ends at the node. -/
theorem exists_plan_of_applied (hk : g.WellKept) {id : Nat} {nodes : List Nat}
    (h : (bidirectionalRule.attempt id).apply g = (.ok (.applied nodes), g')) :
    ∃ (plan : BidirectionalPlan) (concat forward backward : Node β) (a b : Value),
      plan.concat = id ∧ Involved g plan ∧ Aligned g plan concat forward backward a b ∧
        (∀ id, id ∈ nodes ↔ id ∈ plan.replaced) ∧ plan.fuse.apply g = (.ok true, g') := by
  obtain ⟨m, i, plan, concat, forward, backward, y, z, a, b, first, second, rfl, hr, hfuse⟩ :=
    exists_reading_of_applied hk.numbered h
  exact ⟨plan, concat, forward, backward, a, b, hr.ids_eq.1, hr.involved hk, hr.aligned,
    hr.mem_nodes_iff, hfuse⟩

/-- No reference dangles after the replacement exactly when the values without a replacement had no
readers but the nodes that are taken out. -/
theorem Involved.noDangling_fuse_iff (hi : Involved g plan) (hk : g.WellKept) (ha : g.Acyclic)
    (hd : g.NoDangling) (hfuse : plan.fuse.apply g = (.ok true, g')) :
    g'.NoDangling ↔ ∀ v, v.node ∈ plan.replaced → v ∉ plan.moved →
      v ∉ g.outputs ∧ ∀ u, g.Reads u v → u.node ∈ plan.replaced := by
  obtain ⟨k, values, hr, rfl, hvalues⟩ := rerouted_fuse hk hd ha hi hfuse
  refine hr.noDangling_iff fun u v hv hmoved hu hread hmem => ?_
  -- A constant that reads the concatenation and is read by one of the nodes would make a cycle.
  obtain ⟨x, hx, hxu⟩ := List.mem_map.1 hmem
  obtain ⟨w, hw, hwc, hreads⟩ := hvalues x hx
  have hfeeds : g.Feeds u.node w.node := by
    rw [← hxu]
    obtain hwx | hwx := hreads
    · exact hwx.feeds
    · exact (hr.old (hi.lt_length hw) (hxu ▸ hread.lt_length) hwx).feeds
  by_cases hvc : v.node = plan.concat
  · have hpath := (hi.transGen_concat hw).resolve_left hwc
    exact ha _ ((Relation.TransGen.single (hvc ▸ hread.feeds)).tail hfeeds |>.trans hpath)
  · exact hu (hi.reader_mem hd hv hvc hmoved hread)

/-- **References after a bidirectional replacement.**  Where the rule has applied, no reference
dangles afterwards exactly when the results that get no replacement were seen by the matched nodes
alone. -/
theorem noDangling_attempt_iff (hk : g.WellKept) (ha : g.Acyclic) (hd : g.NoDangling) {id : Nat}
    {nodes : List Nat}
    (h : (bidirectionalRule.attempt id).apply g = (.ok (.applied nodes), g')) :
    g'.NoDangling ↔ ResultsHidden g id nodes := by
  obtain ⟨plan, _, _, _, _, _, rfl, hi, -, hnodes, hfuse⟩ := exists_plan_of_applied hk h
  rw [hi.noDangling_fuse_iff hk ha hd hfuse, resultsHidden_iff hk hd ha hi hnodes]

/-! ### Two directions over one parameter -/

def parameterSpec (lengths : List Nat) : NodeSpec Unit where
  op := .parameter
  outputs := [.planar (.ofLengths lengths) .f32]

/-- A sequence node in the given direction, whose operands are the first seven nodes. -/
def directionSpec (direction : String) : NodeSpec Unit where
  op := .lstmSequence
  name := some direction
  inputs := [⟨0, 0⟩, ⟨2, 0⟩, ⟨3, 0⟩, ⟨1, 0⟩, ⟨4, 0⟩, ⟨5, 0⟩, ⟨6, 0⟩]
  outputs := [.planar (.ofLengths [2, 1, 5, 2]) .f32, .planar (.ofLengths [2, 1, 2]) .f32,
    .planar (.ofLengths [2, 1, 2]) .f32]
  attributes := Attributes.empty.insert "direction" (.str direction)

/-- Two directions over one sequence, numbers 7 and 8, and their concatenation, number 9. -/
def twoDirectionsSpecs : List (NodeSpec Unit) :=
  [parameterSpec [2, 5, 3], parameterSpec [2], parameterSpec [2, 1, 2], parameterSpec [2, 1, 2],
    parameterSpec [1, 8, 3], parameterSpec [1, 8, 2], parameterSpec [1, 8],
    directionSpec "forward", directionSpec "reverse",
    { op := .concat
      inputs := [⟨7, 0⟩, ⟨8, 0⟩]
      outputs := [.planar (.ofLengths [2, 2, 5, 2]) .f32]
      attributes := Attributes.empty.insert "axis" (.int 1) }]

def twoDirections (outputs : List Value) : Graph Unit :=
  .ofSpecs twoDirectionsSpecs outputs

theorem twoDirections_sound (outputs : List Value)
    (hout : outputs.all (twoDirections outputs).hasValue = true) :
    (twoDirections outputs).WellKept ∧ (twoDirections outputs).Acyclic ∧
      (twoDirections outputs).NoDangling :=
  Graph.ofSpecs_sound twoDirectionsSpecs outputs (by decide +kernel) hout

/-- Where the concatenation is the only output of the graph, nothing reads the first results of the
directions apart from it, and no reference dangles. -/
theorem attempt_twoDirections :
    ((twoDirections [⟨9, 0⟩]).WellKept ∧ (twoDirections [⟨9, 0⟩]).Acyclic ∧
      (twoDirections [⟨9, 0⟩]).NoDangling) ∧
        ((bidirectionalRule.attempt 9).apply (twoDirections [⟨9, 0⟩])).1 = .ok (.applied [9, 7, 8]) ∧
          ((bidirectionalRule.attempt 9).apply (twoDirections [⟨9, 0⟩])).2.NoDangling := by
  obtain ⟨hk, ha, hd⟩ := twoDirections_sound [⟨9, 0⟩] (by decide +kernel)
  have happlied : ((bidirectionalRule.attempt 9).apply (twoDirections [⟨9, 0⟩])).1 =
      .ok (.applied [9, 7, 8]) := by
    decide +kernel
  refine ⟨⟨hk, ha, hd⟩, happlied,
    (noDangling_attempt_iff hk ha hd (Prod.ext happlied rfl)).2 ⟨fun v hv _ hne => ?_, ?_⟩⟩
  · exact absurd (congrArg Value.node (List.mem_singleton.1 hv)) hne
  · intro k hk0
    have hnot : (⟨9, k⟩ : Value) ∉ (twoDirections [⟨9, 0⟩]).outputs := by
      simp [twoDirections, Graph.ofSpecs, Graph.setOutputs, hk0]
    refine hk.indexed.isUnused_iff.2 ⟨hnot, fun u hu => hk0 ?_⟩
    obtain ⟨n, hn, hlt⟩ := Graph.hasValue_iff.1 (hd.reads hu)
    have houts : ((twoDirections [⟨9, 0⟩]).live? 9).all (·.outputs.length = 1) = true := by
      decide +kernel
    rw [hn] at houts
    simp only [Option.all_some, decide_eq_true_eq] at houts
    exact Nat.lt_one_iff.1 (houts ▸ hlt)

/-- A reference is left dangling when the result of the forward direction is an output of the graph
as well. -/
theorem exists_dangling_after_attempt :
    ¬ ∀ (g g' : Graph Unit) (id : Nat) (nodes : List Nat), g.WellKept → g.Acyclic → g.NoDangling →
      (bidirectionalRule.attempt id).apply g = (.ok (.applied nodes), g') → g'.NoDangling := by
  intro hall
  obtain ⟨hk, ha, hd⟩ := twoDirections_sound [⟨9, 0⟩, ⟨7, 0⟩] (by decide +kernel)
  have happlied : ((bidirectionalRule.attempt 9).apply (twoDirections [⟨9, 0⟩, ⟨7, 0⟩])).1 =
      .ok (.applied [9, 7, 8]) := by
    decide +kernel
  have hafter := hall _ _ 9 [9, 7, 8] hk ha hd (Prod.ext happlied rfl)
  exact absurd (hafter.outputs ⟨7, 0⟩ (by decide +kernel)) (by decide +kernel)

end BidirectionalPlan

end Dataflow
