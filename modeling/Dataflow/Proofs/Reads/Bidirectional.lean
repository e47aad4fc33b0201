import Dataflow.Proofs.Reads.Matching
import Dataflow.Proofs.Recurrent.BidirectionalAtomicity

/-!
# Putting two directions together with direct reads

The search for a plan reads the operands and the outputs of the two sequence nodes directly.  The
pattern gives both nodes all seven operands, and the number of outputs is looked at first.  The
replacement reads the operands once more and joins constants.  The search has found their shapes to
agree, so that joining them does not read past the end of a shape.

## Main definitions

* `BidirectionalPlan.findDirect?`, `BidirectionalPlan.fuseDirect` : the search and the replacement with
  direct reads.
* `bidirectionalRuleDirect` : the rule with these.

## Main statements

* `BidirectionalPlan.finds_find?`, `BidirectionalPlan.fuseDirect_eq` : they do the same.
* `BidirectionalPlan.inRange_fuse` : the replacement does not read past the end of a list.
* `apply_bidirectionalRuleDirect` : the action of the rule.
-/

namespace Dataflow

variable {β : Type}

/-! ### Joining tensors -/

namespace Tensor

variable {axis : Nat}

theorem checkParts_ne_outOfRange {common : List Nat} {shapes : List (List Nat)}
    (h : ∀ shape ∈ shapes, axis < shape.length) :
    checkParts common axis shapes ≠ .error .outOfRange := by
  induction shapes with
  | nil => simp [checkParts]
  | cons shape rest ih =>
    obtain ⟨hshape, hrest⟩ := List.forall_mem_cons.1 h
    simp only [checkParts, offAxis, if_pos hshape, bind, Except.bind]
    split
    · exact ih hrest
    · simp [throw, throwThe, MonadExceptOf.throw]

/-- Tensors whose ranks reach the axis are joined without reading past the end of a shape. -/
theorem concat_ne_outOfRange {parts : List Tensor} (h : ∀ t ∈ parts, axis < t.rank) :
    concat parts axis ≠ .error .outOfRange := by
  have hshapes : ∀ shape ∈ parts.map Tensor.shape, axis < shape.length := by
    simpa [Tensor.rank] using h
  have hassemble {α : Type} (wrap : List α → Elements) (first : List Nat) (data : List (List α)) :
      assemble wrap first axis (parts.map Tensor.shape) data ≠ .error .outOfRange := by
    refine bind_ne_error (checkParts_ne_outOfRange hshapes) fun _ => ?_
    refine bind_ne_error (mapM_ne_error fun shape hshape => ?_) fun _ => ?_
    · rw [lengthAt, List.getElem?_eq_getElem (hshapes shape hshape)]
      simp
    · dsimp only
      split
      · unfold ofElements
        split <;> simp
      · simp [throw, throwThe, MonadExceptOf.throw]
  unfold concat
  split
  · simp
  · split
    · split
      · refine bind_ne_error (mapM_ne_error fun t _ => ?_) fun _ => hassemble _ _ _
        unfold singles
        split <;> simp
      · refine bind_ne_error (mapM_ne_error fun t _ => ?_) fun _ => hassemble _ _ _
        unfold ints
        split <;> simp
    · simp

end Tensor

/-! ### New nodes -/

section StoredIn

variable {g k : Graph β} {v : Value}

/-- The nodes of a graph are still stored, unchanged. -/
def Graph.StoredIn (g k : Graph β) : Prop :=
  ∀ id n, g.node? id = some n → k.node? id = some n

theorem Graph.StoredIn.refl : g.StoredIn g :=
  fun _ _ h => h

theorem Graph.StoredIn.push (h : g.StoredIn k) (spec : NodeSpec β) : g.StoredIn (k.push spec) := by
  intro id n hn
  obtain ⟨s, hs, rfl⟩ := Graph.node?_eq_some.1 (h id n hn)
  exact Graph.node?_eq_some.2 ⟨s, Graph.slot?_push_of_slot? spec hs, rfl⟩

/-- A value with a layout is the same constant, or none. -/
theorem Graph.StoredIn.constant?_eq (h : g.StoredIn k) (hv : (g.layout? v).isSome) :
    k.constant? v = g.constant? v := by
  obtain ⟨l, hl⟩ := Option.isSome_iff_exists.1 hv
  obtain ⟨n, hn, -⟩ := Option.bind_eq_some_iff.1 hl
  rw [Graph.constant?, Graph.constant?, hn, Graph.producer?, h _ _ hn]

theorem Edit.extensible_storedIn (g : Graph β) :
    Edit.Extensible g.StoredIn (fun _ => True) (fun _ => True) where
  push hg _ _ := hg.push _
  new _ _ := trivial
  weaken h := h

theorem Edit.InRange.bind_keeps {α γ : Type} {Q : Graph β → Prop} {R : α → Prop} {e : Edit β α}
    {f : α → Edit β γ} (he : e.InRange k) (hkeeps : Edit.Keeps Q R e) (hk : Q k)
    (hf : ∀ a h, Q h → (f a).InRange h) : (e >>= f).InRange k := by
  refine he.bind fun a h hok => hf a h ?_
  have hkept := (hkeeps k hk).1
  rwa [hok] at hkept

end StoredIn

namespace BidirectionalPlan

variable {g : Graph β} {plan : BidirectionalPlan} {forward backward : Node β} {v w : Value}
  {name : String}

/-! ### The search -/

/-- Whether an operand of the two directions has the given rank and equal layouts, and equal shapes
and element types if both values are constant. -/
def operandsAgreeDirect (g : Graph β) (forward backward : Node β) (i rank : Nat) : Direct Bool := do
  let v ← .entry forward.inputs i
  let w ← .entry backward.inputs i
  return (match g.layout? v, g.layout? w with
      | some a, some b => a == b && a.shape.rank == rank
      | _, _ => false) &&
    (match g.constant? v, g.constant? w with
      | some x, some y => x.shape == y.shape && x.rank == rank && x.elementType == y.elementType
      | _, _ => true)

/-- Whether the listed operands of the two directions agree, up to the first that do not. -/
def allAgreeDirect (g : Graph β) (forward backward : Node β) : List (Nat × Nat) → Direct Bool
  | [] => return true
  | (i, rank) :: rest =>
    operandsAgreeDirect g forward backward i rank <&&> allAgreeDirect g forward backward rest

/-- Whether a sequence node declares the outputs of a single direction. -/
def declaresOneDirectionDirect (n : Node β) : Direct Bool := do
  if n.outputs.length = 3 then
    let y ← .entry n.outputs 0
    let h ← .entry n.outputs 1
    let c ← .entry n.outputs 2
    return y.shape.rank == 4 && y.shape.dim? 1 == some (.known 1) && h.shape.rank == 3 &&
      h.shape.dim? 1 == some (.known 1) && c == h
  else return false

/-- Whether the two directions have operands and outputs of the same layouts. -/
def compatibleDirect (g : Graph β) (forward backward : Node β) : Direct Bool :=
  (allAgreeDirect g forward backward operandRanks <&&> pure (forward.outputs == backward.outputs))
    <&&> declaresOneDirectionDirect forward

/-- The plan for a match of `bidirectionalPattern`. -/
def findDirect? (g : Graph β) (p : BidirectionalPattern) (m : Match) : Direct BidirectionalPlan := do
  let concat ← .ofOption (g.node? m.root.node)
  let y ← .ofOption (m.get? p.forward)
  let z ← .ofOption (m.get? p.backward)
  guard (y.index = 0 ∧ z.index = 0)
  let forward ← .ofOption (g.producer? y)
  let backward ← .ofOption (g.producer? z)
  guard (forward.direction = "forward" ∧ backward.direction = "reverse")
  guard (sharedAttributes.all fun a =>
    Attribute.sameOption (forward.attribute? a) (backward.attribute? a))
  guard (!g.hasPath forward.id backward.id && !g.hasPath backward.id forward.id)
  guard (← compatibleDirect g forward backward)
  let forwardSqueeze ← .ofOption (squeeze? g y (← .ofOption (m.get? p.forwardSqueeze)))
  let backwardSqueeze ← .ofOption (squeeze? g z (← .ofOption (m.get? p.backwardSqueeze)))
  let rank := (← .ofOption concat.outputs[0]?).shape.rank
  let axis ← .ofOption (normalizeAxis (← .ofOption (concat.int? "axis")) rank).toOption
  let (joint, squeezes) ← .ofOption (joint? forwardSqueeze backwardSqueeze rank axis)
  return { concat := concat.id, forward := forward.id, backward := backward.id, squeezes, joint }

section Search

theorem finds_operandsAgree {i : Nat} (hi : i < forward.inputs.length)
    (hi' : i < backward.inputs.length) (rank : Nat) :
    (operandsAgreeDirect g forward backward i rank).Finds
      (some (operandsAgree g forward backward i rank)) := by
  have hv := List.getElem?_eq_getElem hi
  have hw := List.getElem?_eq_getElem hi'
  unfold operandsAgreeDirect operandsAgree
  rw [hv, hw]
  exact .entry_bind hv (.entry_bind hw .pure)

theorem finds_allAgree {operands : List (Nat × Nat)}
    (hall : ∀ p ∈ operands, p.1 < forward.inputs.length ∧ p.1 < backward.inputs.length) :
    (allAgreeDirect g forward backward operands).Finds
      (some (operands.all fun p => operandsAgree g forward backward p.1 p.2)) := by
  induction operands with
  | nil => exact .pure
  | cons p rest ih =>
    obtain ⟨⟨hi, hi'⟩, hrest⟩ := List.forall_mem_cons.1 hall
    rw [List.all_cons]
    exact (finds_operandsAgree hi hi' p.2).andM (ih hrest)

theorem finds_declaresOneDirection (n : Node β) :
    (declaresOneDirectionDirect n).Finds (some (declaresOneDirection n)) := by
  unfold declaresOneDirectionDirect declaresOneDirection
  by_cases hlen : n.outputs.length = 3
  · obtain ⟨y, h, c, houts⟩ := List.length_eq_three.1 hlen
    rw [if_pos hlen, houts]
    exact .entry_bind rfl (.entry_bind rfl (.entry_bind rfl .pure))
  · rw [if_neg hlen]
    split
    · next houts => exact absurd (by rw [houts]; rfl) hlen
    · exact .pure

theorem finds_compatible (hlen : forward.inputs.length = 7) (hlen' : backward.inputs.length = 7) :
    (compatibleDirect g forward backward).Finds (some (compatible g forward backward)) := by
  refine ((finds_allAgree ?_).andM .pure).andM (finds_declaresOneDirection forward)
  rw [hlen, hlen']
  decide

/-- The sequence nodes of a match have all operands. -/
theorem length_inputs_of_matchValue {p : Pattern β} (hp : IsBidirectional p) {m : Match}
    (hm : p.matchValue g v = some m) {y : Value} {n : Node β}
    (hy : m.get? 7 = some y ∨ m.get? 13 = some y) (hn : g.producer? y = some n) :
    n.inputs.length = 7 := by
  have hagrees := (Pattern.agrees_of_matchValue hp.wellFormed hm).2
  have hR := Pattern.isEmbedding_of_matchValue hp.wellFormed hm
  rw [hagrees.get?, hagrees.get?] at hy
  obtain hy | hy := hy
  · exact hR.length_inputs hp.forward rfl (by simp) hy hn
  · exact hR.length_inputs hp.backward rfl (by simp) hy hn

theorem finds_find? {p : Pattern β} (hp : IsBidirectional p) {m : Match}
    (hm : p.matchValue g v = some m) :
    (findDirect? g ⟨7, 13, 14, 15⟩ m).Finds (find? g ⟨7, 13, 14, 15⟩ m) := by
  unfold findDirect? find?
  refine .bind .ofOption fun concat _ => ?_
  refine .bind .ofOption fun y hy => .bind .ofOption fun z hz => .guard_bind fun _ => ?_
  refine .bind .ofOption fun forward hforward => .bind .ofOption fun backward hbackward => ?_
  refine .guard_bind fun _ => .guard_bind fun _ => .guard_bind fun _ => ?_
  have hlen := length_inputs_of_matchValue hp hm (.inl hy) hforward
  have hlen' := length_inputs_of_matchValue hp hm (.inr hz) hbackward
  refine .bind_some (finds_compatible hlen hlen') (.guard_bind fun _ => ?_)
  refine .bind .ofOption fun _ _ => .bind .ofOption fun _ _ => ?_
  refine .bind .ofOption fun _ _ => .bind .ofOption fun _ _ => ?_
  refine .bind .ofOption fun _ _ => .bind .ofOption fun _ _ => .bind .ofOption fun _ _ => ?_
  exact .bind .ofOption fun _ _ => .pure

end Search

/-! ### The replacement -/

/-- Two operands laid end to end along an axis. -/
def joinDirect (name : String) (v w : Value) (axis : Nat) : Edit β Value := do
  let g ← get
  match g.constant? v, g.constant? w with
  | some a, some b =>
    let t ← Edit.pureExcept (Tensor.concat [a, b] axis)
    Edit.addConstant name t
  | _, _ => Edit.concatDirect name [v, w] axis

/-- The bidirectional node, together with its operands. -/
def addBothDirect (forward backward : Node β) : Edit β Nat := do
  let name := forward.name
  let (h, h') ← operands forward backward 1
  let h ← Edit.concatDirect (name ++ "/h_init") [h, h'] 1
  let (c, c') ← operands forward backward 2
  let c ← Edit.concatDirect (name ++ "/c_init") [c, c'] 1
  let (w, w') ← operands forward backward 4
  let w ← joinDirect (name ++ "/W") w w' 0
  let (r, r') ← operands forward backward 5
  let r ← joinDirect (name ++ "/R") r r' 0
  let (b, b') ← operands forward backward 6
  let b ← joinDirect (name ++ "/B") b b' 0
  let y ← Edit.layoutOf (forward.output 0)
  let state ← Edit.layoutOf (forward.output 1)
  let (x, _) ← operands forward backward 0
  let (lengths, _) ← operands forward backward 3
  Edit.addNode (spec forward [x, h, c, lengths, w, r, b] y state)

/-- The results of both directions put together as the readers expect them. -/
def joinedDirect (joint : Joint) (name : String) (fused : Nat) : Edit β Value := do
  match joint with
  | .direction => return ⟨fused, 0⟩
  | .feature =>
    let t ← Edit.transpose (name ++ "/y_transpose") ⟨fused, 0⟩ [0, 2, 1, 3]
    Edit.reshapeDirect (name ++ "/y_reshape") t [0, 0, -1]

/-- The replacement, whose operands and parts of states are read directly in any case. -/
def fuseDirect (plan : BidirectionalPlan) : Edit β Bool := do
  let g ← get
  match g.node? plan.forward, g.node? plan.backward with
  | some forward, some backward =>
    let name := forward.name
    let fused ← addBothDirect forward backward
    let y ← joinedDirect plan.joint name fused
    let _ ← Edit.redirect ⟨plan.concat, 0⟩ y
    plan.connectState name fused 1
    plan.connectState name fused 2
    let g ← get
    let squeezed := plan.squeezes.flatMap fun id => ((g.node? id).map Node.inputs).getD []
    eliminateNodes (plan.concat :: plan.squeezes ++ [plan.forward, plan.backward])
    let _ ← Edit.always
      (Graph.eliminateUnusedConstants (forward.inputs ++ backward.inputs ++ squeezed))
    return true
  | _, _ => return false

theorem fuseDirect_eq (plan : BidirectionalPlan) : (plan.fuseDirect : Edit β Bool) = plan.fuse := by
  have hjoin (name : String) (v w : Value) (axis : Nat) :
      (joinDirect name v w axis : Edit β Value) = join name v w axis := by
    unfold joinDirect
    simp only [Edit.concatDirect_eq]
    rfl
  have hadd (forward backward : Node β) :
      addBothDirect forward backward = addBoth forward backward := by
    unfold addBothDirect
    simp only [Edit.concatDirect_eq, hjoin]
    rfl
  have hjoined (joint : Joint) (name : String) (fused : Nat) :
      (joinedDirect joint name fused : Edit β Value) = joined joint name fused := by
    unfold joinedDirect
    simp only [Edit.reshapeDirect_eq]
    rfl
  unfold fuseDirect
  simp only [hadd, hjoined]
  rfl

/-! ### The replacement in range -/

section InRange

variable {k : Graph β} {i : Nat}

theorem inRange_operands_bind {α : Type} {f : Value × Value → Edit β α}
    (hi : i < forward.inputs.length) (hi' : i < backward.inputs.length)
    (hf : ∀ v w, forward.inputs[i]? = some v → backward.inputs[i]? = some w → (f (v, w)).InRange k) :
    (operands forward backward i >>= f).InRange k := by
  have hv := List.getElem?_eq_getElem hi
  have hw := List.getElem?_eq_getElem hi'
  unfold operands
  simp only [hv, hw, pure_bind]
  exact hf _ _ hv hw

/-- Constants whose layouts have been looked at before are joined as they were then. -/
theorem inRange_join (hk : g.StoredIn k) (hv : (g.layout? v).isSome) (hw : (g.layout? w).isSome)
    (hconst : ∀ s t, g.constant? v = some s → g.constant? w = some t → 0 < s.rank ∧ 0 < t.rank) :
    (join name v w 0).InRange k := by
  refine Edit.InRange.get.bind fun h k' hget => ?_
  obtain ⟨rfl, rfl⟩ : h = k ∧ k' = k := by simpa [eq_comm] using hget
  rw [hk.constant?_eq hv, hk.constant?_eq hw]
  split
  · next s t hs ht =>
    obtain ⟨hs, ht⟩ := hconst s t hs ht
    refine (Edit.InRange.pureExcept (Tensor.concat_ne_outOfRange ?_)).bind fun _ _ _ => .always _
    simpa using ⟨hs, ht⟩
  · exact Edit.inRange_concat

/-- The operands at an input that is compared can be joined. -/
theorem inRange_join_of_compatible (hc : compatible g forward backward = true) (hk : g.StoredIn k)
    {r : Nat} (hi : (i, r + 1) ∈ operandRanks) (hv : forward.inputs[i]? = some v)
    (hw : backward.inputs[i]? = some w) : (join name v w 0).InRange k := by
  simp only [compatible, Bool.and_eq_true, List.all_eq_true] at hc
  obtain ⟨v', w', l, hv', hw', hl, hl', -, hconst⟩ := exists_of_operandsAgree (hc.1.1 _ hi)
  obtain rfl := Option.some.inj (hv.symm.trans hv')
  obtain rfl := Option.some.inj (hw.symm.trans hw')
  refine inRange_join hk (by simp [hl]) (by simp [hl']) fun s t hs ht => ?_
  obtain ⟨hshape, hrank, -⟩ := hconst s t hs ht
  have hsame : t.rank = s.rank := congrArg List.length hshape
  omega

theorem inRange_addBoth (hlen : forward.inputs.length = 7) (hlen' : backward.inputs.length = 7)
    (hc : compatible g forward backward = true) : (addBoth forward backward).InRange g := by
  have hQ := Edit.extensible_storedIn g
  have hlt {i : Nat} (hi : i < 7) : i < forward.inputs.length := hlen ▸ hi
  have hlt' {i : Nat} (hi : i < 7) : i < backward.inputs.length := hlen' ▸ hi
  have hconcat {name : String} {values : List Value} :
      Edit.Keeps g.StoredIn (fun _ => True) (Edit.concat name values 1) :=
    hQ.concat fun _ _ => trivial
  have hjoin {name : String} {v w : Value} :
      Edit.Keeps g.StoredIn (fun _ => True) (join name v w 0) :=
    keeps_join hQ trivial trivial
  refine inRange_operands_bind (hlt (by decide)) (hlt' (by decide)) fun _ _ _ _ => ?_
  refine Edit.inRange_concat.bind_keeps hconcat .refl fun h _ h₁ => ?_
  refine inRange_operands_bind (hlt (by decide)) (hlt' (by decide)) fun _ _ _ _ => ?_
  refine Edit.inRange_concat.bind_keeps hconcat h₁ fun c _ h₂ => ?_
  refine inRange_operands_bind (hlt (by decide)) (hlt' (by decide)) fun _ _ hv hw => ?_
  refine (inRange_join_of_compatible hc h₂ (i := 4) (r := 2) (by decide) hv hw).bind_keeps hjoin h₂
    fun w _ h₃ => ?_
  refine inRange_operands_bind (hlt (by decide)) (hlt' (by decide)) fun _ _ hv hw => ?_
  refine (inRange_join_of_compatible hc h₃ (i := 5) (r := 2) (by decide) hv hw).bind_keeps hjoin h₃
    fun r _ h₄ => ?_
  refine inRange_operands_bind (hlt (by decide)) (hlt' (by decide)) fun _ _ hv hw => ?_
  refine (inRange_join_of_compatible hc h₄ (i := 6) (r := 1) (by decide) hv hw).bind_keeps hjoin h₄
    fun b _ h₅ => ?_
  refine Edit.InRange.layoutOf.bind fun y _ _ => Edit.InRange.layoutOf.bind fun state _ _ => ?_
  refine inRange_operands_bind (hlt (by decide)) (hlt' (by decide)) fun _ _ _ _ => ?_
  exact inRange_operands_bind (hlt (by decide)) (hlt' (by decide)) fun _ _ _ _ => .addNode _

theorem inRange_joined {joint : Joint} {fused : Nat} : (joined joint name fused).InRange k := by
  cases joint with
  | direction => exact .pure _
  | feature => exact Edit.inRange_transpose.bind fun _ _ _ => Edit.inRange_reshape

/-- A state of both directions is split in two. -/
theorem inRange_connectState {fused : Nat} : (plan.connectState name fused i).InRange k := by
  refine Edit.InRange.get.bind fun h _ _ => .ite (fun _ => ?_) fun _ => .pure _
  refine Edit.inRange_split.bind fun parts _ hsplit => ?_
  obtain ⟨-, -, -, -, -, rfl, -⟩ := Edit.apply_split_ok hsplit
  exact (Edit.InRange.always _).bind fun _ _ _ => (Edit.InRange.always _).bind fun _ _ _ => .pure _

theorem inRange_eliminateNodes (ids : List Nat) : (eliminateNodes ids : Edit β Unit).InRange k := by
  induction ids generalizing k with
  | nil => exact .pure _
  | cons id rest ih => exact (Edit.InRange.always _).bind fun _ _ _ => ih

theorem inRange_connect {fused : Nat} : (plan.connect forward backward fused).InRange k :=
  inRange_joined.bind fun _ _ _ => (Edit.InRange.always _).bind fun _ _ _ =>
    inRange_connectState.bind fun _ _ _ => inRange_connectState.bind fun _ _ _ =>
      Edit.InRange.get.bind fun _ _ _ => (inRange_eliminateNodes _).bind fun _ _ _ =>
        (Edit.InRange.always _).bind fun _ _ _ => .pure _

/-- The replacement of the nodes of a plan does not read past the end of a list. -/
theorem inRange_fuse {p : Pattern β} (hp : IsBidirectional p) (hg : g.Numbered) {m : Match}
    (hm : p.matchValue g v = some m) (h : find? g ⟨7, 13, 14, 15⟩ m = some plan) :
    plan.fuse.InRange g := by
  obtain ⟨_, forward, backward, y, z, _, _, _, _, hf⟩ := exists_found h
  obtain ⟨hy, hz, -, -⟩ := hf.values
  obtain ⟨-, hforward, hbackward⟩ := hf.stored
  have hlen := length_inputs_of_matchValue hp hm (.inl hy) hforward
  have hlen' := length_inputs_of_matchValue hp hm (.inr hz) hbackward
  have hid : forward.id = y.node := hg _ _ hforward
  have hid' : backward.id = z.node := hg _ _ hbackward
  have hforward : g.node? plan.forward = some forward := by rw [hf.ids.2.1, hid]; exact hforward
  have hbackward : g.node? plan.backward = some backward := by rw [hf.ids.2.2, hid']; exact hbackward
  rw [Edit.InRange, apply_fuse hforward hbackward]
  exact (inRange_addBoth hlen hlen' hf.compatible).bind fun _ _ _ => inRange_connect

end InRange

end BidirectionalPlan

/-! ### The rule -/

/-- The rule with direct reads. -/
def bidirectionalRuleDirect : Rule β :=
  let (pattern, nodes) := bidirectionalPattern
  { name := "fuse_bidirectional_lstm_sequence"
    pattern
    action := fun m => do
      match ← Edit.askDirect fun g => BidirectionalPlan.findDirect? g nodes m with
      | some plan => plan.fuseDirect
      | none => return false }

/-- The action with direct reads does the same at a match, and neither reads past the end of a
list. -/
theorem apply_bidirectionalRuleDirect {g : Graph β} {id : Nat} {m : Match} (hg : g.Numbered)
    (hm : bidirectionalRule.MatchesAt g id m) :
    (bidirectionalRuleDirect.action m).apply g = (bidirectionalRule.action m).apply g ∧
      (bidirectionalRule.action m).InRange g := by
  obtain ⟨_, _, -, -, hm⟩ := hm
  have hp : IsBidirectional (bidirectionalRule (β := β)).pattern :=
    isBidirectional_bidirectionalPattern
  have hact : (bidirectionalRuleDirect.action m : Edit β Bool) = (do
      match ← Edit.askDirect fun g => BidirectionalPlan.findDirect? g ⟨7, 13, 14, 15⟩ m with
      | some plan => plan.fuseDirect
      | none => return false) := rfl
  have hfind := BidirectionalPlan.finds_find? hp hm
  rw [hact, Edit.apply_bind_of_ok (Edit.apply_askDirect hfind), Edit.InRange,
    BidirectionalPlan.apply_action]
  cases h : BidirectionalPlan.find? g ⟨7, 13, 14, 15⟩ m with
  | none => exact ⟨rfl, by simp⟩
  | some plan =>
    dsimp only
    rw [BidirectionalPlan.fuseDirect_eq]
    exact ⟨rfl, BidirectionalPlan.inRange_fuse hp hg hm h⟩

end Dataflow
