import Dataflow.Proofs.Recurrent.BidirectionalAtomicity
import Dataflow.Proofs.Recurrent.BidirectionalReaders
import Dataflow.Proofs.Runtime.Shapes

/-!
# The layouts after two directions have become one node

Laying the results of two directions end to end adds up their lengths on one axis.  On the axis for
the directions, the bidirectional node declares this sum itself.  On the axis of the features, its
result is transposed and reshaped, and the length of the last axis is inferred from the others: if
one of these is not known before the graph runs, the length is not known either, although it is
twice the hidden size.

## Main definitions

* `BidirectionalPlan.SqueezesDeclared` : squeezes that declare what they squeeze without an axis.
* `BidirectionalPlan.SqueezesCounted` : squeezes of so few elements that two of them have a word many.
* `Layout.inferred` : a layout whose last length is known only if the other lengths are.

## Main statements

* `Shape.reshape_twoDirections` : what the inferred length comes to.
* `BidirectionalPlan.exists_joined_layout` : the layout of the joined results.
* `BidirectionalPlan.layouts_attempt` : what takes the place of the concatenation, next to what the
  concatenation of the same values declares.
-/

namespace Dataflow

variable {β : Type}

/-- The layout of rank three whose last length is known only if the other two are. -/
def Layout.inferred (l : Layout) : Layout :=
  if (l.shape.dims.take 2).all Dim.isKnown then l
  else .planar (l.shape.setDim 2 .unknown) l.elementType

/-- The lengths of the directions and of the features, taken together, are twice the features.  They
are found only if all other lengths are known, and they are right if the number of elements is a
word. -/
theorem Shape.reshape_twoDirections {b t k : Dim} {s : Shape}
    (h : (Shape.mk [b, t, .known 2, k]).reshape [0, 0, -1] = .ok s)
    (hcount : ∀ lengths ∈ (Shape.mk [b, t, k]).lengths?, 2 * numel lengths < 2 ^ 64)
    (type : ElementType) :
    Layout.planar s type = (Layout.planar ⟨[b, t, k.add k]⟩ type).inferred := by
  have hdims : reshapeDims ⟨[b, t, .known 2, k]⟩ [0, 0, -1] 0 false [0, 0, -1] =
      .ok ([b, t, .unknown], some 2) := rfl
  simp only [reshape, hdims, bind, Except.bind] at h
  cases b with
  | unknown =>
    obtain rfl : Shape.mk [.unknown, t, .unknown] = s := Except.ok.inj h
    rfl
  | known b =>
    cases t with
    | unknown =>
      obtain rfl : Shape.mk [.known b, .unknown, .unknown] = s := Except.ok.inj h
      rfl
    | known t =>
      cases k with
      | unknown =>
        obtain rfl : Shape.mk [.known b, .known t, .unknown] = s := Except.ok.inj h
        rfl
      | known k =>
        have htotal : knownCount [.known b, .known t, .known 2, .known k] =
            some (wordCount [b, t, 2, k]) := by
          simp [knownCount, Dim.length?]
        have hrest : knownCount ([.known b, .known t, .unknown].eraseIdx 2) =
            some (wordCount [b, t]) := by
          simp [knownCount, Dim.length?]
        have hfactor : numel [b, t, 2, k] = (k + k) * numel [b, t] := by
          simp only [numel_cons, numel_nil]
          grind
        have hlt : numel [b, t, 2, k] < 2 ^ 64 := by
          have htwice : 2 * numel [b, t, k] = numel [b, t, 2, k] := by
            simp only [numel_cons, numel_nil]
            grind
          exact htwice ▸ hcount [b, t, k] rfl
        rw [htotal, hrest] at h
        dsimp only at h
        split at h
        · simp at h
        · next hpos =>
          rw [div_wordCount_of_eq_mul hfactor hlt fun hzero => hpos (.inl hzero)] at h
          obtain rfl : Shape.mk [.known b, .known t, .known (k + k)] = s := Except.ok.inj h
          have hne : numel [b, t] ≠ 0 := fun hzero => hpos (.inl (by rw [wordCount, hzero]; rfl))
          have hsum : Word.wrap (k + k) = k + k := Word.wrap_of_lt (Nat.lt_of_le_of_lt
            (hfactor ▸ Nat.le_mul_of_pos_right _ (Nat.pos_of_ne_zero hne)) hlt)
          rw [Dim.add, hsum]
          rfl

namespace BidirectionalPlan

variable {g g' g₁ g₂ : Graph β} {plan : BidirectionalPlan} {forward backward : Node β}
  {fused : Nat} {y : Value} {l : Layout}

/-- Every squeeze among the operands of the node declares what it squeezes, without the second
axis. -/
def SqueezesDeclared (g : Graph β) (id : Nat) : Prop :=
  ∀ n ∈ g.live? id, ∀ a ∈ n.inputs, ∀ m ∈ g.live? a.node, m.op = .squeeze →
    ∀ y ∈ m.inputs[0]?, ∀ l ∈ g.layout? a, ∀ l' ∈ g.layout? y,
      l.shape = l'.shape.dropAxis 1 ∧ l.elementType = l'.elementType

instance (g : Graph β) (id : Nat) : Decidable (SqueezesDeclared g id) :=
  inferInstanceAs (Decidable (∀ n ∈ g.live? id, ∀ a ∈ n.inputs, ∀ m ∈ g.live? a.node,
    m.op = .squeeze → ∀ y ∈ m.inputs[0]?, ∀ l ∈ g.layout? a, ∀ l' ∈ g.layout? y,
      l.shape = l'.shape.dropAxis 1 ∧ l.elementType = l'.elementType))

/-- Every squeeze among the operands of the node has, if all of its lengths are known, so few elements
that twice their number is a word. -/
def SqueezesCounted (g : Graph β) (id : Nat) : Prop :=
  ∀ n ∈ g.live? id, ∀ a ∈ n.inputs, ∀ m ∈ g.live? a.node, m.op = .squeeze →
    ∀ l ∈ g.layout? a, ∀ lengths ∈ l.shape.lengths?, 2 * numel lengths < 2 ^ 64

instance (g : Graph β) (id : Nat) : Decidable (SqueezesCounted g id) :=
  inferInstanceAs (Decidable (∀ n ∈ g.live? id, ∀ a ∈ n.inputs, ∀ m ∈ g.live? a.node,
    m.op = .squeeze → ∀ l ∈ g.layout? a, ∀ lengths ∈ l.shape.lengths?, 2 * numel lengths < 2 ^ 64))

/-! ### The joined results -/

/-- Two directions that fit together declare the same outputs, the first one of rank four. -/
theorem exists_outputs_of_compatible (h : compatible g forward backward = true) :
    ∃ b t k type format rest,
      forward.outputs = ⟨⟨[b, .known 1, t, k]⟩, type, format⟩ :: rest ∧
        backward.outputs = forward.outputs := by
  simp only [compatible, Bool.and_eq_true, beq_iff_eq] at h
  obtain ⟨⟨-, hsame⟩, hone⟩ := h
  obtain ⟨⟨⟨dims⟩, type, format⟩, s, b, t, k, -, -, houts, hdims, -⟩ :=
    exists_outputs_of_declaresOneDirection hone
  obtain rfl : dims = [b, .known 1, t, k] := hdims
  exact ⟨b, t, k, type, format, [s, s], houts, hsame.symm⟩

/-- The bidirectional node declares the results of both directions. -/
theorem declares_addBoth (hadd : (addBoth forward backward).apply g = (.ok fused, g₁))
    (hforward : g.live? forward.id = some forward) (hl : forward.outputs[0]? = some l) :
    g₁.Declares ⟨fused, 0⟩ (bothDirections l) ∧
      ∃ n, g₁.live? fused = some n ∧ n.op = .lstmSequence := by
  obtain ⟨hgrows, hnew, -⟩ := grows_addBoth (S := fun _ => True) (fun _ _ => trivial)
    (fun _ _ => trivial) hadd
  obtain ⟨vs, ws, h, _, c, _, w, _, r, _, b, g₅, m, state, -, -, -, -, -, -, hm, -, -, rfl, rfl⟩ :=
    apply_addBoth_ok hadd
  have hlt : forward.id < g.slots.length := Graph.lt_length_of_live? hforward
  have hlive : g₅.live? forward.id = some forward := by
    have hlater := hgrows.live? hlt
    rwa [Graph.live?_push, if_neg (Nat.lt_of_lt_of_le hlt hnew).ne, hforward] at hlater
  have hlayout : g₅.layout? (forward.output 0) = some l :=
    Graph.Declares.layout? ⟨forward, hlive, hl⟩
  obtain rfl := Option.some.inj (hlayout.symm.trans hm)
  exact ⟨Graph.declares_push_new rfl, _, by rw [Graph.live?_push, if_pos rfl], rfl⟩

/-- The layout of results that are laid end to end. -/
def concatLayout (batch time hidden : Dim) (type : ElementType) : Joint → Layout
  | .direction => .planar ⟨[batch, .known 2, time, hidden]⟩ type
  | .feature => .planar ⟨[batch, time, hidden.add hidden]⟩ type

/-- The layout of the joined results of the bidirectional node. -/
def joinedLayout (batch time hidden : Dim) (type : ElementType) : Joint → Layout
  | .direction => concatLayout batch time hidden type .direction
  | .feature => (concatLayout batch time hidden type .feature).inferred

theorem exists_joined_layout {joint : Joint} {name : String} {batch time hidden : Dim}
    {type : ElementType} {n : Node β}
    (hfused : g₁.Declares ⟨fused, 0⟩ (.planar ⟨[batch, .known 2, time, hidden]⟩ type))
    (hn : g₁.live? fused = some n) (hop : n.op = .lstmSequence)
    (hcount : joint = .feature →
      ∀ lengths ∈ (Shape.mk [batch, time, hidden]).lengths?, 2 * numel lengths < 2 ^ 64)
    (hjoin : (joined joint name fused).apply g₁ = (.ok y, g₂)) :
    g₂.Declares y (joinedLayout batch time hidden type joint) ∧
      ∃ n, g₂.live? y.node = some n ∧ n.op ≠ .constant := by
  cases joint with
  | direction =>
    simp only [joined, Edit.apply_pure, Prod.mk.injEq, Except.ok.injEq] at hjoin
    obtain ⟨rfl, rfl⟩ := hjoin
    exact ⟨hfused, n, hn, by rw [hop]; decide⟩
  | feature =>
    obtain ⟨t, h, htranspose, hreshape⟩ := Edit.apply_bind_ok_iff.1 hjoin
    obtain ⟨m, l, hm, hl, -, rfl, rfl⟩ := Edit.apply_transpose_ok_iff.1 htranspose
    obtain rfl := Option.some.inj (hfused.layout?.symm.trans hm)
    obtain rfl : Layout.planar ⟨[batch, time, .known 2, hidden]⟩ type = l := Except.ok.inj hl
    obtain ⟨m, l, hm, hl, -, rfl, rfl⟩ := Edit.apply_reshape_ok_iff.1 hreshape
    obtain rfl := Option.some.inj (Graph.declares_pushWithInts.layout?.symm.trans hm)
    obtain ⟨s, hs, hl⟩ := bind_eq_ok.1 hl
    obtain rfl := Except.ok.inj hl
    have hinferred : Layout.planar s type = joinedLayout batch time hidden type .feature :=
      Shape.reshape_twoDirections hs (hcount rfl) type
    obtain ⟨n, hn, hop⟩ := Graph.exists_live?_pushWithInts (β := β)
    exact ⟨hinferred ▸ Graph.declares_pushWithInts, n, hn, by rw [hop]; decide⟩

/-! ### The concatenation -/

/-- The position of the axis on which the results are put together. -/
def jointAxis : Joint → Nat
  | .direction => 1
  | .feature => 2

/-- What drops the axis for the directions declares the result without it. -/
theorem Drops.layout_eq {s : Nat} {l' : Layout} (hs : Drops g y s)
    (hdeclared : ∀ m ∈ g.live? s, m.op = .squeeze → ∀ x ∈ m.inputs[0]?,
      ∀ l ∈ g.layout? ⟨s, 0⟩, ∀ l' ∈ g.layout? x,
        l.shape = l'.shape.dropAxis 1 ∧ l.elementType = l'.elementType)
    (hval : g.hasValue ⟨s, 0⟩ = true) (hy : g.layout? y = some l') :
    ∃ l, g.Declares ⟨s, 0⟩ l ∧ l.shape = l'.shape.dropAxis 1 ∧ l.elementType = l'.elementType := by
  obtain ⟨l, hl⟩ := Graph.exists_declares hval
  cases hs with
  | intro hn hop hin haxes haxis =>
    exact ⟨l, hl, hdeclared _ hn hop y (by rw [hin]; rfl) l hl.layout? l' hy⟩

/-- What laying the results of the two directions end to end declares. -/
theorem Ends.apply_concat {joint : Joint} {squeezes : List Nat} {a b : Value}
    {rank position source source' : Nat} {batch time hidden : Dim} {type : ElementType}
    {format : Format} (hends : Ends g source source' joint squeezes a b rank position)
    (ha : g.hasValue a = true) (hb : g.hasValue b = true)
    (hdeclared : ∀ c ∈ [a, b], ∀ m ∈ g.live? c.node, m.op = .squeeze → ∀ x ∈ m.inputs[0]?,
      ∀ l ∈ g.layout? c, ∀ l' ∈ g.layout? x,
        l.shape = l'.shape.dropAxis 1 ∧ l.elementType = l'.elementType)
    (hy : g.Declares ⟨source, 0⟩ ⟨⟨[batch, .known 1, time, hidden]⟩, type, format⟩)
    (hz : g.Declares ⟨source', 0⟩ ⟨⟨[batch, .known 1, time, hidden]⟩, type, format⟩) (name : String) :
    (Edit.concat name [a, b] position).apply g = (.ok ⟨g.slots.length, 0⟩,
      g.push (Edit.concatSpec name [a, b] position (concatLayout batch time hidden type joint))) := by
  cases hends with
  | direction =>
    have hone : (Shape.mk [batch, .known 1, time, hidden]).dim? 1 = some (.known 1) := rfl
    exact Edit.apply_concat_pair hy hz rfl rfl hone
  | feature hs hs' =>
    obtain ⟨⟨shape, type₁, _⟩, hl, hshape, htype⟩ :=
      hs.layout_eq (hdeclared _ List.mem_cons_self) ha hy.layout?
    obtain ⟨⟨shape', type₂, _⟩, hl', hshape', htype'⟩ :=
      hs'.layout_eq (hdeclared _ (List.mem_cons_of_mem _ List.mem_cons_self)) hb hz.layout?
    obtain rfl : shape = ⟨[batch, time, hidden]⟩ := hshape
    obtain rfl : shape' = ⟨[batch, time, hidden]⟩ := hshape'
    obtain rfl : type₁ = type := htype
    obtain rfl : type₂ = type₁ := htype'
    have hlast : (Shape.mk [batch, time, hidden]).dim? 2 = some hidden := rfl
    exact Edit.apply_concat_pair hl hl' rfl rfl hlast

/-- On the axis of the features, the operands have so few elements that twice their number is a
word. -/
theorem Ends.counted {squeezes : List Nat} {a b : Value} {rank position source source' : Nat}
    {batch time hidden : Dim} {type : ElementType} {format : Format}
    (hends : Ends g source source' .feature squeezes a b rank position) (ha : g.hasValue a = true)
    (hdeclared : ∀ m ∈ g.live? a.node, m.op = .squeeze → ∀ x ∈ m.inputs[0]?,
      ∀ l ∈ g.layout? a, ∀ l' ∈ g.layout? x,
        l.shape = l'.shape.dropAxis 1 ∧ l.elementType = l'.elementType)
    (hcounted : ∀ m ∈ g.live? a.node, m.op = .squeeze → ∀ l ∈ g.layout? a,
      ∀ lengths ∈ l.shape.lengths?, 2 * numel lengths < 2 ^ 64)
    (hy : g.Declares ⟨source, 0⟩ ⟨⟨[batch, .known 1, time, hidden]⟩, type, format⟩) :
    ∀ lengths ∈ (Shape.mk [batch, time, hidden]).lengths?, 2 * numel lengths < 2 ^ 64 := by
  cases hends with
  | feature hs _ =>
    obtain ⟨l, hl, hshape, -⟩ := hs.layout_eq hdeclared ha hy.layout?
    obtain ⟨hn, hop, -, -, -⟩ := hs
    have hall := hcounted _ hn hop l hl.layout?
    rwa [hshape] at hall

theorem Ends.position_eq {joint : Joint} {squeezes : List Nat} {a b : Value}
    {rank position source source' : Nat}
    (hends : Ends g source source' joint squeezes a b rank position) : position = jointAxis joint := by
  cases hends <;> rfl

/-- The concatenation reads existing values. -/
theorem Reading.hasValue_inputs {p : Pattern β} {m : Match} {concat : Node β} {v y z a b : Value}
    {first second : Option Nat}
    (hr : Reading p g m v plan concat forward backward y z a b first second) :
    g.hasValue a = true ∧ g.hasValue b = true := by
  obtain ⟨n, hn, -⟩ := hr.embedding.optional hr.closed hr.pattern.forwardSqueeze rfl
    hr.reaches_first
  obtain ⟨n', hn', -⟩ := hr.embedding.optional hr.closed hr.pattern.backwardSqueeze rfl
    hr.reaches_second
  exact ⟨by rw [Graph.hasValue, hn]; rfl, by rw [Graph.hasValue, hn']; rfl⟩

/-! ### The replacement -/

/-- **What takes the place of the concatenation.**  Where the rule has applied, the squeezes declare
what they squeeze without the second axis, and twice the number of elements of a squeeze is a word if
it is known, every listed reader of the concatenation is moved to a new value.  On the axis for the
directions, its layout is the one that laying the same two values end to end declares; on the axis of
the features, it is this layout if the batch and the time are known, and this layout without the last
length if not. -/
theorem layouts_attempt (ht : g.Traceable) {id : Nat} {nodes : List Nat}
    (h : (bidirectionalRule.attempt id).apply g = (.ok (.applied nodes), g'))
    (hsqueezes : SqueezesDeclared g id) (hcounts : SqueezesCounted g id) :
    ∃ (concat : Node β) (layout L l' : Layout) (axis : Int) (position : Nat) (σ : Value → Value),
      g.live? id = some concat ∧ concat.outputs[0]? = some layout ∧ concat.int? "axis" = some axis ∧
      (normalizeAxis axis layout.shape.rank).toOption = some position ∧
      (∀ name, (Edit.concat name concat.inputs position).apply g = (.ok ⟨g.slots.length, 0⟩,
        g.push (Edit.concatSpec name concat.inputs position L))) ∧
      g'.outputs = g.outputs.map σ ∧ (∀ v, ∀ u ∈ g.uses v, g'.input? u = some (σ v)) ∧
      g.slots.length ≤ (σ ⟨id, 0⟩).node ∧ g'.Declares (σ ⟨id, 0⟩) l' ∧
      (position = 1 ∧ l' = L ∨ position = 2 ∧ l' = L.inferred) := by
  obtain ⟨m, i, plan, concat, forward, backward, y, z, a, b, first, second, rfl, hr, hfuse⟩ :=
    exists_reading_of_applied ht.numbered h
  have hal := hr.aligned
  obtain rfl : plan.concat = id := hr.ids_eq.1
  obtain ⟨forward', backward', w, g₁, g₂, g₄, fused, σ, hforward, hbackward, hadd, hjoin, hgrows, hw,
    hrelisted, hcarries, hfix, hσ, rfl⟩ := exists_relisted_fuse hfuse ht
  obtain rfl := Option.some.inj ((Graph.node?_of_live? hal.forward_node).symm.trans hforward)
  obtain rfl := Option.some.inj ((Graph.node?_of_live? hal.backward_node).symm.trans hbackward)
  obtain ⟨layout, axis, position, hlayout, haxis, hposition, hends⟩ := hal.ends
  obtain ⟨batch, time, hidden, type, format, rest, houts, hsame⟩ :=
    exists_outputs_of_compatible hal.compatible
  have hid := ht.numbered.live hal.forward_node
  have hy : g.Declares ⟨plan.forward, 0⟩ ⟨⟨[batch, .known 1, time, hidden]⟩, type, format⟩ :=
    ⟨forward, hal.forward_node, by rw [houts]; rfl⟩
  have hz : g.Declares ⟨plan.backward, 0⟩ ⟨⟨[batch, .known 1, time, hidden]⟩, type, format⟩ :=
    ⟨backward, hal.backward_node, by rw [hsame, houts]; rfl⟩
  obtain ⟨ha, hb⟩ := hr.hasValue_inputs
  have hconcat := hends.apply_concat ha hb
    (hal.concat_inputs ▸ hsqueezes concat hal.concat_node) hy hz
  rw [← hal.concat_inputs] at hconcat
  -- The value is new and no constant, so its node is still there in the end.
  obtain ⟨hfused, n, hn, hop⟩ := declares_addBoth hadd
    ((congrArg g.live? hid).trans hal.forward_node) (by rw [houts]; rfl)
  have hcount : plan.joint = .feature →
      ∀ lengths ∈ (Shape.mk [batch, time, hidden]).lengths?, 2 * numel lengths < 2 ^ 64 := by
    intro hjoint
    rw [hjoint] at hends
    have hmem : a ∈ concat.inputs := by simp [hal.concat_inputs]
    exact hends.counted ha (hsqueezes concat hal.concat_node a hmem)
      (hcounts concat hal.concat_node a hmem) hy
  obtain ⟨hdeclares, n, hn, hop⟩ := exists_joined_layout hfused hn hop hcount hjoin
  have hnew : w.node ∉ plan.replaced := fun hmem => by
    obtain ⟨n, hn, -⟩ := hal.exists_live hmem
    exact Nat.not_lt_of_le hw (Graph.lt_length_of_live? hn)
  obtain ⟨ids, hp⟩ := Graph.exists_pruned_eliminateUnusedConstants
    (forward.inputs ++ backward.inputs ++
      plan.squeezes.flatMap fun id => ((g₄.node? id).map Node.inputs).getD [])
    (hrelisted.traceable.eliminateAll plan.replaced)
  have hwithout := hp.without_eliminateAll
  obtain ⟨inputs, hn⟩ := hcarries.keeps w.node n hn
  have hkeeps := (hcarries.keeps w.node).trans (hp.keepsNode_of_live hn hop hnew).2
  refine ⟨concat, layout, concatLayout batch time hidden type plan.joint,
    joinedLayout batch time hidden type plan.joint, axis, position, σ, hal.concat_node, hlayout, haxis,
    hposition, hconcat, ?_, fun v u hu => hrelisted.input? hwithout hu, ?_, ?_, ?_⟩
  · rw [hwithout.outputs, hrelisted.outputs]
  · rw [hσ]
    exact hw
  · rw [hσ]
    exact hkeeps.declares hdeclares
  · rw [hends.position_eq]
    cases plan.joint with
    | direction => exact .inl ⟨rfl, rfl⟩
    | feature => exact .inr ⟨rfl, rfl⟩

/-- The features of a batch of two are put together, and the result has the length that the
concatenation has declared. -/
theorem layouts_attempt_joinedFeatures :
    ∃ (g' : Graph Unit) (L l' : Layout) (position : Nat) (σ : Value → Value),
      (joinedFeatures 2).Traceable ∧ SqueezesDeclared (joinedFeatures 2) 12 ∧
      SqueezesCounted (joinedFeatures 2) 12 ∧
      (bidirectionalRule.attempt 12).apply (joinedFeatures 2) =
        (.ok (.applied [12, 10, 7, 11, 8]), g') ∧
      g'.outputs.map g'.layout? = [some (.planar (.ofLengths [2, 5, 4]) .f32)] ∧
      g'.outputs = (joinedFeatures 2).outputs.map σ ∧ g'.Declares (σ ⟨12, 0⟩) l' ∧
      (position = 1 ∧ l' = L ∨ position = 2 ∧ l' = L.inferred) := by
  obtain ⟨g', hfuse, hlayouts⟩ : ∃ g', (bidirectionalRule.attempt 12).apply (joinedFeatures 2) =
        (.ok (.applied [12, 10, 7, 11, 8]), g') ∧
      g'.outputs.map g'.layout? = [some (.planar (.ofLengths [2, 5, 4]) .f32)] := by
    have happlied : ((bidirectionalRule.attempt 12).apply (joinedFeatures 2)).1 =
        .ok (.applied [12, 10, 7, 11, 8]) := by
      decide +kernel
    refine ⟨((bidirectionalRule.attempt 12).apply (joinedFeatures 2)).2, ?_, by decide +kernel⟩
    rw [← happlied]
  have ht := (joinedFeatures_sound 2).1.traceable
  have hsqueezes : SqueezesDeclared (joinedFeatures 2) 12 := by
    decide +kernel
  have hcounts : SqueezesCounted (joinedFeatures 2) 12 := by
    decide +kernel
  obtain ⟨_, _, L, l', _, position, σ, -, -, -, -, -, houtputs, -, -, hdeclares, hresult⟩ :=
    layouts_attempt ht hfuse hsqueezes hcounts
  exact ⟨g', L, l', position, σ, ht, hsqueezes, hcounts, hfuse, hlayouts, houtputs, hdeclares,
    hresult⟩

/-- The layout with an unknown batch in the place of a batch of two. -/
def openBatch (l : Layout) : Layout :=
  if l.shape.dim? 0 = some (.known 2) then .planar (l.shape.setDim 0 .unknown) l.elementType else l

/-- Two directions over a batch of unknown size, whose features are put together by the node 12. -/
def openFeatures : Graph Unit :=
  .ofSpecs ((joinedFeaturesSpecs 2).map fun spec =>
    { spec with outputs := spec.outputs.map openBatch }) [⟨12, 0⟩]

/-- The sum of two known lengths is known, whatever the batch is; the length that a reshape infers is
not, if the batch is unknown. -/
theorem exists_joined_shape_ne :
    let fuse := (bidirectionalRule.attempt 12).apply openFeatures
    let join := (Edit.concat "joined" [⟨10, 0⟩, ⟨11, 0⟩] 2).apply openFeatures
    (openFeatures.WellKept ∧ openFeatures.Acyclic ∧ openFeatures.NoDangling) ∧
      SqueezesDeclared openFeatures 12 ∧ openFeatures.outputs = [⟨12, 0⟩] ∧
      (openFeatures.live? 12).map Node.inputs = some [⟨10, 0⟩, ⟨11, 0⟩] ∧
      fuse.1 = .ok (.applied [12, 10, 7, 11, 8]) ∧ join.1 = .ok ⟨13, 0⟩ ∧
      join.2.layout? ⟨13, 0⟩ = some (.planar ⟨[.unknown, .known 5, .known 4]⟩ .f32) ∧
      fuse.2.outputs.map fuse.2.layout? =
        [some (.planar ⟨[.unknown, .known 5, .unknown]⟩ .f32)] := by
  exact ⟨Graph.ofSpecs_sound _ _ (by decide +kernel) (by decide +kernel), by decide +kernel,
    by decide +kernel, by decide +kernel, by decide +kernel, by decide +kernel, by decide +kernel,
    by decide +kernel⟩

end BidirectionalPlan

end Dataflow
