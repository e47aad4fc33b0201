import Dataflow.Proofs.Graph.Walk
import Dataflow.Proofs.Pattern.Reading
import Dataflow.Recurrent.Bidirectional

/-!
# Two directions that can become one node

What the plan for putting two directions into one node says about the graph: which nodes it names,
what they read and who reads their results, and that no references lead from one direction to the
other.

## Main definitions

* `BidirectionalPlan.Branch` : how the result of a direction gets to the concatenation.
* `BidirectionalPlan.Involved` : what a plan says about the readers of the nodes.
* `BidirectionalPlan.Ends`, `BidirectionalPlan.Aligned` : what it says about their operands.
* `BidirectionalPlan.replaced` : the nodes that the replacement takes out.

## Main statements

* `BidirectionalPlan.Reading.involved`, `BidirectionalPlan.Reading.aligned` : a plan that is found
  says so.
* `BidirectionalPlan.Reading.mem_nodes_iff` : its nodes are those that the match lists.
-/

namespace Dataflow

variable {β : Type}

/-! ### The pattern -/

/-- The nodes of the pattern of two directions that do not stand for just any value: the last one,
the two squeezes, and the two directions. -/
structure IsBidirectional (p : Pattern β) : Prop where
  wellFormed : p.WellFormed
  root : p.root = 16
  concat : p.node? 16 = some { kind := .op [.concat] [14, 15] }
  forwardSqueeze : p.node? 14 =
    some { kind := .optional [.squeeze] 7, accepts := Condition.useCount 1 }
  backwardSqueeze : p.node? 15 =
    some { kind := .optional [.squeeze] 13, accepts := Condition.useCount 1 }
  forward : p.node? 7 =
    some { kind := .op [.lstmSequence] [0, 2, 3, 1, 4, 5, 6], accepts := Condition.useCount 1 }
  backward : p.node? 13 =
    some { kind := .op [.lstmSequence] [0, 8, 9, 1, 10, 11, 12], accepts := Condition.useCount 1 }
  any : ∀ i e, p.node? i = some e → e.kind = .any ∨ i ∈ [16, 14, 15, 7, 13]

theorem isBidirectional_bidirectionalPattern :
    IsBidirectional (bidirectionalPattern (β := β)).1 where
  wellFormed := .of_refersBack (List.cons_ne_nil _ _) rfl
  root := rfl
  concat := rfl
  forwardSqueeze := rfl
  backwardSqueeze := rfl
  forward := rfl
  backward := rfl
  any := by
    have hall : (List.range 17).all (fun i => [16, 14, 15, 7, 13].contains i ||
        ((bidirectionalPattern (β := β)).1.node? i).all fun e => e.kind matches .any) = true := rfl
    intro i e he
    have hi : i < 17 := Pattern.node?_isSome.1 (Option.isSome_of_eq_some he)
    have hone := List.all_eq_true.1 hall i (List.mem_range.2 hi)
    rw [Bool.or_eq_true, he, Option.all_some, List.contains_iff_mem] at hone
    refine hone.symm.imp_left fun hany => ?_
    cases hkind : e.kind with
    | any => rfl
    | op ops inputs => simp [hkind] at hany
    | optional ops input => simp [hkind] at hany

namespace BidirectionalPlan

/-- The nodes that the replacement takes out. -/
def replaced (plan : BidirectionalPlan) : List Nat :=
  plan.concat :: plan.squeezes ++ [plan.forward, plan.backward]

/-- How the result `y` of a direction gets to the concatenation: either directly or through the
listed node, which drops an axis.  Nothing else reads the values on this way. -/
inductive Branch (g : Graph β) (concat : Nat) (y : Value) : List Nat → Prop
  | direct (hread : g.Feeds y.node concat) (honly : ∀ u, g.Reads u y → u.node = concat) :
      Branch g concat y []
  | squeezed {s : Nat} {n : Node β} (hn : g.live? s = some n) (hop : n.op = .squeeze)
      (houts : n.outputs.length = 1) (hread : g.Feeds y.node s)
      (honly : ∀ u, g.Reads u y → u.node = s) (hread' : g.Feeds s concat)
      (honly' : ∀ u, g.Reads u ⟨s, 0⟩ → u.node = concat) : Branch g concat y [s]

/-- What a plan says about the nodes that it names. -/
structure Involved (g : Graph β) (plan : BidirectionalPlan) : Prop where
  concat : ∃ n, g.live? plan.concat = some n ∧ n.op = .concat
  forward : ∃ n, g.live? plan.forward = some n ∧ n.op = .lstmSequence ∧ n.outputs.length = 3
  backward : ∃ n, g.live? plan.backward = some n ∧ n.op = .lstmSequence ∧ n.outputs.length = 3
  apart : g.hasPath plan.forward plan.backward = false ∧
    g.hasPath plan.backward plan.forward = false
  branches : ∃ first second, plan.squeezes = first ++ second ∧
    Branch g plan.concat ⟨plan.forward, 0⟩ first ∧ Branch g plan.concat ⟨plan.backward, 0⟩ second

/-- The node drops the axis for the directions from the value `y`. -/
inductive Drops (g : Graph β) (y : Value) (s : Nat) : Prop
  | intro {n : Node β} {axes : Value} {rest : List Value} {axis : Int} (hn : g.live? s = some n)
      (hop : n.op = .squeeze) (hin : n.inputs = y :: axes :: rest)
      (haxes : g.constantInts? axes = some [axis]) (haxis : (normalizeAxis axis 4).toOption = some 1)

/-- Where the concatenation, of the given rank and along the given axis, reads the results of the two
directions: from the directions themselves, or from the listed nodes that drop an axis. -/
inductive Ends (g : Graph β) (forward backward : Nat) :
    Joint → List Nat → Value → Value → (rank axis : Nat) → Prop
  | direction : Ends g forward backward .direction [] ⟨forward, 0⟩ ⟨backward, 0⟩ 4 1
  | feature {s s' : Nat} (hs : Drops g ⟨forward, 0⟩ s) (hs' : Drops g ⟨backward, 0⟩ s') :
      Ends g forward backward .feature [s, s'] ⟨s, 0⟩ ⟨s', 0⟩ 3 2

/-- What a plan says about the operands of the concatenation, which reads the values `a` and `b`, and
of the two directions, which read the same sequences. -/
structure Aligned (g : Graph β) (plan : BidirectionalPlan) (concat forward backward : Node β)
    (a b : Value) : Prop where
  concat_node : g.live? plan.concat = some concat
  concat_op : concat.op = .concat
  concat_inputs : concat.inputs = [a, b]
  ends : ∃ layout axis position, concat.outputs[0]? = some layout ∧ concat.int? "axis" = some axis ∧
    (normalizeAxis axis layout.shape.rank).toOption = some position ∧
      Ends g plan.forward plan.backward plan.joint plan.squeezes a b layout.shape.rank position
  forward_node : g.live? plan.forward = some forward
  forward_op : forward.op = .lstmSequence
  forward_direction : forward.direction = "forward"
  backward_node : g.live? plan.backward = some backward
  backward_op : backward.op = .lstmSequence
  backward_direction : backward.direction = "reverse"
  inputs : ∃ x l h c w r b h' c' w' r' b', forward.inputs = [x, h, c, l, w, r, b] ∧
    backward.inputs = [x, h', c', l, w', r', b']
  shared : ∀ name ∈ sharedAttributes,
    Attribute.sameOption (forward.attribute? name) (backward.attribute? name) = true
  compatible : compatible g forward backward = true

/-- The concatenation and the two directions are three nodes. -/
theorem Aligned.distinct {g : Graph β} {plan : BidirectionalPlan} {concat forward backward : Node β}
    {a b : Value} (hal : Aligned g plan concat forward backward a b) :
    plan.forward ≠ plan.concat ∧ plan.backward ≠ plan.concat ∧ plan.forward ≠ plan.backward := by
  refine ⟨fun heq => ?_, fun heq => ?_, fun heq => ?_⟩
  · have hsame := Option.some.inj (hal.concat_node.symm.trans (heq ▸ hal.forward_node))
    exact absurd (hal.forward_op.symm.trans (hsame ▸ hal.concat_op)) (by decide)
  · have hsame := Option.some.inj (hal.concat_node.symm.trans (heq ▸ hal.backward_node))
    exact absurd (hal.backward_op.symm.trans (hsame ▸ hal.concat_op)) (by decide)
  · have hsame := Option.some.inj (hal.forward_node.symm.trans (heq ▸ hal.backward_node))
    exact absurd (hal.forward_direction.symm.trans (hsame ▸ hal.backward_direction)) (by decide)

/-! ### What the pattern says -/

section Pattern

variable {p : Pattern β} {g : Graph β} {R : Nat → Value → Prop}

theorem Drops.reads {y : Value} {s : Nat} (h : Drops g y s) : g.Reads ⟨s, 0⟩ y := by
  cases h with
  | intro hn hop hin haxes haxis => exact ⟨_, hn, by rw [hin]; rfl⟩

theorem Ends.exists_squeeze {forward backward : Nat} {joint : Joint} {squeezes : List Nat}
    {a b : Value} {rank axis s : Nat}
    (h : Ends g forward backward joint squeezes a b rank axis) (hs : s ∈ squeezes) :
    ∃ n, g.live? s = some n ∧ n.op = .squeeze := by
  cases h with
  | direction => simp at hs
  | feature hfirst hsecond =>
    obtain rfl | hs := List.mem_cons.1 hs
    · obtain ⟨hn, hop, -⟩ := hfirst
      exact ⟨_, hn, hop⟩
    · obtain rfl := List.mem_singleton.1 hs
      obtain ⟨hn, hop, -⟩ := hsecond
      exact ⟨_, hn, hop⟩

/-- The concatenation reads values of the squeezes or of the directions. -/
theorem Ends.node_mem {forward backward : Nat} {joint : Joint} {squeezes : List Nat} {a b : Value}
    {rank axis : Nat} (h : Ends g forward backward joint squeezes a b rank axis) :
    a.node ∈ squeezes ++ [forward, backward] ∧ b.node ∈ squeezes ++ [forward, backward] := by
  cases h <;> simp

/-- A value that is not the result itself comes from a node that drops the axis for the directions. -/
theorem squeeze?_eq_some {y a : Value} {s : Option Nat} (hs : squeeze? g y a = some s) :
    (a = y ∧ s = none) ∨ ∃ n axes axis, a ≠ y ∧ g.node? a.node = some n ∧ s = some n.id ∧
      n.inputs[1]? = some axes ∧ g.constantInts? axes = some [axis] ∧
        (normalizeAxis axis 4).toOption = some 1 := by
  unfold squeeze? at hs
  split at hs
  · next heq => exact .inl ⟨heq, (Option.some.inj hs).symm⟩
  · next hne =>
    obtain ⟨n, hn, hs⟩ := Option.bind_eq_some_iff.1 hs
    obtain ⟨axes, haxes, hs⟩ := Option.bind_eq_some_iff.1 hs
    obtain ⟨l, hl, hs⟩ := Option.bind_eq_some_iff.1 hs
    split at hs
    · next axis =>
      obtain ⟨_, hguard, hs⟩ := Option.bind_eq_some_iff.1 hs
      exact .inr ⟨n, axes, axis, hne, hn, (Option.some.inj hs).symm, haxes, hl,
        (Option.guard_eq_some' _).1 hguard⟩
    · simp at hs

/-- One of the two optional nodes of the pattern stands for the value `a` that the concatenation
reads, and leads to the result `y` of a direction.  Either a node drops an axis on the way, which
the plan names, or both are the same value. -/
theorem squeeze?_cases (hk : g.Numbered) (hR : p.IsEmbedding g R) (hstep : p.StepsClosed g R)
    {i j : Nat} {inputs : List Nat} {accepts : Condition β}
    (hi : p.node? i = some { kind := .optional [.squeeze] j, accepts })
    (hj : p.node? j = some { kind := .op [.lstmSequence] inputs, accepts })
    {y a : Value} (ha : R i a) (hy : R j y) {s : Option Nat} (hs : squeeze? g y a = some s) :
    (∃ n, g.source? a = some n ∧ n.op = .squeeze ∧ n.outputs.length = 1 ∧ Drops g y a.node ∧
      s = some a.node) ∨ (∃ n, g.source? a = some n ∧ n.op = .lstmSequence ∧ a = y ∧ s = none) := by
  obtain ⟨m, hm, -, hmop, -⟩ := hR.op hstep hj rfl hy
  have hmop := List.mem_singleton.1 hmop
  obtain ⟨rfl, rfl⟩ | ⟨n', axes, axis, hne, hn', rfl, haxes, hconst, haxis⟩ := squeeze?_eq_some hs
  · exact .inr ⟨m, hm, hmop, rfl, rfl⟩
  · obtain ⟨n, hn, -, ⟨hop, houts, first, rest, hin, hfirst⟩ | ⟨-, hsame⟩⟩ :=
      hR.optional hstep hi rfl ha
    · obtain ⟨hlive, -⟩ := Graph.source?_eq_some.1 hn
      obtain rfl := Option.some.inj ((Graph.node?_of_live? hlive).symm.trans hn')
      obtain rfl : first = y := hR.functional hfirst hy
      rw [hin, List.getElem?_cons_succ] at haxes
      obtain ⟨others, rfl⟩ : ∃ others, rest = axes :: others := by
        cases rest with
        | nil => simp at haxes
        | cons b others => exact ⟨others, by rw [Option.some.inj haxes]⟩
      have hop := List.mem_singleton.1 hop
      exact .inl ⟨n, hn, hop, houts, .intro hlive hop hin hconst haxis, by
        rw [hk.live hlive]⟩
    · exact absurd (hR.functional hsame hy) hne

/-- The value of a node with one output. -/
theorem eq_zero_of_source? {a : Value} {n : Node β} (hn : g.source? a = some n)
    (houts : n.outputs.length = 1) : a = ⟨a.node, 0⟩ := by
  obtain ⟨-, hlt⟩ := Graph.source?_eq_some.1 hn
  have hindex : a.index = 0 := by omega
  rw [← hindex]

/-- The way from the result `y` of a direction to the concatenation. -/
theorem branch_of_squeeze? (hk : g.WellKept) (hR : p.IsEmbedding g R) (hstep : p.StepsClosed g R)
    {i j : Nat} {inputs : List Nat}
    (hi : p.node? i = some { kind := .optional [.squeeze] j, accepts := Condition.useCount 1 })
    (hj : p.node? j =
      some { kind := .op [.lstmSequence] inputs, accepts := Condition.useCount 1 })
    {y a : Value} (ha : R i a) (hy : R j y) {s : Option Nat} (hs : squeeze? g y a = some s)
    {u : Use} (hread : g.Reads u a) : Branch g u.node y s.toList := by
  obtain ⟨_, _, hycount, -⟩ := hR.op hstep hj rfl hy
  obtain ⟨_, _, hacount, -⟩ := hR.optional hstep hi rfl ha
  have honly := Condition.reader_of_useCount hk hacount hread
  obtain ⟨n, hn, hop, houts, hdrops, rfl⟩ | ⟨_, _, _, rfl, rfl⟩ :=
    squeeze?_cases hk.numbered hR hstep hi hj ha hy hs
  · obtain ⟨hlive, -⟩ := Graph.source?_eq_some.1 hn
    refine .squeezed hlive hop houts hdrops.reads.feeds
      (Condition.reader_of_useCount hk hycount hdrops.reads) hread.feeds fun u hu => honly u ?_
    rw [eq_zero_of_source? hn houts]
    exact hu
  · exact .direct hread.feeds honly

/-- The optional node owns its value exactly if the plan names a node. -/
theorem owns_optional_iff (hk : g.Numbered)
    (hR : p.IsEmbedding g R)
    (hstep : p.StepsClosed g R) {i j : Nat} {inputs : List Nat}
    {accepts : Condition β} (hi : p.node? i =
      some { kind := .optional [.squeeze] j, accepts })
    (hj : p.node? j =
      some { kind := .op [.lstmSequence] inputs, accepts })
    {y a : Value} (ha : R i a) (hy : R j y) {s : Option Nat} (hs : squeeze? g y a = some s)
    (id : Nat) :
    p.Owns g i a ∧ a.node = id ↔ id ∈ s.toList := by
  obtain ⟨n, hn, hop, -, -, rfl⟩ | ⟨n, hn, hop, -, rfl⟩ :=
    squeeze?_cases hk hR hstep hi hj ha hy hs
  · have howns : p.Owns g i a :=
      ⟨_, n, hi, hn, by simp [PatternNode.owns, hop]⟩
    simp [howns, eq_comm]
  · have howns : ¬ p.Owns g i a := by
      rintro ⟨e, n', he, hn', ho⟩
      obtain rfl := Option.some.inj (hi.symm.trans he)
      obtain rfl := Option.some.inj (hn.symm.trans hn')
      simp [PatternNode.owns, hop] at ho
    simp [howns]

/-- A pattern node for an operation owns its value. -/
theorem owns_op (hR : p.IsEmbedding g R)
    (hstep : p.StepsClosed g R) {j : Nat} {ops : List Op}
    {inputs : List Nat} {accepts : Condition β}
    (hj : p.node? j = some { kind := .op ops inputs, accepts })
    {y : Value} (hy : R j y) : p.Owns g j y := by
  obtain ⟨n, hn, -⟩ := hR.op hstep hj rfl hy
  exact ⟨_, n, hj, hn, rfl⟩

theorem length_outputs_of_compatible {n m : Node β} (h : compatible g n m = true) :
    n.outputs.length = 3 ∧ m.outputs.length = 3 := by
  simp only [compatible, Bool.and_eq_true, beq_iff_eq] at h
  obtain ⟨⟨-, hsame⟩, hone⟩ := h
  rw [← hsame]
  unfold declaresOneDirection at hone
  split at hone
  · next houts => simp [houts]
  · simp at hone

theorem squeezes_of_joint? {first second : Option Nat} {rank axis : Nat} {joint : Joint}
    {squeezes : List Nat} (h : joint? first second rank axis = some (joint, squeezes)) :
    squeezes = first.toList ++ second.toList := by
  cases first <;> cases second <;> simp only [joint?, reduceCtorEq] at h
  all_goals
    split at h
    · exact (Prod.mk.inj (Option.some.inj h)).2.symm
    · simp at h

end Pattern

variable {p : Pattern β} {g : Graph β} {numbers : BidirectionalPattern} {m : Match}
  {plan : BidirectionalPlan} {concat forward backward : Node β} {y z a b v : Value}
  {first second : Option Nat}

/-- The values that the concatenation reads are those of the directions, or come from them through
nodes that drop an axis. -/
theorem ends_of_joint? {rank axis : Nat} {joint : Joint} {squeezes : List Nat}
    (hjoint : joint? first second rank axis = some (joint, squeezes))
    (hy : y.index = 0) (hz : z.index = 0)
    (ha : (Drops g y a.node ∧ a.index = 0 ∧ first = some a.node) ∨ (a = y ∧ first = none))
    (hb : (Drops g z b.node ∧ b.index = 0 ∧ second = some b.node) ∨ (b = z ∧ second = none)) :
    Ends g y.node z.node joint squeezes a b rank axis := by
  have hy : y = ⟨y.node, 0⟩ := by rw [← hy]
  have hz : z = ⟨z.node, 0⟩ := by rw [← hz]
  obtain ⟨ha, ha0, rfl⟩ | ⟨rfl, rfl⟩ := ha <;> obtain ⟨hb, hb0, rfl⟩ | ⟨rfl, rfl⟩ := hb <;>
    simp only [joint?, reduceCtorEq] at hjoint
  · split at hjoint
    · next hguard =>
      obtain ⟨rfl, rfl⟩ := hguard
      obtain ⟨rfl, rfl⟩ := Prod.mk.inj (Option.some.inj hjoint)
      have hends : Ends g y.node z.node .feature [a.node, b.node] ⟨a.node, 0⟩ ⟨b.node, 0⟩ 3 2 :=
        .feature (hy ▸ ha) (hz ▸ hb)
      obtain ⟨node, index⟩ := a
      obtain ⟨node', index'⟩ := b
      obtain rfl : index = 0 := ha0
      obtain rfl : index' = 0 := hb0
      exact hends
    · simp at hjoint
  · split at hjoint
    · next hguard =>
      obtain ⟨rfl, rfl⟩ := hguard
      obtain ⟨rfl, rfl⟩ := Prod.mk.inj (Option.some.inj hjoint)
      have hends : Ends g a.node b.node .direction [] ⟨a.node, 0⟩ ⟨b.node, 0⟩ 4 1 := .direction
      rwa [← hy, ← hz] at hends
    · simp at hjoint

/-! ### The search for a plan -/

/-- What the search for a plan has read off the match and the graph. -/
structure Found (g : Graph β) (numbers : BidirectionalPattern) (m : Match) (plan : BidirectionalPlan)
    (concat forward backward : Node β) (y z a b : Value) (first second : Option Nat) : Prop where
  ids : plan.concat = concat.id ∧ plan.forward = forward.id ∧ plan.backward = backward.id
  stored : g.node? m.root.node = some concat ∧ g.producer? y = some forward ∧
    g.producer? z = some backward
  values : m.get? numbers.forward = some y ∧ m.get? numbers.backward = some z ∧
    m.get? numbers.forwardSqueeze = some a ∧ m.get? numbers.backwardSqueeze = some b
  index : y.index = 0 ∧ z.index = 0
  direction : forward.direction = "forward" ∧ backward.direction = "reverse"
  shared : ∀ name ∈ sharedAttributes,
    Attribute.sameOption (forward.attribute? name) (backward.attribute? name) = true
  apart : g.hasPath forward.id backward.id = false ∧ g.hasPath backward.id forward.id = false
  compatible : compatible g forward backward = true
  squeezes : squeeze? g y a = some first ∧ squeeze? g z b = some second
  joint : ∃ layout axis position, concat.outputs[0]? = some layout ∧ concat.int? "axis" = some axis ∧
    (normalizeAxis axis layout.shape.rank).toOption = some position ∧
      joint? first second layout.shape.rank position = some (plan.joint, plan.squeezes)

theorem exists_found (h : find? g numbers m = some plan) :
    ∃ concat forward backward y z a b first second,
      Found g numbers m plan concat forward backward y z a b first second := by
  obtain ⟨concat, hconcat, h⟩ := Option.bind_eq_some_iff.1 h
  obtain ⟨y, hy, h⟩ := Option.bind_eq_some_iff.1 h
  obtain ⟨z, hz, h⟩ := Option.bind_eq_some_iff.1 h
  obtain ⟨_, hindex, h⟩ := Option.bind_eq_some_iff.1 h
  obtain ⟨forward, hforward, h⟩ := Option.bind_eq_some_iff.1 h
  obtain ⟨backward, hbackward, h⟩ := Option.bind_eq_some_iff.1 h
  obtain ⟨_, hdirection, h⟩ := Option.bind_eq_some_iff.1 h
  obtain ⟨_, hshared, h⟩ := Option.bind_eq_some_iff.1 h
  obtain ⟨_, hapart, h⟩ := Option.bind_eq_some_iff.1 h
  obtain ⟨_, hcompatible, h⟩ := Option.bind_eq_some_iff.1 h
  obtain ⟨a, ha, h⟩ := Option.bind_eq_some_iff.1 h
  obtain ⟨first, hfirst, h⟩ := Option.bind_eq_some_iff.1 h
  obtain ⟨b, hb, h⟩ := Option.bind_eq_some_iff.1 h
  obtain ⟨second, hsecond, h⟩ := Option.bind_eq_some_iff.1 h
  obtain ⟨layout, hlayout, h⟩ := Option.bind_eq_some_iff.1 h
  obtain ⟨axis, haxis, h⟩ := Option.bind_eq_some_iff.1 h
  obtain ⟨position, hposition, h⟩ := Option.bind_eq_some_iff.1 h
  obtain ⟨⟨joint, squeezes⟩, hjoint, h⟩ := Option.bind_eq_some_iff.1 h
  obtain rfl := Option.some.inj h
  rw [Option.guard_eq_some'] at hindex hdirection hshared hapart hcompatible
  exact ⟨concat, forward, backward, y, z, a, b, first, second, ⟨rfl, rfl, rfl⟩,
    ⟨hconcat, hforward, hbackward⟩, ⟨hy, hz, ha, hb⟩, hindex, hdirection,
    List.all_eq_true.1 hshared, by simpa using hapart, hcompatible, ⟨hfirst, hsecond⟩,
    ⟨layout, axis, position, hlayout, haxis, hposition, hjoint⟩⟩

/-! ### What the plan says -/

/-- What the search has found for a match at a value, seen together with what the pattern asks for. -/
structure Reading (p : Pattern β) (g : Graph β) (m : Match) (v : Value) (plan : BidirectionalPlan)
    (concat forward backward : Node β) (y z a b : Value) (first second : Option Nat) : Prop
    extends Found g ⟨7, 13, 14, 15⟩ m plan concat forward backward y z a b first second where
  numbered : g.Numbered
  pattern : IsBidirectional p
  embedding : p.IsEmbedding g (p.Reaches g 16 v)
  closed : p.StepsClosed g (p.Reaches g 16 v)
  mem_nodes : ∀ id, id ∈ m.nodes ↔ ∃ i w, p.Reaches g 16 v i w ∧ p.Owns g i w ∧ w.node = id
  reaches_forward : p.Reaches g 16 v 7 y
  reaches_backward : p.Reaches g 16 v 13 z
  reaches_first : p.Reaches g 16 v 14 a
  reaches_second : p.Reaches g 16 v 15 b
  isConcat : Pattern.IsOperation g (p.Reaches g 16 v) [.concat] [14, 15] v concat
  isForward : Pattern.IsOperation g (p.Reaches g 16 v) [.lstmSequence] [0, 2, 3, 1, 4, 5, 6] y forward
  isBackward :
    Pattern.IsOperation g (p.Reaches g 16 v) [.lstmSequence] [0, 8, 9, 1, 10, 11, 12] z backward
  inputs : concat.inputs = [a, b]

theorem exists_reading (hp : IsBidirectional p) (hk : g.Numbered) (hm : p.matchValue g v = some m)
    (h : find? g ⟨7, 13, 14, 15⟩ m = some plan) :
    ∃ concat forward backward y z a b first second,
      Reading p g m v plan concat forward backward y z a b first second := by
  obtain ⟨hroot, hagrees⟩ := Pattern.agrees_of_matchValue hp.wellFormed hm
  have hR := Pattern.isEmbedding_of_matchValue hp.wellFormed hm
  have hstep := Pattern.stepsClosed_reaches p g p.root v
  have hget := hagrees.get?
  rw [hp.root] at hagrees hR hstep hget
  have hv : p.Reaches g 16 v 16 v := .refl
  obtain ⟨concat, forward, backward, y, z, a, b, first, second, hf⟩ := exists_found h
  obtain ⟨hy, hz, ha, hb⟩ := hf.values
  rw [hget] at hy hz ha hb
  obtain ⟨hcn, hfn, hbn⟩ := hf.stored
  obtain ⟨hconcat, -⟩ := hR.isOperation hstep hk hp.concat rfl hv (hroot ▸ hcn)
  obtain ⟨hforward, -⟩ := hR.isOperation hstep hk hp.forward rfl hy hfn
  obtain ⟨hbackward, -⟩ := hR.isOperation hstep hk hp.backward rfl hz hbn
  -- What the concatenation reads is what the pattern says.
  obtain ⟨a', b', hin⟩ := List.length_eq_two.1 (hconcat.length (List.cons_ne_nil _ _))
  have ha' : p.Reaches g 16 v 14 a' := hconcat.input (k := 0) rfl (by rw [hin]; rfl)
  have hb' : p.Reaches g 16 v 15 b' := hconcat.input (k := 1) rfl (by rw [hin]; rfl)
  obtain rfl := hR.functional ha ha'
  obtain rfl := hR.functional hb hb'
  exact ⟨concat, forward, backward, y, z, a, b, first, second,
    { hf with
      numbered := hk, pattern := hp, embedding := hR, closed := hstep,
      mem_nodes := hagrees.mem_nodes, reaches_forward := hy, reaches_backward := hz,
      reaches_first := ha, reaches_second := hb, isConcat := hconcat, isForward := hforward,
      isBackward := hbackward, inputs := hin }⟩

namespace Reading

variable (hr : Reading p g m v plan concat forward backward y z a b first second)
include hr

theorem ids_eq : plan.concat = v.node ∧ plan.forward = y.node ∧ plan.backward = z.node := by
  obtain ⟨hc, hf, hb⟩ := hr.ids
  exact ⟨hc.trans hr.isConcat.id, hf.trans hr.isForward.id, hb.trans hr.isBackward.id⟩

theorem squeezes_eq : plan.squeezes = first.toList ++ second.toList := by
  obtain ⟨_, _, _, -, -, -, hjoint⟩ := hr.joint
  exact squeezes_of_joint? hjoint

/-- The readers of the nodes. -/
theorem involved (hk : g.WellKept) : Involved g plan := by
  obtain ⟨hcid, hfid, hbid⟩ := hr.ids_eq
  obtain ⟨hfouts, hbouts⟩ := length_outputs_of_compatible hr.compatible
  have hreada : g.Reads ⟨v.node, 0⟩ a := ⟨concat, hr.isConcat.live, by rw [hr.inputs]; rfl⟩
  have hreadb : g.Reads ⟨v.node, 1⟩ b := ⟨concat, hr.isConcat.live, by rw [hr.inputs]; rfl⟩
  have hfirst := branch_of_squeeze? hk hr.embedding hr.closed hr.pattern.forwardSqueeze
    hr.pattern.forward hr.reaches_first hr.reaches_forward hr.squeezes.1 hreada
  have hsecond := branch_of_squeeze? hk hr.embedding hr.closed hr.pattern.backwardSqueeze
    hr.pattern.backward hr.reaches_second hr.reaches_backward hr.squeezes.2 hreadb
  have hy : y = ⟨y.node, 0⟩ := by rw [← hr.index.1]
  have hz : z = ⟨z.node, 0⟩ := by rw [← hr.index.2]
  constructor
  case concat => exact ⟨concat, hcid ▸ hr.isConcat.live, List.mem_singleton.1 hr.isConcat.op⟩
  case forward =>
    exact ⟨forward, hfid ▸ hr.isForward.live, List.mem_singleton.1 hr.isForward.op, hfouts⟩
  case backward =>
    exact ⟨backward, hbid ▸ hr.isBackward.live, List.mem_singleton.1 hr.isBackward.op, hbouts⟩
  case apart =>
    rw [hr.ids.2.1, hr.ids.2.2]
    exact hr.apart
  case branches =>
    refine ⟨first.toList, second.toList, hr.squeezes_eq, ?_, ?_⟩
    · rw [hfid, ← hy, hcid]
      exact hfirst
    · rw [hbid, ← hz, hcid]
      exact hsecond

/-- The operands of the nodes. -/
theorem aligned : Aligned g plan concat forward backward a b := by
  obtain ⟨hcid, hfid, hbid⟩ := hr.ids_eq
  obtain ⟨layout, axis, position, hlayout, haxis, hposition, hjoint⟩ := hr.joint
  have hcases := squeeze?_cases hr.numbered hr.embedding hr.closed hr.pattern.forwardSqueeze
    hr.pattern.forward hr.reaches_first hr.reaches_forward hr.squeezes.1
  have hcases' := squeeze?_cases hr.numbered hr.embedding hr.closed hr.pattern.backwardSqueeze
    hr.pattern.backward hr.reaches_second hr.reaches_backward hr.squeezes.2
  have hseven : ∀ (n : Node β), n.inputs.length = 7 →
      ∃ x h c l w r b, n.inputs = [x, h, c, l, w, r, b] := by
    intro n hlen
    match n.inputs, hlen with
    | [x, h, c, l, w, r, b], _ => exact ⟨x, h, c, l, w, r, b, rfl⟩
  obtain ⟨x, h, c, l, w, r, s, hin⟩ := hseven _ (hr.isForward.length (List.cons_ne_nil _ _))
  obtain ⟨x', h', c', l', w', r', s', hin'⟩ := hseven _ (hr.isBackward.length (List.cons_ne_nil _ _))
  have hx : p.Reaches g 16 v 0 x := hr.isForward.input (k := 0) rfl (by rw [hin]; rfl)
  have hx' : p.Reaches g 16 v 0 x' := hr.isBackward.input (k := 0) rfl (by rw [hin']; rfl)
  have hl : p.Reaches g 16 v 1 l := hr.isForward.input (k := 3) rfl (by rw [hin]; rfl)
  have hl' : p.Reaches g 16 v 1 l' := hr.isBackward.input (k := 3) rfl (by rw [hin']; rfl)
  obtain rfl := hr.embedding.functional hx hx'
  obtain rfl := hr.embedding.functional hl hl'
  constructor
  case concat_node => exact hcid ▸ hr.isConcat.live
  case concat_op => exact List.mem_singleton.1 hr.isConcat.op
  case concat_inputs => exact hr.inputs
  case ends =>
    refine ⟨layout, axis, position, hlayout, haxis, hposition, ?_⟩
    rw [hfid, hbid]
    refine ends_of_joint? hjoint hr.index.1 hr.index.2 (hcases.imp ?_ ?_) (hcases'.imp ?_ ?_)
    · rintro ⟨n, hn, -, houts, hdrops, hs⟩
      exact ⟨hdrops, congrArg Value.index (eq_zero_of_source? hn houts), hs⟩
    · rintro ⟨-, -, -, heq, hs⟩
      exact ⟨heq, hs⟩
    · rintro ⟨n, hn, -, houts, hdrops, hs⟩
      exact ⟨hdrops, congrArg Value.index (eq_zero_of_source? hn houts), hs⟩
    · rintro ⟨-, -, -, heq, hs⟩
      exact ⟨heq, hs⟩
  case forward_node => exact hfid ▸ hr.isForward.live
  case forward_op => exact List.mem_singleton.1 hr.isForward.op
  case forward_direction => exact hr.direction.1
  case backward_node => exact hbid ▸ hr.isBackward.live
  case backward_op => exact List.mem_singleton.1 hr.isBackward.op
  case backward_direction => exact hr.direction.2
  case inputs => exact ⟨x, l, h, c, w, r, s, h', c', w', r', s', hin, hin'⟩
  case shared => exact hr.shared
  case compatible => exact hr.compatible

/-- The nodes of the match are those that the replacement takes out. -/
theorem mem_nodes_iff (id : Nat) : id ∈ m.nodes ↔ id ∈ plan.replaced := by
  obtain ⟨hcid, hfid, hbid⟩ := hr.ids_eq
  have hR := hr.embedding
  have hp := hr.pattern
  have hv : p.Reaches g 16 v 16 v := .refl
  have howns : ∀ i w, p.Owns g i w → i ∈ [16, 14, 15, 7, 13] := by
    rintro i w ⟨e, n, he, -, ho⟩
    obtain hany | hi := hp.any _ _ he
    · simp [PatternNode.owns, hany] at ho
    · exact hi
  have hfirst := owns_optional_iff hr.numbered hR hr.closed hp.forwardSqueeze hp.forward
    hr.reaches_first hr.reaches_forward hr.squeezes.1 id
  have hsecond := owns_optional_iff hr.numbered hR hr.closed hp.backwardSqueeze hp.backward
    hr.reaches_second hr.reaches_backward hr.squeezes.2 id
  rw [hr.mem_nodes]
  simp only [replaced, hcid, hfid, hbid, hr.squeezes_eq, List.cons_append, List.mem_cons,
    List.mem_append, List.not_mem_nil, or_false, ← hfirst, ← hsecond]
  constructor
  · rintro ⟨i, w, hw, ho, hid⟩
    have hi := howns i w ho
    simp only [List.mem_cons, List.not_mem_nil, or_false] at hi
    obtain rfl | rfl | rfl | rfl | rfl := hi
    · exact .inl (hR.functional hw hv ▸ hid.symm)
    · obtain rfl := hR.functional hw hr.reaches_first
      exact .inr (.inl (.inl ⟨ho, hid⟩))
    · obtain rfl := hR.functional hw hr.reaches_second
      exact .inr (.inl (.inr ⟨ho, hid⟩))
    · exact .inr (.inr (.inl (hR.functional hw hr.reaches_forward ▸ hid.symm)))
    · exact .inr (.inr (.inr (hR.functional hw hr.reaches_backward ▸ hid.symm)))
  · rintro (rfl | (⟨ho, hid⟩ | ⟨ho, hid⟩) | rfl | rfl)
    · exact ⟨16, v, hv, owns_op hR hr.closed hp.concat hv, rfl⟩
    · exact ⟨14, a, hr.reaches_first, ho, hid⟩
    · exact ⟨15, b, hr.reaches_second, ho, hid⟩
    · exact ⟨7, y, hr.reaches_forward, owns_op hR hr.closed hp.forward hr.reaches_forward, rfl⟩
    · exact ⟨13, z, hr.reaches_backward, owns_op hR hr.closed hp.backward hr.reaches_backward, rfl⟩

end Reading

end BidirectionalPlan

end Dataflow
