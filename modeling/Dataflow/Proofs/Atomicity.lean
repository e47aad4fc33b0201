import Dataflow.Proofs.Graph.Changes
import Dataflow.Proofs.Invariant
import Dataflow.Proofs.Runtime.BatchLengths
import Dataflow.Proofs.Runtime.ShapeCalls

/-!
# Builders that fail

A builder first looks up the layouts of its operands and computes the layout of its result, and then it
adds nodes.  The lookup asks only whether a node is stored.  Adding a node asks whether its operands
are outputs of live nodes.  The two differ for a node that is marked as eliminated: its values still
have layouts, but no new node can read them.  A builder that adds a constant before the node that reads
its operand finds this out too late.

## Main definitions

* `Edit.Atomic` : an edit that fails leaves the graph as it is.
* `Reshaping`, `ShapeCall.reshaping?` : the builders that add a constant first.
* `ShapeCall.ReadsMarked` : the operand of such a builder is a value of an eliminated node.

## Main statements

* `Edit.Atomic.after`, `Edit.Atomic.bind` : edits made of several steps.
* `Edit.atomic_concat`, `Edit.atomic_split`, `Edit.atomic_sequenceLengths` : builders that never leave
  anything behind.
* `Reshaping.atomic_build`, `Reshaping.apply_build_of_readsMarked` : the other ones.
* `ShapeCall.atomic_run_iff` : which calls leave the graph as it is when they fail.
-/

namespace Dataflow

variable {β : Type}

/-! ### Values of eliminated nodes -/

/-- A value with a layout can be read unless its node is marked as eliminated. -/
theorem Graph.hasValue_eq_of_layout? {g : Graph β} {v : Value} {l : Layout}
    (h : g.layout? v = some l) : g.hasValue v = !g.isEliminated v.node := by
  obtain ⟨n, hn, hl⟩ := Option.bind_eq_some_iff.1 h
  obtain ⟨s, hs, rfl⟩ := node?_eq_some.1 hn
  have hlt : v.index < s.node.outputs.length := (List.getElem?_eq_some_iff.1 hl).1
  cases he : s.eliminated <;> simp [hasValue, source?, live?, isEliminated, hs, he, hlt]

namespace Edit

variable {α γ : Type} {g : Graph β} {v : Value} {name : String}

/-! ### Atomic edits -/

/-- If the edit fails, then it leaves the graph as it is. -/
def Atomic (e : Edit β α) (g : Graph β) : Prop :=
  ∀ error g', e.apply g = (.error error, g') → g' = g

namespace Atomic

theorem of_ok {e : Edit β α} (h : ∃ a g', e.apply g = (.ok a, g')) : e.Atomic g := by
  obtain ⟨a, g', h⟩ := h
  intro error g'' h'
  simp [h] at h'

theorem throw (error : Error) : (MonadExcept.throw error : Edit β α).Atomic g :=
  fun _ _ h => (Prod.mk.inj h).2.symm

theorem attempt (f : Graph β → Except Error (α × Graph β)) : (Edit.attempt f).Atomic g := by
  intro error g' h
  rw [← apply_attempt_error (congrArg Prod.fst h), h]

/-- An edit after steps that leave the graph alone. -/
theorem after {e : Edit β α} {f : α → Edit β γ} {R : α → Prop} (he : Keeps (· = g) R e)
    (hf : ∀ a, R a → (f a).Atomic g) : (e >>= f).Atomic g := by
  intro error g' h
  obtain ⟨hkept, hresult⟩ := he g rfl
  rw [apply_bind] at h
  rcases hout : e.apply g with ⟨error' | a, h'⟩ <;> rw [hout] at h hkept hresult <;>
    obtain rfl : h' = g := hkept
  · exact (Prod.mk.inj h).2.symm
  · exact hf a (hresult a rfl) error g' h

/-- An edit whose further steps succeed when the first one does. -/
theorem bind {e : Edit β α} {f : α → Edit β γ} (he : e.Atomic g)
    (hf : ∀ a g', e.apply g = (.ok a, g') → ∃ c g'', (f a).apply g' = (.ok c, g'')) :
    (e >>= f).Atomic g := by
  intro error g' h
  rw [apply_bind] at h
  rcases hout : e.apply g with ⟨error' | a, h'⟩ <;> rw [hout] at h
  · obtain rfl : h' = g' := (Prod.mk.inj h).2
    exact he error' h' hout
  · obtain ⟨c, g'', hc⟩ := hf a h' hout
    simp [hc] at h

end Atomic

/-- Looking up a layout leaves the graph alone. -/
theorem keeps_layoutOf (g : Graph β) (v : Value) :
    Keeps (· = g) (fun l => g.layout? v = some l) (layoutOf v) := by
  rintro g' rfl
  rw [layoutOf, apply_ask]
  refine ⟨rfl, fun l h => ?_⟩
  cases hl : g'.layout? v with
  | none => simp [hl] at h
  | some l' => rw [hl] at h; rw [Except.ok.inj h]

/-! ### Builders that leave nothing behind -/

theorem atomic_concat (name : String) (values : List Value) (axis : Nat) :
    (concat name values axis).Atomic g := by
  unfold concat
  cases values with
  | nil => exact .throw _
  | cons v rest =>
    refine .after (.layoutOf v) fun first _ => ?_
    split
    · exact .throw _
    · exact .after (Extensible.concatDim rest _) fun _ _ =>
        .bind (.attempt _) fun _ g' _ => ⟨_, g', rfl⟩

theorem atomic_split (name : String) (v : Value) (axis parts : Nat) :
    (split name v axis parts).Atomic g :=
  .after (.layoutOf v) fun _ _ => .after (.pureExcept _) fun _ _ => .after (.pureExcept _) fun _ _ =>
    .bind (.attempt _) fun _ g' _ => ⟨_, g', rfl⟩

/-- Only the first of the new nodes reads the value, so that the first one may fail alone. -/
theorem atomic_sequenceLengths (name : String) (v : Value) : (sequenceLengths name v).Atomic g := by
  refine .after (.layoutOf v) fun layout _ => ?_
  split
  · exact .after (.pureExcept _) fun _ _ => .of_ok ⟨_, _, apply_addConstant name _ g⟩
  · refine .bind (.attempt _) fun shape g' hshape => ?_
    obtain ⟨-, rfl, rfl⟩ := apply_addNode_ok_iff.1 hshape
    exact exists_readLengths name _ (Graph.hasValue_push_new Nat.one_pos)
  · exact .throw _

/-! ### Builders that add a constant first -/

/-- A value that is not there is missed when the constant has been added. -/
theorem apply_withInts_of_not_hasValue {op : Op} {suffix : String} {ints : List Int}
    {layout : Layout} (hlt : v.node < g.slots.length) (hv : g.hasValue v = false) :
    (withInts op name suffix v ints layout).apply g =
      (.error (.invalidNode v.node), (g.addConstant (name ++ "/" ++ suffix) (.vector ints)).2) := by
  have hmissing : (g.addConstant (name ++ "/" ++ suffix) (.vector ints)).2.hasValue v = false :=
    (Graph.hasValue_push_of_lt _ hlt).trans hv
  rw [withInts, addInts, apply_bind_of_ok (apply_addConstant _ _ g), apply_bind, addNode,
    apply_attempt, Graph.addNode, Graph.checkValues, if_neg (Bool.eq_false_iff.1 hmissing)]
  rfl

end Edit

/-- What a builder makes of one value: a node that reads it together with a constant list of integers,
and the layout of the result. -/
structure Reshaping where
  op : Op
  suffix : String
  operand : Value
  ints : List Int
  layout : Layout → Except Error Layout

namespace Reshaping

/-- The builder under a name. -/
def build (r : Reshaping) (name : String) : Edit β Value := do
  let layout ← Edit.pureExcept (r.layout (← Edit.layoutOf r.operand))
  Edit.withInts r.op name r.suffix r.operand r.ints layout

/-- The operand is a value of an eliminated node, and there is a layout for the result. -/
def ReadsMarked (r : Reshaping) (g : Graph β) : Prop :=
  g.isEliminated r.operand.node = true ∧
    ∃ l l', g.layout? r.operand = some l ∧ r.layout l = .ok l'

variable {g : Graph β} {r : Reshaping} {name : String}

/-- Without a mark on the node of the operand nothing fails once there is a layout for the result. -/
theorem atomic_build (h : ¬ r.ReadsMarked g) : (r.build name).Atomic g := by
  refine .after (Edit.keeps_layoutOf g r.operand) fun l hl => .after (.pureExcept _) fun l' hl' => ?_
  have hmark : g.isEliminated r.operand.node = false := by
    rw [← Bool.not_eq_true]
    exact fun hmark => h ⟨hmark, l, l', hl, hl'⟩
  have hvalue : g.hasValue r.operand = true := by
    rw [Graph.hasValue_eq_of_layout? hl, hmark, Bool.not_false]
  exact .of_ok ⟨_, _, (Edit.apply_withInts_ok_iff (Graph.lt_length_of_layout? hl)).2
    ⟨hvalue, rfl, rfl⟩⟩

/-- With a mark the constant is there when the builder fails. -/
theorem apply_build_of_readsMarked (h : r.ReadsMarked g) :
    (r.build name).apply g = (.error (.invalidNode r.operand.node),
      (g.addConstant (name ++ "/" ++ r.suffix) (.vector r.ints)).2) := by
  obtain ⟨hmark, l, l', hl, hl'⟩ := h
  have hvalue : g.hasValue r.operand = false := by
    rw [Graph.hasValue_eq_of_layout? hl, hmark, Bool.not_true]
  rw [build, Edit.apply_bind_of_ok (Edit.apply_layoutOf_ok_iff.2 ⟨hl, rfl⟩),
    Edit.apply_bind_of_ok (Edit.apply_pureExcept_ok_iff.2 ⟨hl', rfl⟩)]
  exact Edit.apply_withInts_of_not_hasValue (Graph.lt_length_of_layout? hl) hvalue

end Reshaping

namespace ShapeCall

/-- The calls of builders that add a constant before the node that reads the operand. -/
def reshaping? : ShapeCall → Option Reshaping
  | unsqueeze v axis => some ⟨.unsqueeze, "axes", v, [(axis : Int)], (·.unsqueeze axis)⟩
  | squeeze v axis => some ⟨.squeeze, "axes", v, [(axis : Int)], (·.squeeze axis)⟩
  | transpose v order => some ⟨.transpose, "order", v, order.map Int.ofNat, (·.transpose order)⟩
  | reshape v target => some ⟨.reshape, "shape", v, target, (·.reshape target)⟩
  | concat .. | split .. | sequenceLengths _ => none

/-- The call adds a constant, and then comes upon the mark of its operand's node. -/
def ReadsMarked (c : ShapeCall) (g : Graph β) : Prop :=
  ∃ r, c.reshaping? = some r ∧ r.ReadsMarked g

variable {g : Graph β} {c : ShapeCall} {r : Reshaping} {name : String}

theorem run_of_reshaping? (h : c.reshaping? = some r) :
    (c.run name : Edit β (List Value)) = do return [← r.build name] := by
  cases c with
  | concat | split | sequenceLengths => simp [reshaping?] at h
  | unsqueeze | squeeze | transpose | reshape =>
    obtain rfl := Option.some.inj h
    rfl

theorem atomic_run_of_not_reshaping (h : c.reshaping? = none) : (c.run name).Atomic g := by
  cases c with
  | concat values axis => exact .bind (Edit.atomic_concat name values axis) fun _ g' _ => ⟨_, g', rfl⟩
  | split v axis parts => exact Edit.atomic_split name v axis parts
  | sequenceLengths v => exact .bind (Edit.atomic_sequenceLengths name v) fun _ g' _ => ⟨_, g', rfl⟩
  | unsqueeze | squeeze | transpose | reshape => simp [reshaping?] at h

/-- **What a failed call leaves behind.**  A call of a builder that fails leaves the graph as it is,
whatever its arguments are, unless it gives a value of an eliminated node new axes, for which there is
a layout.  Then it fails because new nodes cannot read that value, and a constant has been added that
nothing reads. -/
theorem atomic_run_iff (c : ShapeCall) (name : String) (g : Graph β) :
    ((c.run name).Atomic g ↔ ¬ c.ReadsMarked g) ∧
    ∀ r, c.reshaping? = some r → r.ReadsMarked g →
      (c.run name).apply g = (.error (.invalidNode r.operand.node),
        (g.addConstant (name ++ "/" ++ r.suffix) (.vector r.ints)).2) := by
  have hfails {r : Reshaping} (hc : c.reshaping? = some r) (hr : r.ReadsMarked g) :
      (c.run name).apply g = (.error (.invalidNode r.operand.node),
        (g.addConstant (name ++ "/" ++ r.suffix) (.vector r.ints)).2) := by
    rw [run_of_reshaping? hc, Edit.apply_bind, Reshaping.apply_build_of_readsMarked hr]
  refine ⟨⟨?_, fun hnot => ?_⟩, fun r => hfails⟩
  · rintro hatomic ⟨r, hc, hr⟩
    have hlength := congrArg (·.slots.length) (hatomic _ _ (hfails hc hr))
    simp [Graph.addConstant, Graph.length_slots_push] at hlength
  · cases hc : c.reshaping? with
    | none => exact atomic_run_of_not_reshaping hc
    | some r =>
      rw [run_of_reshaping? hc]
      exact .bind (Reshaping.atomic_build fun hr => hnot ⟨r, hc, hr⟩) fun _ g' _ => ⟨_, g', rfl⟩

/-- A rectifier is added, and then marked as eliminated. -/
def retiringChanges : List (Change Unit) :=
  [.addParameter "x" (.planar (.ofLengths [2, 1, 3]) .f32),
    .addNode { op := .relu, inputs := [⟨0, 0⟩], outputs := [.planar (.ofLengths [2, 1, 3]) .f32] },
    .markEliminated 1]

/-- A rectifier that is marked as eliminated while its result still has a layout. -/
def retiredRectifier : Graph Unit :=
  Change.runAll retiringChanges Graph.empty

/-- An axis of its result cannot be dropped, and the number of the axis stays in the graph as a
constant.  An axis of length two is refused before that, and a concatenation adds nothing. -/
theorem atomic_run_retiredRectifier :
    ((squeeze ⟨1, 0⟩ 1).run "flat").apply retiredRectifier =
        (.error (.invalidNode 1), (retiredRectifier.addConstant "flat/axes" (.vector [1])).2) ∧
      ¬ ((squeeze ⟨1, 0⟩ 1).run "flat").Atomic retiredRectifier ∧
      ((squeeze ⟨1, 0⟩ 0).run "flat").apply retiredRectifier =
        (.error (.shapeMismatch (.squeeze 0 (.ofLengths [2, 1, 3]))), retiredRectifier) ∧
      ((concat [⟨0, 0⟩, ⟨1, 0⟩] 0).run "wide").apply retiredRectifier =
        (.error (.invalidNode 1), retiredRectifier) := by
  have hmarked : (squeeze ⟨1, 0⟩ 1).ReadsMarked retiredRectifier :=
    ⟨_, rfl, rfl, _, _, rfl, rfl⟩
  have hrefused : ¬ (squeeze ⟨1, 0⟩ 0).ReadsMarked retiredRectifier := by
    rintro ⟨r, hr, -, l, l', hl, hl'⟩
    obtain rfl := Option.some.inj hr
    obtain rfl := Option.some.inj hl
    simp [Layout.squeeze, Layout.planar, Shape.ofLengths, Shape.dim?] at hl'
  have hconcat : ¬ (concat [⟨0, 0⟩, ⟨1, 0⟩] 0).ReadsMarked retiredRectifier := by
    rintro ⟨r, hr, -⟩
    simp [reshaping?] at hr
  obtain ⟨hsqueeze, hleft⟩ := atomic_run_iff (squeeze ⟨1, 0⟩ 1) "flat" retiredRectifier
  refine ⟨?_, fun h => hsqueeze.1 h hmarked, ?_, ?_⟩
  · obtain ⟨r, hr, hmark⟩ := hmarked
    obtain rfl := Option.some.inj hr
    exact hleft _ rfl hmark
  · have hfails : (((squeeze ⟨1, 0⟩ 0).run "flat").apply retiredRectifier).1 =
        .error (.shapeMismatch (.squeeze 0 (.ofLengths [2, 1, 3]))) := by decide +kernel
    exact Prod.ext hfails ((atomic_run_iff _ "flat" _).1.2 hrefused _ _ (Prod.ext hfails rfl))
  · have hfails : (((concat [⟨0, 0⟩, ⟨1, 0⟩] 0).run "wide").apply retiredRectifier).1 =
        .error (.invalidNode 1) := by decide +kernel
    exact Prod.ext hfails ((atomic_run_iff _ "wide" _).1.2 hconcat _ _ (Prod.ext hfails rfl))

/-- A call that fails may leave a constant behind. -/
theorem exists_constant_left_behind :
    ¬ ∀ (cs : List (Change Unit)) (c : ShapeCall) (name : String),
      (c.run name).Atomic (Change.runAll cs Graph.empty) := by
  intro hall
  have hfails : (((squeeze ⟨1, 0⟩ 1).run "flat").apply retiredRectifier).1 =
      .error (.invalidNode 1) := by decide +kernel
  have hgrown : (((squeeze ⟨1, 0⟩ 1).run "flat").apply retiredRectifier).2.slots.length = 3 := by
    decide +kernel
  have hsame : (((squeeze ⟨1, 0⟩ 1).run "flat").apply retiredRectifier).2 = retiredRectifier :=
    hall retiringChanges _ _ _ _ (Prod.ext hfails rfl)
  rw [hsame] at hgrown
  exact absurd hgrown (by decide +kernel)

end ShapeCall

end Dataflow
