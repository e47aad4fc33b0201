import Dataflow.Build
import Dataflow.Proofs.Edit
import Dataflow.Proofs.Graph.References

/-!
# What the builders add

A builder that succeeds adds nodes at the end of the slots and changes nothing else.  Here each
builder is described by the nodes that it pushes, and a graph that has grown by such nodes is
related to the one before.

## Main definitions

* `Graph.pushWithInts` : a constant list of integers, and a node that reads it.
* `Graph.Grows` : further nodes that read existing values.

## Main statements

* `Edit.apply_addNode_ok_iff`, `Edit.apply_withInts_ok_iff` : what a single builder pushes.
* `Edit.Grows.unsqueeze` and its companions : every builder lets the graph grow, and its result is
  new.
-/

namespace Dataflow

variable {β : Type}

namespace Graph

variable {g g' : Graph β} {spec : NodeSpec β} {id : Nat} {v w : Value} {S : Value → Prop}

/-! ### Values of a graph with a new node -/

theorem length_slots_push (g : Graph β) (spec : NodeSpec β) :
    (g.push spec).slots.length = g.slots.length + 1 := by
  simp [push]

theorem lt_length_of_hasValue (h : g.hasValue v = true) : v.node < g.slots.length := by
  obtain ⟨n, hn, -⟩ := hasValue_iff.1 h
  exact lt_length_of_live? hn

theorem lt_length_of_layout? {l : Layout} (h : g.layout? v = some l) :
    v.node < g.slots.length := by
  obtain ⟨n, hn, -⟩ := Option.bind_eq_some_iff.1 h
  obtain ⟨s, hs, -⟩ := node?_eq_some.1 hn
  exact lt_length_of_slot? hs

theorem hasValue_push_of_lt (spec : NodeSpec β) (hv : v.node < g.slots.length) :
    (g.push spec).hasValue v = g.hasValue v := by
  simp only [hasValue, source?, live?_push, if_neg (Nat.ne_of_lt hv)]

theorem hasValue_push (spec : NodeSpec β) (h : g.hasValue v = true) :
    (g.push spec).hasValue v = true :=
  (hasValue_push_of_lt spec (lt_length_of_hasValue h)).trans h

theorem hasValue_push_new {i : Nat} (hi : i < spec.outputs.length) :
    (g.push spec).hasValue ⟨g.slots.length, i⟩ = true :=
  hasValue_iff.2 ⟨spec.build g.slots.length, by simp [live?_push], hi⟩

/-! ### Constants -/

theorem value_constantSpec (name : String) (c : Tensor) :
    (constantSpec name c : NodeSpec β).attributes.get? "value" = some (.tensor c) := by
  rw [constantSpec, Attributes.get?_insert, if_pos rfl]

/-- A constant node holds its tensor. -/
theorem constant?_constantSpec (name : String) (c : Tensor) (id : Nat) :
    ((constantSpec name c : NodeSpec β).build id).constant? = some c := by
  have hvalue := value_constantSpec (β := β) name c
  simp only [Node.constant?, Node.attribute?, NodeSpec.build, hvalue]
  rfl

/-! ### Growing -/

/-- The second graph is the first one with further nodes, which read only existing values that
satisfy `S`. -/
inductive Grows (S : Value → Prop) (g : Graph β) : Graph β → Prop
  | refl : Grows S g g
  | push {h : Graph β} (spec : NodeSpec β) (hg : Grows S g h)
      (hv : ∀ v ∈ spec.inputs, h.hasValue v = true ∧ S v) : Grows S g (h.push spec)

theorem Grows.trans {h k : Graph β} (hgh : Grows S g h) (hhk : Grows S h k) : Grows S g k := by
  induction hhk with
  | refl => exact hgh
  | push spec _ hv ih => exact .push spec ih hv

theorem Grows.length_le (h : Grows S g g') : g.slots.length ≤ g'.slots.length := by
  induction h with
  | refl => exact Nat.le_refl _
  | push spec _ _ ih =>
    rw [length_slots_push]
    omega

theorem Grows.hasValue (h : Grows S g g') (hv : g.hasValue v = true) : g'.hasValue v = true := by
  induction h with
  | refl => exact hv
  | push spec _ _ ih => exact hasValue_push spec ih

theorem Grows.slot? (h : Grows S g g') (hid : id < g.slots.length) :
    g'.slot? id = g.slot? id := by
  induction h with
  | refl => rfl
  | push spec hg _ ih =>
    have hlt := Nat.lt_of_lt_of_le hid hg.length_le
    rw [slot?_push, if_neg (Nat.ne_of_lt hlt), ih]

theorem Grows.live? (h : Grows S g g') (hid : id < g.slots.length) :
    g'.live? id = g.live? id := by
  rw [live?_eq_bind, live?_eq_bind, h.slot? hid]

theorem Grows.outputs (h : Grows S g g') : g'.outputs = g.outputs := by
  induction h with
  | refl => rfl
  | push spec _ _ ih => exact ih

/-- The new nodes read only what they may read. -/
theorem Grows.mem_inputs (h : Grows S g g') (hid : g.slots.length ≤ id) {n : Node β}
    (hn : g'.live? id = some n) : ∀ v ∈ n.inputs, S v := by
  induction h with
  | refl => exact absurd (lt_length_of_live? hn) (Nat.not_lt.2 hid)
  | push spec _ hv ih =>
    rw [live?_push] at hn
    split at hn
    · obtain rfl := Option.some.inj hn
      exact fun v hv' => (hv v hv').2
    · exact ih hn

theorem Grows.wellKept (h : Grows S g g') (hg : g.WellKept) : g'.WellKept := by
  induction h with
  | refl => exact hg
  | push spec _ _ ih => exact ih.push spec

/-- The graph with a constant list of integers, and a node that reads a value and this list. -/
def pushWithInts (g : Graph β) (op : Op) (name suffix : String) (v : Value) (ints : List Int)
    (layout : Layout) : Graph β :=
  (g.push (constantSpec (name ++ "/" ++ suffix) (.vector ints))).push
    { op, name := some name, inputs := [v, ⟨g.slots.length, 0⟩], outputs := [layout] }

theorem Grows.pushWithInts {op : Op} {name suffix : String} {ints : List Int} {layout : Layout}
    (hv : g.hasValue v = true) (hS : S v) (hnew : ∀ w, g.slots.length ≤ w.node → S w) :
    Grows S g (g.pushWithInts op name suffix v ints layout) := by
  refine .push _ (.push _ .refl (by simp [constantSpec])) fun w hw => ?_
  obtain rfl | hw := List.mem_cons.1 hw
  · exact ⟨hasValue_push _ hv, hS⟩
  · obtain rfl := List.mem_singleton.1 hw
    exact ⟨hasValue_push_new (by simp [constantSpec]), hnew _ (Nat.le_refl _)⟩

theorem exists_live?_pushWithInts {op : Op} {name suffix : String} {ints : List Int}
    {layout : Layout} : ∃ n, (g.pushWithInts op name suffix v ints layout).live?
      (g.slots.length + 1) = some n ∧ n.op = op := by
  rw [pushWithInts, ← length_slots_push g (constantSpec (name ++ "/" ++ suffix) (.vector ints)),
    live?_push, if_pos rfl]
  exact ⟨_, rfl, rfl⟩

end Graph

namespace Edit

variable {α : Type} {g g' : Graph β} {spec : NodeSpec β} {id : Nat} {v w : Value}
  {S : Value → Prop}

/-! ### Single steps -/

theorem checkValues_eq_ok {g : Graph β} {values : List Value} :
    g.checkValues values = .ok () ↔ ∀ v ∈ values, g.hasValue v = true := by
  induction values with
  | nil => simp [Graph.checkValues]
  | cons v rest ih =>
    rw [Graph.checkValues]
    split
    · next h => simp [ih, h]
    · next h => simp [h]

theorem apply_addNode_ok_iff : (addNode spec).apply g = (.ok id, g') ↔
    (∀ v ∈ spec.inputs, g.hasValue v = true) ∧ id = g.slots.length ∧ g' = g.push spec := by
  rw [addNode, apply_attempt, Graph.addNode, ← checkValues_eq_ok]
  cases hc : g.checkValues spec.inputs with
  | error e => simp [bind, Except.bind]
  | ok u => simp [bind, Except.bind, pure, Except.pure, eq_comm]

theorem apply_ask_ok_iff {f : Graph β → Except Error α} {a : α} :
    (ask f).apply g = (.ok a, g') ↔ f g = .ok a ∧ g = g' := by
  rw [apply_ask, Prod.mk.injEq]

theorem apply_layoutOf_ok_iff {l : Layout} :
    (layoutOf v).apply g = (.ok l, g') ↔ g.layout? v = some l ∧ g = g' := by
  rw [layoutOf, apply_ask_ok_iff]
  cases g.layout? v <;> simp

theorem apply_pureExcept_ok_iff {x : Except Error α} {a : α} :
    (pureExcept x : Edit β α).apply g = (.ok a, g') ↔ x = .ok a ∧ g = g' :=
  apply_ask_ok_iff

theorem apply_withInts_ok_iff {op : Op} {name suffix : String} {ints : List Int} {layout : Layout}
    (hv : v.node < g.slots.length) :
    (withInts op name suffix v ints layout).apply g = (.ok w, g') ↔
      g.hasValue v = true ∧ w = ⟨g.slots.length + 1, 0⟩ ∧
        g' = g.pushWithInts op name suffix v ints layout := by
  have hconst : (g.push (Graph.constantSpec (name ++ "/" ++ suffix) (.vector ints))).hasValue
      ⟨g.slots.length, 0⟩ = true :=
    Graph.hasValue_push_new (by simp [Graph.constantSpec])
  simp only [withInts, addInts, apply_bind_ok_iff, apply_addConstant, Prod.mk.injEq,
    Except.ok.injEq, apply_addNode_ok_iff, apply_pure, Graph.addConstant]
  constructor
  · rintro ⟨_, _, ⟨rfl, rfl⟩, _, _, ⟨hin, rfl, rfl⟩, rfl, rfl⟩
    refine ⟨?_, by simp [Graph.length_slots_push], rfl⟩
    exact (Graph.hasValue_push_of_lt _ hv).symm.trans (hin v List.mem_cons_self)
  · rintro ⟨hval, rfl, rfl⟩
    refine ⟨_, _, ⟨rfl, rfl⟩, _, _, ⟨?_, rfl, rfl⟩, by simp [Graph.length_slots_push], rfl⟩
    intro u hu
    obtain rfl | hu := List.mem_cons.1 hu
    · exact Graph.hasValue_push _ hval
    · exact List.mem_singleton.1 hu ▸ hconst

/-! ### One operand and a list of integers -/

/-- A builder that computes the layout of its result from that of its operand. -/
theorem apply_reshaped_ok_iff {op : Op} {name suffix : String} {ints : List Int}
    {f : Layout → Except Error Layout} :
    (do let layout ← pureExcept (f (← layoutOf v))
        withInts op name suffix v ints layout : Edit β Value).apply g = (.ok w, g') ↔
      ∃ l l', g.layout? v = some l ∧ f l = .ok l' ∧ g.hasValue v = true ∧
        w = ⟨g.slots.length + 1, 0⟩ ∧ g' = g.pushWithInts op name suffix v ints l' := by
  simp only [apply_bind_ok_iff, apply_layoutOf_ok_iff, apply_pureExcept_ok_iff]
  constructor
  · rintro ⟨l, _, ⟨hl, rfl⟩, l', _, ⟨hl', rfl⟩, h⟩
    exact ⟨l, l', hl, hl', (apply_withInts_ok_iff (Graph.lt_length_of_layout? hl)).1 h⟩
  · rintro ⟨l, l', hl, hl', h⟩
    exact ⟨l, g, ⟨hl, rfl⟩, l', g, ⟨hl', rfl⟩,
      (apply_withInts_ok_iff (Graph.lt_length_of_layout? hl)).2 h⟩

theorem apply_unsqueeze_ok_iff {name : String} {axis : Nat} :
    (unsqueeze name v axis).apply g = (.ok w, g') ↔
      ∃ l l', g.layout? v = some l ∧ l.unsqueeze axis = .ok l' ∧ g.hasValue v = true ∧
        w = ⟨g.slots.length + 1, 0⟩ ∧ g' = g.pushWithInts .unsqueeze name "axes" v [(axis : Int)] l' :=
  apply_reshaped_ok_iff

theorem apply_squeeze_ok_iff {name : String} {axis : Nat} :
    (squeeze name v axis).apply g = (.ok w, g') ↔
      ∃ l l', g.layout? v = some l ∧ l.squeeze axis = .ok l' ∧ g.hasValue v = true ∧
        w = ⟨g.slots.length + 1, 0⟩ ∧ g' = g.pushWithInts .squeeze name "axes" v [(axis : Int)] l' :=
  apply_reshaped_ok_iff

theorem apply_transpose_ok_iff {name : String} {order : List Nat} :
    (transpose name v order).apply g = (.ok w, g') ↔
      ∃ l l', g.layout? v = some l ∧ l.transpose order = .ok l' ∧ g.hasValue v = true ∧
        w = ⟨g.slots.length + 1, 0⟩ ∧
          g' = g.pushWithInts .transpose name "order" v (order.map Int.ofNat) l' :=
  apply_reshaped_ok_iff

theorem apply_reshape_ok_iff {name : String} {target : List Int} :
    (reshape name v target).apply g = (.ok w, g') ↔
      ∃ l l', g.layout? v = some l ∧ l.reshape target = .ok l' ∧ g.hasValue v = true ∧
        w = ⟨g.slots.length + 1, 0⟩ ∧ g' = g.pushWithInts .reshape name "shape" v target l' :=
  apply_reshaped_ok_iff

/-! ### Values laid end to end, and cut into parts -/

/-- The node that lays values end to end. -/
def concatSpec (name : String) (values : List Value) (axis : Nat) (layout : Layout) : NodeSpec β where
  op := .concat
  name := some name
  inputs := values
  outputs := [layout]
  attributes := Attributes.empty.insert "axis" (.int axis)

/-- The node that cuts a value into equal parts. -/
def splitSpec (name : String) (v : Value) (axis parts : Nat) (layout : Layout) : NodeSpec β where
  op := .split
  name := some name
  inputs := [v]
  outputs := List.replicate parts layout
  attributes := (Attributes.empty.insert "axis" (.int axis)).insert "num_splits" (.int parts)

private theorem apply_concatDim_snd {first : Layout} {axis : Nat} {values : List Value} {d d' : Dim}
    (h : (concatDim first axis values d).apply g = (.ok d', g')) : g = g' := by
  induction values generalizing d with
  | nil => exact (Prod.mk.inj h).2
  | cons v rest ih =>
    simp only [concatDim, apply_bind_ok_iff, apply_layoutOf_ok_iff, apply_pureExcept_ok_iff] at h
    obtain ⟨_, _, ⟨-, rfl⟩, _, _, ⟨-, rfl⟩, h⟩ := h
    exact ih h

theorem apply_concat_ok {name : String} {values : List Value} {axis : Nat}
    (h : (concat name values axis).apply g = (.ok w, g')) :
    ∃ first d d', values.head?.bind g.layout? = some first ∧ first.shape.dim? axis = some d ∧
      (concatDim first axis values.tail d).apply g = (.ok d', g) ∧
      (∀ v ∈ values, g.hasValue v = true) ∧ w = ⟨g.slots.length, 0⟩ ∧
      g' = g.push (concatSpec name values axis
        (.planar (first.shape.setDim axis d') first.elementType)) := by
  unfold concat at h
  cases values with
  | nil => simp at h
  | cons v rest =>
    simp only [apply_bind_ok_iff, apply_layoutOf_ok_iff] at h
    obtain ⟨first, _, ⟨hfirst, rfl⟩, h⟩ := h
    cases hd : first.shape.dim? axis with
    | none => simp [hd] at h
    | some d =>
      simp only [hd, apply_bind_ok_iff, apply_addNode_ok_iff, apply_pure, Prod.mk.injEq,
        Except.ok.injEq] at h
      obtain ⟨d', _, hdim, id, _, ⟨hin, rfl, rfl⟩, rfl, rfl⟩ := h
      obtain rfl := apply_concatDim_snd hdim
      exact ⟨first, d, d', hfirst, hd, hdim, hin, rfl, rfl⟩

theorem apply_split_ok {name : String} {axis parts : Nat} {values : List Value}
    (h : (split name v axis parts).apply g = (.ok values, g')) :
    ∃ l layout, g.layout? v = some l ∧ l.part axis parts = .ok layout ∧ g.hasValue v = true ∧
      values = (List.range parts).map (fun i => ⟨g.slots.length, i⟩) ∧
        g' = g.push (splitSpec name v axis parts layout) := by
  simp only [split, copies, apply_bind_ok_iff, apply_layoutOf_ok_iff, apply_pureExcept_ok_iff,
    apply_addNode_ok_iff, apply_pure, Prod.mk.injEq, Except.ok.injEq] at h
  obtain ⟨l, _, ⟨hl, rfl⟩, part, _, ⟨hpart, rfl⟩, outputs, _, ⟨hcopies, rfl⟩, _, _,
    ⟨hin, rfl, rfl⟩, rfl, rfl⟩ := h
  split at hcopies
  · obtain rfl := Except.ok.inj hcopies
    exact ⟨l, part, hl, hpart, hin v List.mem_cons_self, rfl, rfl⟩
  · simp at hcopies

/-! ### Lengths of sequences -/

/-- The node that takes one entry of a vector of lengths. -/
def entrySpec (name suffix : String) (lengths indices : Value) : NodeSpec β where
  op := .gather
  name := some (name ++ "/" ++ suffix)
  inputs := [lengths, indices]
  outputs := [.planar (.ofLengths [1]) .i64]
  attributes := Attributes.empty.insert "axis" (.int 0)

/-- The node that holds the lengths of a value. -/
def shapeSpec (name : String) (v : Value) (rank : Nat) : NodeSpec β where
  op := .shapeOf
  name := some (name ++ "/shape_of")
  inputs := [v]
  outputs := [.planar (.ofLengths [rank]) .i64]

/-- The node that repeats a value. -/
def repeatSpec (name : String) (v count : Value) (length : Dim) : NodeSpec β where
  op := .broadcast
  name := some name
  inputs := [v, count]
  outputs := [.planar ⟨[length]⟩ .i64]

theorem apply_entry_ok {name suffix : String} {p : Int}
    (happly : (entry name suffix v p).apply g = (.ok w, g')) :
    w = ⟨g.slots.length + 1, 0⟩ ∧ g' = (g.push (Graph.constantSpec
      (name ++ "/" ++ suffix ++ "_index") (.vector [p]))).push
        (entrySpec name suffix v ⟨g.slots.length, 0⟩) := by
  simp only [entry, addInts, apply_bind_ok_iff, apply_addConstant, Prod.mk.injEq,
    Except.ok.injEq, apply_addNode_ok_iff, apply_pure, Graph.addConstant] at happly
  obtain ⟨_, _, ⟨rfl, rfl⟩, _, _, ⟨-, rfl, rfl⟩, rfl, rfl⟩ := happly
  exact ⟨by rw [Graph.length_slots_push], rfl⟩

theorem length_of_entry {name suffix : String} {p : Int}
    (happly : (entry name suffix v p).apply g = (.ok w, g')) :
    g'.slots.length = g.slots.length + 2 := by
  rw [(apply_entry_ok happly).2, Graph.length_slots_push, Graph.length_slots_push]

/-- The lengths are a constant when the first two dimensions are known, and are read off the value
otherwise. -/
theorem apply_sequenceLengths_ok {name : String}
    (happly : (sequenceLengths name v).apply g = (.ok w, g')) :
    ∃ l, g.layout? v = some l ∧
      ((∃ batch time, l.shape.dim? 0 = some (.known batch) ∧ l.shape.dim? 1 = some (.known time) ∧
        w = ⟨g.slots.length, 0⟩ ∧ g' = g.push
          (Graph.constantSpec name (.vector (List.replicate batch (Word.signed time))))) ∨
      ∃ batch g₁ g₂ time count, l.shape.dim? 0 = some batch ∧ g.hasValue v = true ∧
        (entry name "time" ⟨g.slots.length, 0⟩ 1).apply (g.push (shapeSpec name v l.shape.rank)) =
          (.ok time, g₁) ∧
        (entry name "batch" ⟨g.slots.length, 0⟩ 0).apply g₁ = (.ok count, g₂) ∧
        w = ⟨g₂.slots.length, 0⟩ ∧ g' = g₂.push (repeatSpec name time count batch)) := by
  simp only [sequenceLengths, apply_bind_ok_iff, apply_layoutOf_ok_iff] at happly
  obtain ⟨l, _, ⟨hl, rfl⟩, happly⟩ := happly
  refine ⟨l, hl, ?_⟩
  split at happly
  · next batch time hbatch htime =>
    simp only [apply_bind_ok_iff, copies, apply_pureExcept_ok_iff, addInts, apply_addConstant,
      Prod.mk.injEq, Except.ok.injEq, Graph.addConstant] at happly
    obtain ⟨words, _, ⟨hwords, rfl⟩, rfl, rfl⟩ := happly
    split at hwords
    · obtain rfl := Except.ok.inj hwords
      exact .inl ⟨batch, time, hbatch, htime, rfl, rfl⟩
    · simp at hwords
  · next hbatch _ =>
    simp only [apply_bind_ok_iff, apply_addNode_ok_iff, apply_pure, Prod.mk.injEq,
      Except.ok.injEq] at happly
    obtain ⟨_, _, ⟨hin, rfl, rfl⟩, time, g₁, htime, count, g₂, hcount, _, _, ⟨-, rfl, rfl⟩, rfl,
      rfl⟩ := happly
    exact .inr ⟨_, g₁, g₂, time, count, hbatch, hin v List.mem_cons_self, htime, hcount, rfl,
      rfl⟩
  · simp at happly

/-! ### Growing by builders -/

/-- What a builder leaves behind: a graph that has grown, and a new value. -/
structure Built (S : Value → Prop) (g g' : Graph β) (w : Value) : Prop where
  grows : g.Grows S g'
  hasValue : g'.hasValue w = true
  new : g.slots.length ≤ w.node

theorem Built.withInts {op : Op} {name suffix : String} {ints : List Int} {layout : Layout}
    (hv : g.hasValue v = true) (hS : S v) (hnew : ∀ u, g.slots.length ≤ u.node → S u) :
    Built S g (g.pushWithInts op name suffix v ints layout) ⟨g.slots.length + 1, 0⟩ where
  grows := .pushWithInts hv hS hnew
  hasValue := by
    have hlen := Graph.length_slots_push g
      (Graph.constantSpec (name ++ "/" ++ suffix) (.vector ints))
    rw [Graph.pushWithInts, ← hlen]
    exact Graph.hasValue_push_new Nat.one_pos
  new := Nat.le_succ _

theorem Built.concat {name : String} {values : List Value} {axis : Nat}
    (h : (concat name values axis).apply g = (.ok w, g')) (hS : ∀ v ∈ values, S v) :
    Built S g g' w := by
  obtain ⟨_, _, _, -, -, -, hin, rfl, rfl⟩ := apply_concat_ok h
  exact ⟨.push _ .refl fun v hv => ⟨hin v hv, hS v hv⟩, Graph.hasValue_push_new Nat.one_pos,
    Nat.le_refl _⟩

theorem Built.constant (name : String) (data : Tensor) :
    Built S g (g.addConstant name data).2 (g.addConstant name data).1 :=
  ⟨.push _ .refl (by simp [Graph.constantSpec]), Graph.hasValue_push_new Nat.one_pos,
    Nat.le_refl _⟩

theorem Built.transpose {name : String} {order : List Nat}
    (h : (transpose name v order).apply g = (.ok w, g')) (hS : S v)
    (hnew : ∀ u, g.slots.length ≤ u.node → S u) : Built S g g' w := by
  obtain ⟨l, l', -, -, hv, rfl, rfl⟩ := apply_transpose_ok_iff.1 h
  exact .withInts hv hS hnew

theorem Built.unsqueeze {name : String} {axis : Nat}
    (h : (unsqueeze name v axis).apply g = (.ok w, g')) (hS : S v)
    (hnew : ∀ u, g.slots.length ≤ u.node → S u) : Built S g g' w := by
  obtain ⟨l, l', -, -, hv, rfl, rfl⟩ := apply_unsqueeze_ok_iff.1 h
  exact .withInts hv hS hnew

theorem Built.squeeze {name : String} {axis : Nat}
    (h : (squeeze name v axis).apply g = (.ok w, g')) (hS : S v)
    (hnew : ∀ u, g.slots.length ≤ u.node → S u) : Built S g g' w := by
  obtain ⟨l, l', -, -, hv, rfl, rfl⟩ := apply_squeeze_ok_iff.1 h
  exact .withInts hv hS hnew

theorem Built.reshape {name : String} {target : List Int}
    (h : (reshape name v target).apply g = (.ok w, g')) (hS : S v)
    (hnew : ∀ u, g.slots.length ≤ u.node → S u) : Built S g g' w := by
  obtain ⟨l, l', -, -, hv, rfl, rfl⟩ := apply_reshape_ok_iff.1 h
  exact .withInts hv hS hnew

theorem Built.trans {u : Value} {h : Graph β} (hg : Built S g g' u) (hh : Built S g' h w) :
    Built S g h w :=
  ⟨hg.grows.trans hh.grows, hh.hasValue, Nat.le_trans hg.grows.length_le hh.new⟩

theorem Built.entry {name suffix : String} {p : Int}
    (h : (entry name suffix v p).apply g = (.ok w, g')) (hv : g.hasValue v = true) (hS : S v)
    (hnew : ∀ u, g.slots.length ≤ u.node → S u) : Built S g g' w := by
  obtain ⟨rfl, rfl⟩ := apply_entry_ok h
  have hlen := Graph.length_slots_push g
    (Graph.constantSpec (name ++ "/" ++ suffix ++ "_index") (.vector [p]))
  refine ⟨.push _ (.push _ .refl (by simp [Graph.constantSpec])) fun u hu => ?_, ?_, Nat.le_succ _⟩
  · obtain rfl | hu := List.mem_cons.1 hu
    · exact ⟨Graph.hasValue_push _ hv, hS⟩
    · obtain rfl := List.mem_singleton.1 hu
      exact ⟨Graph.hasValue_push_new (by simp [Graph.constantSpec]), hnew _ (Nat.le_refl _)⟩
  · rw [← hlen]
    exact Graph.hasValue_push_new Nat.one_pos

theorem Built.sequenceLengths {name : String}
    (h : (sequenceLengths name v).apply g = (.ok w, g')) (hS : S v)
    (hnew : ∀ u, g.slots.length ≤ u.node → S u) : Built S g g' w := by
  obtain ⟨l, hl, ⟨batch, time, -, -, rfl, rfl⟩ |
    ⟨batch, g₁, g₂, time, count, -, hv, htime, hcount, rfl, rfl⟩⟩ := apply_sequenceLengths_ok h
  · exact .constant name _
  · have hlen := Graph.length_slots_push g (shapeSpec name v l.shape.rank)
    have hshape : Built S g (g.push (shapeSpec name v l.shape.rank)) ⟨g.slots.length, 0⟩ := by
      refine ⟨.push _ .refl fun u hu => ?_, Graph.hasValue_push_new Nat.one_pos, Nat.le_refl _⟩
      obtain rfl := List.mem_singleton.1 hu
      exact ⟨hv, hS⟩
    have htime := Built.entry htime hshape.hasValue (hnew _ hshape.new) fun u hu =>
      hnew u (by omega)
    have hcount := Built.entry hcount (htime.grows.hasValue hshape.hasValue) (hnew _ hshape.new)
      fun u hu => hnew u (Nat.le_trans (hshape.trans htime).grows.length_le hu)
    have hall := (hshape.trans htime).trans hcount
    refine ⟨.push _ hall.grows fun u hu => ?_, Graph.hasValue_push_new Nat.one_pos,
      hall.grows.length_le⟩
    obtain rfl | hu := List.mem_cons.1 hu
    · exact ⟨hcount.grows.hasValue htime.hasValue, hnew _ (hshape.trans htime).new⟩
    · obtain rfl := List.mem_singleton.1 hu
      exact ⟨hcount.hasValue, hnew _ hall.new⟩

end Edit

end Dataflow
