import Dataflow.Proofs.Graph.Specs
import Dataflow.Proofs.Runtime.Extents

/-!
# Declared layouts of built nodes

Every builder of shape-changing nodes declares a layout for what it builds.  Whatever the lengths
are that the layouts of its operands leave open, the new nodes do to the operands what the builder
is asked for, and the declared layout says nothing false about the result, provided that the
operations of the new nodes are defined for the tensors that come up when the graph runs.

Builders add and multiply lengths as words.  A number of elements or a sum of lengths that is not a
word is declared wrong.

## Main definitions

* `Graph.RunsFrom` : what the new nodes do to the extents of values.
* `Graph.AgreesFrom` : the declared layouts of the new nodes are right.
* `ShapeCall` : the calls of the builders.
* `ShapeCall.Gives` : what a call asks for.
* `ShapeCall.CountsWords` : the number that the builder computes from known lengths is a word.

## Main statements

* `Graph.AgreesFrom.push` : a further node.
* `ShapeCall.gives_run` : what a builder returns is what it is asked for.
* `ShapeCall.agrees_run` : the layouts that a builder declares are right.
* `ShapeCall.exists_not_agrees_run` : a number of elements that is not a word.
-/

namespace Dataflow

variable {β : Type}

/-- The extents of the outputs of the node are results of its operation. -/
def Node.Runs (n : Node β) (X : Value → Extent) : Prop :=
  n.op.RunsTo n.attributes (n.inputs.map X) (n.values.map X)

namespace Graph

variable {g : Graph β} {X : Value → Extent} {start : Nat} {spec : NodeSpec β}

/-- The extents of values follow from the operations of the nodes from a number on. -/
def RunsFrom (X : Value → Extent) (start : Nat) (g : Graph β) : Prop :=
  ∀ id n, start ≤ id → g.live? id = some n → n.Runs X

/-- The declared layouts of the nodes from a number on say nothing false about the lengths. -/
def AgreesFrom (X : Value → Extent) (start : Nat) (g : Graph β) : Prop :=
  ∀ v l, start ≤ v.node → g.layout? v = some l → l.shape.Agrees (X v).lengths

theorem RunsFrom.of_push (h : (g.push spec).RunsFrom X start) (hstart : start ≤ g.slots.length) :
    (spec.build g.slots.length).Runs X ∧ g.RunsFrom X start := by
  constructor
  · exact h g.slots.length _ hstart (by rw [live?_push, if_pos rfl])
  · intro id n hid hn
    refine h id n hid ?_
    rw [live?_push, if_neg (Nat.ne_of_lt (lt_length_of_live? hn)), hn]

theorem layout?_push (g : Graph β) (spec : NodeSpec β) (v : Value) : (g.push spec).layout? v =
    if v.node = g.slots.length then spec.outputs[v.index]? else g.layout? v := by
  simp only [layout?, producer?, node?, slot?_push]
  split <;> rfl

/-- A further node whose outputs are declared right. -/
theorem AgreesFrom.push (h : g.AgreesFrom X start)
    (hout : ∀ (i : Nat) (l : Layout), spec.outputs[i]? = some l →
      l.shape.Agrees (X ⟨g.slots.length, i⟩).lengths) : (g.push spec).AgreesFrom X start := by
  rintro ⟨id, i⟩ l hid hl
  rw [layout?_push] at hl
  split at hl
  · next hnode =>
    obtain rfl : id = g.slots.length := hnode
    exact hout i l hl
  · exact h ⟨id, i⟩ l hid hl

/-- There are no nodes past the last one. -/
theorem agreesFrom_length (X : Value → Extent) (g : Graph β) : g.AgreesFrom X g.slots.length :=
  fun _ _ hv hl => absurd (lt_length_of_layout? hl) (Nat.not_lt.2 hv)

/-! ### Single nodes -/

/-- The only output of a node. -/
theorem AgreesFrom.push_one (h : g.AgreesFrom X start) {l : Layout} (hspec : spec.outputs = [l])
    (hl : l.shape.Agrees (X ⟨g.slots.length, 0⟩).lengths) : (g.push spec).AgreesFrom X start := by
  refine h.push fun i l' hl' => ?_
  rw [hspec] at hl'
  cases i with
  | zero => exact Option.some.inj hl' ▸ hl
  | succ i => simp at hl'

theorem eq_of_runs_constant {id : Nat} {name : String} {data : Tensor}
    (h : ((constantSpec name data : NodeSpec β).build id).Runs X) :
    X ⟨id, 0⟩ = ⟨data.shape, data.toInts.toOption⟩ := by
  have hvalue := value_constantSpec (β := β) name data
  generalize hX : X ⟨id, 0⟩ = x
  have hruns : Op.RunsTo (Attributes.empty.insert "value" (.tensor data)) .constant [] [x] := hX ▸ h
  cases hruns with
  | constant ht =>
    obtain rfl := Attribute.tensor.inj (Option.some.inj (hvalue.symm.trans ht))
    rfl

/-- A constant is declared right. -/
theorem AgreesFrom.push_constant (h : g.AgreesFrom X start) (name : String) (data : Tensor)
    (hruns : ((constantSpec name data : NodeSpec β).build g.slots.length).Runs X) :
    (g.push (constantSpec name data)).AgreesFrom X start := by
  refine h.push_one rfl ?_
  rw [eq_of_runs_constant hruns]
  exact Shape.agrees_ofLengths data.shape

variable {op : Op} {name suffix : String} {v : Value} {ints : List Int} {layout : Layout}

/-- What a node with a constant list of integers does to the value that it reads. -/
theorem exists_runsTo_pushWithInts
    (hruns : (g.pushWithInts op name suffix v ints layout).RunsFrom X g.slots.length) :
    ∃ list : Extent, list.ints? = some ints ∧
      op.RunsTo .empty [X v, list] [X ⟨g.slots.length + 1, 0⟩] := by
  obtain ⟨hnode, hruns⟩ := hruns.of_push (by simp [length_slots_push])
  obtain ⟨hlist, -⟩ := hruns.of_push (Nat.le_refl _)
  refine ⟨X ⟨g.slots.length, 0⟩, by rw [eq_of_runs_constant hlist]; rfl, ?_⟩
  rw [length_slots_push] at hnode
  exact hnode

/-- A node that reads a value and a constant list of integers, if it is declared right. -/
theorem agreesFrom_pushWithInts
    (hruns : (g.pushWithInts op name suffix v ints layout).RunsFrom X g.slots.length)
    (hlayout : layout.shape.Agrees (X ⟨g.slots.length + 1, 0⟩).lengths) :
    (g.pushWithInts op name suffix v ints layout).AgreesFrom X g.slots.length := by
  obtain ⟨-, hruns⟩ := hruns.of_push (by simp [length_slots_push])
  obtain ⟨hlist, -⟩ := hruns.of_push (Nat.le_refl _)
  refine ((agreesFrom_length X g).push_constant _ _ hlist).push_one rfl ?_
  rwa [length_slots_push]

end Graph

/-! ### Calls of builders -/

/-- A call of a builder of shape-changing nodes. -/
inductive ShapeCall
  | unsqueeze (v : Value) (axis : Nat)
  | squeeze (v : Value) (axis : Nat)
  | transpose (v : Value) (order : List Nat)
  | reshape (v : Value) (target : List Int)
  | concat (values : List Value) (axis : Nat)
  | split (v : Value) (axis parts : Nat)
  | sequenceLengths (v : Value)

namespace ShapeCall

/-- The values that the call works on. -/
def operands : ShapeCall → List Value
  | unsqueeze v _ | squeeze v _ | transpose v _ | reshape v _ | split v _ _ | sequenceLengths v => [v]
  | concat values _ => values

/-- The call under a name, with the values that it returns. -/
def run (name : String) : ShapeCall → Edit β (List Value)
  | unsqueeze v axis => do return [← Edit.unsqueeze name v axis]
  | squeeze v axis => do return [← Edit.squeeze name v axis]
  | transpose v order => do return [← Edit.transpose name v order]
  | reshape v target => do return [← Edit.reshape name v target]
  | concat values axis => do return [← Edit.concat name values axis]
  | split v axis parts => Edit.split name v axis parts
  | sequenceLengths v => do return [← Edit.sequenceLengths name v]

/-- The extents are those of the results of what the call asks for, done to its operands. -/
inductive Gives (X : Value → Extent) : ShapeCall → List Extent → Prop
  | unsqueeze {v : Value} {axis : Nat} {y : Extent} : axis ≤ (X v).lengths.length →
      y.lengths = (X v).lengths.insertIdx axis 1 → Gives X (unsqueeze v axis) [y]
  | squeeze {v : Value} {axis : Nat} {y : Extent} : (X v).lengths[axis]? = some 1 →
      y.lengths = (X v).lengths.eraseIdx axis → Gives X (squeeze v axis) [y]
  | transpose {v : Value} {order : List Nat} {y : Extent} :
      order.Perm (List.range (X v).lengths.length) →
        List.Forall₂ (fun i n => (X v).lengths[i]? = some n) order y.lengths →
          Gives X (transpose v order) [y]
  | reshape {v : Value} {target : List Int} {y : Extent} :
      Reshapes (X v).lengths target y.lengths → Gives X (reshape v target) [y]
  | concat {v : Value} {rest : List Value} {axis : Nat} {y : Extent} :
      axis < (X v).lengths.length →
        (∀ w ∈ rest, (X w).lengths.length = (X v).lengths.length ∧
          ∀ j ≠ axis, (X w).lengths[j]? = (X v).lengths[j]?) →
          y.lengths =
              (X v).lengths.set axis ((v :: rest).map fun w => (X w).lengths.getD axis 0).sum →
            Gives X (concat (v :: rest) axis) [y]
  | split {v : Value} {axis parts n : Nat} {ys : List Extent} : 0 < parts →
      (X v).lengths[axis]? = some (parts * n) → ys.length = parts →
        (∀ y ∈ ys, y.lengths = (X v).lengths.set axis n) → Gives X (split v axis parts) ys
  | sequenceLengths {v : Value} {batch time : Nat} {y : Extent} :
      (X v).lengths[0]? = some batch → (X v).lengths[1]? = some time → y.lengths = [batch] →
        (time < 2 ^ 63 → y.ints? = some (List.replicate batch (time : Int))) →
          Gives X (sequenceLengths v) [y]

/-- The number that the builder computes from declared lengths is a word: the number of elements of a
value with an entry to infer, if all its lengths are declared, and the sum of the lengths along the
axis of a concatenation, if these are declared. -/
def CountsWords (g : Graph β) (X : Value → Extent) : ShapeCall → Prop
  | reshape v target => -1 ∈ target →
      (∀ l, g.layout? v = some l → l.shape.isKnown = true) → numel (X v).lengths < 2 ^ 64
  | concat values axis =>
      (∀ v ∈ values, ∀ l, g.layout? v = some l → l.shape.dim? axis ≠ some .unknown) →
        (values.map fun w => (X w).lengths.getD axis 0).sum < 2 ^ 64
  | _ => True

variable {g g' : Graph β} {X : Value → Extent} {name : String} {v w : Value} {ws : List Value}

/-! ### One node and one constant -/

theorem gives_unsqueeze {axis : Nat} (h : (Edit.unsqueeze name v axis).apply g = (.ok w, g'))
    (hruns : g'.RunsFrom X g.slots.length) : (unsqueeze v axis).Gives X [X w] := by
  obtain ⟨l, l', -, -, -, rfl, rfl⟩ := Edit.apply_unsqueeze_ok_iff.1 h
  obtain ⟨axes, haxes, hnode⟩ := Graph.exists_runsTo_pushWithInts hruns
  generalize X ⟨g.slots.length + 1, 0⟩ = y at hnode ⊢
  cases hnode with
  | unsqueeze hints haxis hlengths =>
    obtain rfl := (List.cons.inj (Option.some.inj (haxes.symm.trans hints))).1
    obtain ⟨rfl, hlt⟩ := namedAxis?_natCast haxis
    exact .unsqueeze (Nat.le_of_lt_succ hlt) hlengths

theorem agreesFrom_unsqueeze {axis : Nat} (h : (Edit.unsqueeze name v axis).apply g = (.ok w, g'))
    (hv : ∀ l, g.layout? v = some l → l.shape.Agrees (X v).lengths)
    (hruns : g'.RunsFrom X g.slots.length) : g'.AgreesFrom X g.slots.length := by
  have hgives := gives_unsqueeze h hruns
  obtain ⟨l, l', hl, hl', -, rfl, rfl⟩ := Edit.apply_unsqueeze_ok_iff.1 h
  refine Graph.agreesFrom_pushWithInts hruns ?_
  obtain ⟨-, hlengths⟩ | _ := hgives
  rw [hlengths]
  exact (Layout.agrees_unsqueeze (hv l hl) hl').2

theorem gives_squeeze {axis : Nat} (h : (Edit.squeeze name v axis).apply g = (.ok w, g'))
    (hruns : g'.RunsFrom X g.slots.length) : (squeeze v axis).Gives X [X w] := by
  obtain ⟨l, l', -, -, -, rfl, rfl⟩ := Edit.apply_squeeze_ok_iff.1 h
  obtain ⟨axes, haxes, hnode⟩ := Graph.exists_runsTo_pushWithInts hruns
  generalize X ⟨g.slots.length + 1, 0⟩ = y at hnode ⊢
  cases hnode with
  | squeeze hints haxis hone hlengths =>
    obtain rfl := (List.cons.inj (Option.some.inj (haxes.symm.trans hints))).1
    obtain ⟨rfl, -⟩ := namedAxis?_natCast haxis
    exact .squeeze hone hlengths

theorem agreesFrom_squeeze {axis : Nat} (h : (Edit.squeeze name v axis).apply g = (.ok w, g'))
    (hv : ∀ l, g.layout? v = some l → l.shape.Agrees (X v).lengths)
    (hruns : g'.RunsFrom X g.slots.length) : g'.AgreesFrom X g.slots.length := by
  have hgives := gives_squeeze h hruns
  obtain ⟨l, l', hl, hl', -, rfl, rfl⟩ := Edit.apply_squeeze_ok_iff.1 h
  refine Graph.agreesFrom_pushWithInts hruns ?_
  obtain _ | ⟨-, hlengths⟩ := hgives
  rw [hlengths]
  exact Layout.agrees_squeeze (hv l hl) hl'

theorem gives_transpose {order : List Nat}
    (h : (Edit.transpose name v order).apply g = (.ok w, g'))
    (hruns : g'.RunsFrom X g.slots.length) : (transpose v order).Gives X [X w] := by
  obtain ⟨l, l', -, -, -, rfl, rfl⟩ := Edit.apply_transpose_ok_iff.1 h
  obtain ⟨axes, haxes, hnode⟩ := Graph.exists_runsTo_pushWithInts hruns
  generalize X ⟨g.slots.length + 1, 0⟩ = y at hnode ⊢
  cases hnode with
  | transpose hints hperm hlengths =>
    have horder := Option.some.inj (haxes.symm.trans hints)
    obtain rfl := List.map_injective_iff.2 (fun _ _ => Int.ofNat.inj) horder
    exact .transpose hperm hlengths

theorem agreesFrom_transpose {order : List Nat}
    (h : (Edit.transpose name v order).apply g = (.ok w, g'))
    (hv : ∀ l, g.layout? v = some l → l.shape.Agrees (X v).lengths)
    (hruns : g'.RunsFrom X g.slots.length) : g'.AgreesFrom X g.slots.length := by
  have hgives := gives_transpose h hruns
  obtain ⟨l, l', hl, hl', -, rfl, rfl⟩ := Edit.apply_transpose_ok_iff.1 h
  refine Graph.agreesFrom_pushWithInts hruns ?_
  cases hgives with
  | transpose _ hlengths => exact Layout.agrees_transpose (hv l hl) hl' hlengths

theorem gives_reshape {target : List Int} (h : (Edit.reshape name v target).apply g = (.ok w, g'))
    (hruns : g'.RunsFrom X g.slots.length) : (reshape v target).Gives X [X w] := by
  obtain ⟨l, l', -, -, -, rfl, rfl⟩ := Edit.apply_reshape_ok_iff.1 h
  obtain ⟨shape, hshape, hnode⟩ := Graph.exists_runsTo_pushWithInts hruns
  generalize X ⟨g.slots.length + 1, 0⟩ = y at hnode ⊢
  cases hnode with
  | reshape hints hlengths =>
    obtain rfl := Option.some.inj (hshape.symm.trans hints)
    exact .reshape hlengths

theorem agreesFrom_reshape {target : List Int}
    (h : (Edit.reshape name v target).apply g = (.ok w, g'))
    (hv : ∀ l, g.layout? v = some l → l.shape.Agrees (X v).lengths)
    (hwords : (reshape v target).CountsWords g X)
    (hruns : g'.RunsFrom X g.slots.length) : g'.AgreesFrom X g.slots.length := by
  have hgives := gives_reshape h hruns
  obtain ⟨l, l', hl, hl', -, rfl, rfl⟩ := Edit.apply_reshape_ok_iff.1 h
  refine Graph.agreesFrom_pushWithInts hruns ?_
  cases hgives with
  | reshape hlengths =>
    refine Layout.agrees_reshape (hv l hl) hl' hlengths fun hopen hknown => hwords hopen ?_
    rintro k hk
    obtain rfl := Option.some.inj (hl.symm.trans hk)
    exact Shape.isKnown_of_lengths? hknown

/-! ### Values laid end to end, and cut into parts -/

/-- A known dimension along the axis of a concatenation is that of known dimensions. -/
theorem known_of_concatDim {first : Layout} {axis n : Nat} {values : List Value} {d : Dim}
    (h : (Edit.concatDim first axis values d).apply g = (.ok (.known n), g')) :
    d ≠ .unknown ∧
      ∀ v ∈ values, ∀ l, g.layout? v = some l → l.shape.dim? axis ≠ some .unknown := by
  induction values generalizing d with
  | nil =>
    obtain rfl := Except.ok.inj (Prod.mk.inj h).1
    exact ⟨nofun, nofun⟩
  | cons v rest ih =>
    simp only [Edit.concatDim, Edit.apply_bind_ok_iff, Edit.apply_layoutOf_ok_iff,
      Edit.apply_pureExcept_ok_iff] at h
    obtain ⟨l, _, ⟨hl, rfl⟩, e, _, ⟨he, rfl⟩, h⟩ := h
    obtain ⟨hknown, hrest⟩ := ih h
    cases e with
    | unknown => exact absurd rfl hknown
    | known m =>
      obtain ⟨hd, hdim⟩ := Layout.known_of_concatDim he
      refine ⟨hd, List.forall_mem_cons.2 ⟨fun k hk => ?_, hrest⟩⟩
      rwa [← Option.some.inj (hl.symm.trans hk)]

/-- The dimension along the axis of a concatenation is that of the sum of the lengths. -/
theorem agrees_concatDim {first : Layout} {axis n : Nat} {values : List Value} {d d' : Dim}
    (h : (Edit.concatDim first axis values d).apply g = (.ok d', g'))
    (hvalues : ∀ v ∈ values, ∀ l, g.layout? v = some l → l.shape.Agrees (X v).lengths)
    (hd : d.Agrees n) (hlt : n + (values.map fun w => (X w).lengths.getD axis 0).sum < 2 ^ 64) :
    d'.Agrees (n + (values.map fun w => (X w).lengths.getD axis 0).sum) := by
  induction values generalizing d n with
  | nil =>
    obtain rfl := Except.ok.inj (Prod.mk.inj h).1
    exact hd
  | cons v rest ih =>
    simp only [Edit.concatDim, Edit.apply_bind_ok_iff, Edit.apply_layoutOf_ok_iff,
      Edit.apply_pureExcept_ok_iff] at h
    obtain ⟨l, _, ⟨hl, rfl⟩, e, _, ⟨he, rfl⟩, h⟩ := h
    obtain ⟨hv, hrest⟩ := List.forall_mem_cons.1 hvalues
    rw [List.map_cons, List.sum_cons, ← Nat.add_assoc] at hlt ⊢
    have hone := Nat.lt_of_le_of_lt (Nat.le_add_right _ _) hlt
    exact ih h hrest (Layout.agrees_concatDim (hv l hl) hd he hone) hlt

theorem gives_concat {values : List Value} {axis : Nat}
    (h : (Edit.concat name values axis).apply g = (.ok w, g'))
    (hruns : g'.RunsFrom X g.slots.length) : (concat values axis).Gives X [X w] := by
  obtain ⟨first, d, d', hfirst, -, -, -, rfl, rfl⟩ := Edit.apply_concat_ok h
  obtain ⟨hnode, -⟩ := hruns.of_push (Nat.le_refl _)
  cases values with
  | nil => simp at hfirst
  | cons v rest =>
    have haxis : (Attributes.empty.insert "axis" (.int axis)).get? "axis" =
        some (.int (axis : Int)) := by
      rw [Attributes.get?_insert, if_pos rfl]
    have hnode : Op.RunsTo (Attributes.empty.insert "axis" (.int axis)) .concat
        (X v :: rest.map X) [X ⟨g.slots.length, 0⟩] := hnode
    cases hnode with
    | concat hattr hnamed hshapes hlengths =>
      obtain rfl := Attribute.int.inj (Option.some.inj (haxis.symm.trans hattr))
      obtain ⟨rfl, hlt⟩ := namedAxis?_natCast hnamed
      refine .concat hlt (fun z hz => hshapes _ (List.mem_map_of_mem hz)) ?_
      rw [hlengths, List.map_cons, List.map_cons, List.map_map]
      rfl

theorem agreesFrom_concat {values : List Value} {axis : Nat}
    (h : (Edit.concat name values axis).apply g = (.ok w, g'))
    (hvalues : ∀ v ∈ values, ∀ l, g.layout? v = some l → l.shape.Agrees (X v).lengths)
    (hwords : (concat values axis).CountsWords g X)
    (hruns : g'.RunsFrom X g.slots.length) : g'.AgreesFrom X g.slots.length := by
  have hgives := gives_concat h hruns
  obtain ⟨first, d, d', hfirst, hd, hdim, -, rfl, rfl⟩ := Edit.apply_concat_ok h
  refine (Graph.agreesFrom_length X g).push_one rfl ?_
  cases hgives with
  | @concat v rest _ _ hlt _ hlengths =>
    obtain ⟨hv, hrest⟩ := List.forall_mem_cons.1 hvalues
    have hagrees := hv first hfirst
    rw [hlengths]
    refine hagrees.setDim _ fun m hm => ?_
    -- A sum that is declared is one of declared lengths.
    obtain ⟨hdknown, hknown⟩ := known_of_concatDim (hm ▸ hdim)
    have hsum := hwords (List.forall_mem_cons.2 ⟨fun l hl hunknown => ?_, hknown⟩)
    · have hn : (X v).lengths.getD axis 0 = (X v).lengths[axis] := by
        rw [List.getD_eq_getElem?_getD, List.getElem?_eq_getElem hlt, Option.getD_some]
      rw [List.map_cons, List.sum_cons] at hsum ⊢
      refine agrees_concatDim hdim hrest ?_ hsum m hm
      rw [hn]
      exact hagrees.dim hd (List.getElem?_eq_getElem hlt)
    · obtain rfl := Option.some.inj (hfirst.symm.trans hl)
      exact hdknown (Option.some.inj (hd.symm.trans hunknown))

theorem gives_split {axis parts : Nat} (h : (Edit.split name v axis parts).apply g = (.ok ws, g'))
    (hruns : g'.RunsFrom X g.slots.length) : (split v axis parts).Gives X (ws.map X) := by
  obtain ⟨l, layout, -, -, -, rfl, rfl⟩ := Edit.apply_split_ok h
  obtain ⟨hnode, -⟩ := hruns.of_push (Nat.le_refl _)
  let a := (Attributes.empty.insert "axis" (.int axis)).insert "num_splits" (.int parts)
  have haxis : a.get? "axis" = some (.int (axis : Int)) := by
    simp [a, Attributes.get?_insert]
  have hparts : a.get? "num_splits" = some (.int (parts : Int)) := by
    simp [a, Attributes.get?_insert]
  have hvalues : ((Edit.splitSpec name v axis parts layout : NodeSpec β).build
      g.slots.length).values = (List.range parts).map fun i => ⟨g.slots.length, i⟩ := by
    simp [Node.values, Node.output, NodeSpec.build, Edit.splitSpec]
  have hnode : Op.RunsTo a .split [X v]
      (((List.range parts).map fun i => (⟨g.slots.length, i⟩ : Value)).map X) := hvalues ▸ hnode
  generalize ((List.range parts).map fun i => (⟨g.slots.length, i⟩ : Value)).map X = ys at hnode ⊢
  cases hnode with
  | split hattr hcount hnamed hpos hlength hys hlengths =>
    obtain rfl := Attribute.int.inj (Option.some.inj (haxis.symm.trans hattr))
    obtain rfl := Int.ofNat.inj (Attribute.int.inj (Option.some.inj (hparts.symm.trans hcount)))
    obtain ⟨rfl, -⟩ := namedAxis?_natCast hnamed
    exact .split hpos hlength hys hlengths

theorem agreesFrom_split {axis parts : Nat} (h : (Edit.split name v axis parts).apply g = (.ok ws, g'))
    (hv : ∀ l, g.layout? v = some l → l.shape.Agrees (X v).lengths)
    (hruns : g'.RunsFrom X g.slots.length) : g'.AgreesFrom X g.slots.length := by
  have hgives := gives_split h hruns
  obtain ⟨l, layout, hl, hlayout, -, rfl, rfl⟩ := Edit.apply_split_ok h
  refine (Graph.agreesFrom_length X g).push fun i l' hl' => ?_
  obtain ⟨hi, rfl⟩ : i < parts ∧ layout = l' := by
    simpa [Edit.splitSpec, List.getElem?_replicate] using hl'
  have hmem : X ⟨g.slots.length, i⟩ ∈
      ((List.range parts).map fun i => (⟨g.slots.length, i⟩ : Value)).map X :=
    List.mem_map_of_mem (List.mem_map.2 ⟨i, List.mem_range.2 hi, rfl⟩)
  generalize ((List.range parts).map fun i => (⟨g.slots.length, i⟩ : Value)).map X = ys
    at hmem hgives
  cases hgives with
  | split hpos hlength _ hlengths =>
    rw [hlengths _ hmem]
    exact Layout.agrees_part (hv l hl) hlayout hpos hlength

/-! ### Lengths of sequences -/

/-- One entry of a list of lengths, and what is declared for it. -/
theorem agreesFrom_entry {suffix : String} {p start : Nat}
    (h : (Edit.entry name suffix v p).apply g = (.ok w, g')) (hruns : g'.RunsFrom X start)
    (hstart : start ≤ g.slots.length) :
    g.RunsFrom X start ∧ (g.AgreesFrom X start → g'.AgreesFrom X start) ∧
      ∀ entries, (X v).ints? = some entries → ∃ n, entries[p]? = some n ∧ (X w).ints? = some [n] := by
  obtain ⟨rfl, rfl⟩ := Edit.apply_entry_ok h
  have hlen := Graph.length_slots_push g
    (Graph.constantSpec (name ++ "/" ++ suffix ++ "_index") (.vector [(p : Int)]))
  obtain ⟨hnode, hruns⟩ := hruns.of_push (by omega)
  obtain ⟨hlist, hruns⟩ := hruns.of_push hstart
  have hpositions := Graph.eq_of_runs_constant hlist
  have hnode : Op.RunsTo (Attributes.empty.insert "axis" (.int 0)) .gather
      [X v, X ⟨g.slots.length, 0⟩] [X ⟨g.slots.length + 1, 0⟩] := hlen ▸ hnode
  rw [hpositions] at hnode
  refine ⟨hruns, fun hg => ?_, fun entries hentries => ?_⟩
  · refine (hg.push_constant _ _ hlist).push_one rfl ?_
    rw [hlen]
    cases hnode with
    | gather _ _ _ _ _ hlengths _ =>
      rw [hlengths]
      exact Shape.agrees_ofLengths [1]
  · cases hnode with
    | gather _ _ hints hindices hresults _ hy =>
      obtain rfl := Option.some.inj (hentries.symm.trans hints)
      have hindices : [(p : Int)] = _ := Option.some.inj hindices
      subst hindices
      obtain ⟨n, rest, ⟨-, hn⟩, hrest, rfl⟩ := List.forall₂_cons_left_iff.1 hresults
      obtain rfl := List.forall₂_nil_left_iff.1 hrest
      exact ⟨n, hn, hy⟩

/-- What is built for the lengths of sequences, and what is declared for it. -/
theorem gives_sequenceLengths (h : (Edit.sequenceLengths name v).apply g = (.ok w, g'))
    (hv : ∀ l, g.layout? v = some l → l.shape.Agrees (X v).lengths)
    (hruns : g'.RunsFrom X g.slots.length) :
    (sequenceLengths v).Gives X [X w] ∧ g'.AgreesFrom X g.slots.length := by
  obtain ⟨l, hl, ⟨batch, time, hbatch, htime, rfl, rfl⟩ |
    ⟨batch, g₁, g₂, time, count, hbatch, -, htime, hcount, rfl, rfl⟩⟩ :=
      Edit.apply_sequenceLengths_ok h
  · have hconstant := (hruns.of_push (Nat.le_refl _)).1
    refine ⟨?_, (Graph.agreesFrom_length X g).push_constant _ _ hconstant⟩
    obtain ⟨b, hb, hbatch⟩ := exists_of_forall₂_left (hv l hl) hbatch
    obtain ⟨t, ht, htime⟩ := exists_of_forall₂_left (hv l hl) htime
    obtain rfl := Dim.agrees_known.1 hbatch
    obtain rfl := Dim.agrees_known.1 htime
    rw [Graph.eq_of_runs_constant hconstant]
    refine .sequenceLengths hb ht ?_ fun hlt => ?_
    · exact congrArg (fun n => [n]) List.length_replicate
    · rw [Word.signed_of_lt hlt]
      rfl
  · have hlen := Graph.length_slots_push g (Edit.shapeSpec name v l.shape.rank)
    have hlen₁ := Edit.length_of_entry htime
    have hlen₂ := Edit.length_of_entry hcount
    have hagrees := hv l hl
    -- The operations, from the last one back to the first.
    obtain ⟨hrepeat, hruns⟩ := hruns.of_push (by omega)
    obtain ⟨hruns, hcountAgrees, hcountEntry⟩ := agreesFrom_entry hcount hruns (by omega)
    obtain ⟨hruns, htimeAgrees, htimeEntry⟩ := agreesFrom_entry htime hruns (by omega)
    obtain ⟨hshape, -⟩ := hruns.of_push (Nat.le_refl _)
    have hshape : Op.RunsTo .empty .shapeOf [X v] [X ⟨g.slots.length, 0⟩] := hshape
    have hrepeat : Op.RunsTo .empty .broadcast [X time, X count] [X ⟨g₂.slots.length, 0⟩] := hrepeat
    cases hshape with
    | shapeOf hrank hentries =>
      obtain ⟨n, hn, hcountInts⟩ := hcountEntry _ hentries
      obtain ⟨m, hm, htimeInts⟩ := htimeEntry _ hentries
      rw [List.getElem?_map, Option.map_eq_some_iff] at hn hm
      obtain ⟨b, hb, rfl⟩ := hn
      obtain ⟨t, ht, rfl⟩ := hm
      cases hrepeat with
      | broadcast hlengths _ hentries =>
        rw [hcountInts, Option.some.injEq] at hlengths
        have hone : [b] = (X ⟨g₂.slots.length, 0⟩).lengths :=
          List.map_injective_iff.2 (fun _ _ => Int.ofNat.inj) hlengths
        have hwords : (X ⟨g₂.slots.length, 0⟩).ints? = some (List.replicate b (t : Int)) := by
          rw [hentries _ htimeInts, ← hone, numel_cons, numel_nil, Nat.mul_one]
          rfl
        refine ⟨.sequenceLengths hb ht hone.symm fun _ => hwords, ?_⟩
        refine (hcountAgrees (htimeAgrees ?_)).push_one rfl ?_
        · refine (Graph.agreesFrom_length X g).push_one rfl ?_
          rw [hrank, hagrees.length_eq]
          exact Shape.agrees_ofLengths [l.shape.rank]
        · rw [← hone]
          exact .cons (hagrees.dim hbatch hb) .nil

/-! ### All calls -/

theorem apply_return_one {e : Edit β Value}
    (h : (do return [← e] : Edit β (List Value)).apply g = (.ok ws, g')) :
    ∃ w, e.apply g = (.ok w, g') ∧ ws = [w] := by
  obtain ⟨w, _, he, hw⟩ := Edit.apply_bind_ok_iff.1 h
  obtain ⟨hws, rfl⟩ := Prod.mk.inj hw
  exact ⟨w, he, (Except.ok.inj hws).symm⟩

/-- The values that a call returns are outputs of new nodes. -/
theorem new_of_run {c : ShapeCall} (h : (c.run name).apply g = (.ok ws, g')) :
    ∀ w ∈ ws, g.slots.length ≤ w.node ∧ g'.hasValue w = true := by
  have hone {e : Edit β Value}
      (hbuilt : ∀ {w}, e.apply g = (.ok w, g') → Edit.Built (fun _ => True) g g' w)
      (h : (do return [← e] : Edit β (List Value)).apply g = (.ok ws, g')) :
      ∀ w ∈ ws, g.slots.length ≤ w.node ∧ g'.hasValue w = true := by
    obtain ⟨w, he, rfl⟩ := apply_return_one h
    exact List.forall_mem_singleton.2 ⟨(hbuilt he).new, (hbuilt he).hasValue⟩
  cases c with
  | unsqueeze v axis => exact hone (.unsqueeze · trivial fun _ _ => trivial) h
  | squeeze v axis => exact hone (.squeeze · trivial fun _ _ => trivial) h
  | transpose v order => exact hone (.transpose · trivial fun _ _ => trivial) h
  | reshape v target => exact hone (.reshape · trivial fun _ _ => trivial) h
  | concat values axis => exact hone (.concat · fun _ _ => trivial) h
  | sequenceLengths v => exact hone (.sequenceLengths · trivial fun _ _ => trivial) h
  | split v axis parts =>
    obtain ⟨l, layout, -, -, -, rfl, rfl⟩ := Edit.apply_split_ok h
    intro w hw
    obtain ⟨i, hi, rfl⟩ := List.mem_map.1 hw
    refine ⟨Nat.le_refl _, Graph.hasValue_push_new ?_⟩
    exact Nat.lt_of_lt_of_eq (List.mem_range.1 hi) List.length_replicate.symm

/-- The new nodes do to the operands what the call asks for. -/
theorem gives_run {c : ShapeCall} (h : (c.run name).apply g = (.ok ws, g'))
    (hoperands : ∀ v ∈ c.operands, ∀ l, g.layout? v = some l → l.shape.Agrees (X v).lengths)
    (hruns : g'.RunsFrom X g.slots.length) : c.Gives X (ws.map X) := by
  cases c with
  | split v axis parts => exact gives_split h hruns
  | unsqueeze v axis =>
    obtain ⟨w, he, rfl⟩ := apply_return_one h
    exact gives_unsqueeze he hruns
  | squeeze v axis =>
    obtain ⟨w, he, rfl⟩ := apply_return_one h
    exact gives_squeeze he hruns
  | transpose v order =>
    obtain ⟨w, he, rfl⟩ := apply_return_one h
    exact gives_transpose he hruns
  | reshape v target =>
    obtain ⟨w, he, rfl⟩ := apply_return_one h
    exact gives_reshape he hruns
  | concat values axis =>
    obtain ⟨w, he, rfl⟩ := apply_return_one h
    exact gives_concat he hruns
  | sequenceLengths v =>
    obtain ⟨w, he, rfl⟩ := apply_return_one h
    exact (gives_sequenceLengths he (hoperands v (.head _)) hruns).1

theorem agreesFrom_run {c : ShapeCall} (h : (c.run name).apply g = (.ok ws, g'))
    (hoperands : ∀ v ∈ c.operands, ∀ l, g.layout? v = some l → l.shape.Agrees (X v).lengths)
    (hwords : c.CountsWords g X) (hruns : g'.RunsFrom X g.slots.length) :
    g'.AgreesFrom X g.slots.length := by
  cases c with
  | split v axis parts => exact agreesFrom_split h (hoperands v (.head _)) hruns
  | unsqueeze v axis =>
    obtain ⟨w, he, -⟩ := apply_return_one h
    exact agreesFrom_unsqueeze he (hoperands v (.head _)) hruns
  | squeeze v axis =>
    obtain ⟨w, he, -⟩ := apply_return_one h
    exact agreesFrom_squeeze he (hoperands v (.head _)) hruns
  | transpose v order =>
    obtain ⟨w, he, -⟩ := apply_return_one h
    exact agreesFrom_transpose he (hoperands v (.head _)) hruns
  | reshape v target =>
    obtain ⟨w, he, -⟩ := apply_return_one h
    exact agreesFrom_reshape he (hoperands v (.head _)) hwords hruns
  | concat values axis =>
    obtain ⟨w, he, -⟩ := apply_return_one h
    exact agreesFrom_concat he hoperands hwords hruns
  | sequenceLengths v =>
    obtain ⟨w, he, -⟩ := apply_return_one h
    exact (gives_sequenceLengths he (hoperands v (.head _)) hruns).2

/-- **Declared layouts are right.**  Let a call of a builder succeed, let the extents of its
operands be any that their declared layouts agree with, let the operations of the new nodes be
defined and have the extents of the new values as results, and let the number that the builder
computes from declared lengths be a word.  Then the returned values have the extents that the call
asks for.  The layout that is declared for a returned value has the rank of its tensor and says
nothing false about any of its lengths, and so do the declared layouts of all other new values. -/
theorem agrees_run {c : ShapeCall} (h : (c.run name).apply g = (.ok ws, g'))
    (hoperands : ∀ v ∈ c.operands, ∀ l, g.layout? v = some l → l.shape.Agrees (X v).lengths)
    (hwords : c.CountsWords g X) (hruns : g'.RunsFrom X g.slots.length) :
    c.Gives X (ws.map X) ∧
      (∀ w ∈ ws, ∃ l, g'.layout? w = some l ∧ l.shape.Agrees (X w).lengths) ∧
        g'.AgreesFrom X g.slots.length := by
  have hall := agreesFrom_run h hoperands hwords hruns
  refine ⟨gives_run h hoperands hruns, fun w hw => ?_, hall⟩
  obtain ⟨hnew, hvalue⟩ := new_of_run h w hw
  obtain ⟨n, hn, hindex⟩ := Graph.hasValue_iff.1 hvalue
  have hl : g'.layout? w = some n.outputs[w.index] := by
    rw [Graph.layout?, Graph.producer?, Graph.node?_of_live? hn]
    exact List.getElem?_eq_getElem hindex
  exact ⟨_, hl, hall w _ hnew hl⟩

/-- Two matrices of the same height, which one of them leaves open. -/
def openHeight : Graph Unit :=
  .ofSpecs
    [{ op := .parameter, outputs := [.planar ⟨[.unknown, .known 3]⟩ .f32] },
      { op := .parameter, outputs := [.planar ⟨[.known 2, .known 4]⟩ .f32] }] []

/-- The matrices have two rows when the graph runs, and so has what is made of them. -/
def twoRows (v : Value) : Extent :=
  { lengths := [2, [3, 4, 7].getD v.node 0] }

/-- The matrices laid side by side have three and four columns, and as many rows as the first one. -/
theorem agrees_run_openHeight :
    let c := concat [⟨0, 0⟩, ⟨1, 0⟩] 1
    let run := (c.run "wide").apply openHeight
    run.1 = .ok [⟨2, 0⟩] ∧
      (∀ v ∈ c.operands, ∀ l, openHeight.layout? v = some l → l.shape.Agrees (twoRows v).lengths) ∧
        c.CountsWords openHeight twoRows ∧ run.2.RunsFrom twoRows 2 ∧
          c.Gives twoRows [twoRows ⟨2, 0⟩] ∧
            run.2.layout? ⟨2, 0⟩ = some (.planar ⟨[.unknown, .known 7]⟩ .f32) ∧
              ∃ l, run.2.layout? ⟨2, 0⟩ = some l ∧ l.shape.Agrees [2, 7] := by
  intro c run
  have hrun : run.1 = .ok [⟨2, 0⟩] := by decide +kernel
  have hoperands : ∀ v ∈ c.operands, ∀ l, openHeight.layout? v = some l →
      l.shape.Agrees (twoRows v).lengths := by
    refine List.forall_mem_cons.2 ⟨?_, List.forall_mem_singleton.2 ?_⟩
    · intro l hl
      obtain rfl := Option.some.inj hl
      exact .cons (Dim.agrees_unknown 2) (.cons (Dim.agrees_known.2 rfl) .nil)
    · intro l hl
      obtain rfl := Option.some.inj hl
      exact .cons (Dim.agrees_known.2 rfl) (.cons (Dim.agrees_known.2 rfl) .nil)
  have hwords : c.CountsWords openHeight twoRows := fun _ => by decide
  have hruns : run.2.RunsFrom twoRows 2 := by
    intro id n hid hn
    have hlt : id < 3 := Graph.lt_length_of_live? hn
    obtain rfl : id = 2 := by omega
    obtain rfl := Option.some.inj hn
    have haxis : namedAxis? 1 2 = some 1 := by decide
    refine .concat rfl haxis ?_ rfl
    refine List.forall_mem_singleton.2 ⟨rfl, fun j hj => ?_⟩
    cases j with
    | zero => rfl
    | succ j => cases j <;> first | exact absurd rfl hj | rfl
  have hcall : (c.run "wide").apply openHeight = (.ok [⟨2, 0⟩], run.2) := Prod.ext hrun rfl
  obtain ⟨hgives, hdeclared, -⟩ := agrees_run hcall hoperands hwords hruns
  exact ⟨hrun, hoperands, hwords, hruns, hgives, by decide +kernel, hdeclared ⟨2, 0⟩ (.head _)⟩

/-- A value with `2 ^ 64` elements. -/
def manyElements : Graph Unit :=
  .ofSpecs [{ op := .parameter,
              outputs := [.planar (.ofLengths [0x1_0000_0000, 0x8000_0000, 2, 1]) .f32] }] []

/-- The lengths of the value, of the list of a reshape target, and of the value without its last
axis. -/
def withoutLastAxis (v : Value) : Extent :=
  match v.node with
  | 0 => { lengths := [0x1_0000_0000, 0x8000_0000, 2, 1] }
  | 1 => { lengths := [3], ints? := some [0, 0, -1] }
  | _ => { lengths := [0x1_0000_0000, 0x8000_0000, 2] }

/-- The number of elements of a value is multiplied to the word zero, so that the length to infer is
declared to be zero.  It is two. -/
theorem exists_not_agrees_run :
    let c := reshape ⟨0, 0⟩ [0, 0, -1]
    let run := (c.run "flat").apply manyElements
    run.1 = .ok [⟨2, 0⟩] ∧
      (∀ v ∈ c.operands, ∀ l, manyElements.layout? v = some l →
        l.shape.Agrees (withoutLastAxis v).lengths) ∧
        run.2.RunsFrom withoutLastAxis 1 ∧
          ∃ l, run.2.layout? ⟨2, 0⟩ = some l ∧ l.shape.dim? 2 = some (.known 0) ∧
            ¬ l.shape.Agrees (withoutLastAxis ⟨2, 0⟩).lengths := by
  intro c run
  refine ⟨by decide +kernel, ?_, ?_, ?_⟩
  · refine List.forall_mem_singleton.2 fun l hl => ?_
    obtain rfl := Option.some.inj hl
    exact Shape.agrees_ofLengths _
  · intro id n hid hn
    have hlt : id < 3 := Graph.lt_length_of_live? hn
    obtain rfl | rfl : id = 1 ∨ id = 2 := by omega
    · obtain rfl := Option.some.inj hn
      exact .constant (Graph.value_constantSpec (β := Unit) "flat/shape" (.vector [0, 0, -1]))
    · obtain rfl := Option.some.inj hn
      refine .reshape rfl ⟨by decide, rfl, fun i n ht hn => ?_, fun i t n ht hzero hopen hn => ?_⟩
      · match i with
        | 0 | 1 => exact hn
        | 2 => simp at ht
        | i + 3 => simp at ht
      · match i with
        | 0 | 1 => exact absurd (Option.some.inj ht).symm hzero
        | 2 => exact absurd (Option.some.inj ht).symm hopen
        | i + 3 => simp at ht
  · refine ⟨.planar (.ofLengths [0x1_0000_0000, 0x8000_0000, 0]) .f32, by decide +kernel, rfl, ?_⟩
    intro hagrees
    have hlast := hagrees.dim (show Shape.dim? _ 2 = some (.known 0) from rfl) rfl
    exact absurd (Dim.agrees_known.1 hlast) (by decide)

end ShapeCall

end Dataflow
