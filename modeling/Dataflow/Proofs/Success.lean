import Dataflow.Proofs.Build
import Dataflow.Proofs.Graph.Redirect
import Dataflow.Tensor.Concat

/-!
# When builders succeed

A builder succeeds when its operands exist and their layouts meet its precondition.  It leaves a graph
in which all live nodes are still live, with the same outputs, so that what holds of operands before
one builder still holds of them before the next one.

## Main definitions

* `Graph.Declares` : a live node has a value as an output, with a layout.
* `Graph.HoldsConstant` : a value is a constant, and declared as one.
* `Graph.Retains` : a later graph, in which only inputs of live nodes may differ.
* `Edit.Yields` : an edit succeeds, with a result and a graph as described.
* `Edit.Made` : what a successful builder leaves behind.

## Main statements

* `Tensor.exists_concat_iff`, `Shape.exists_reshape_lastTwo_iff` : when two constants can be laid end to
  end, and when two axes can be taken together.
* `Edit.Yields.bind` : one edit after another.
* `Edit.yields_concat`, `Edit.yields_split` and their companions : when each builder succeeds.
-/

namespace Dataflow

/-! ### Preconditions -/

namespace Tensor

private theorem exists_assemble_iff {α : Type} {wrap : List α → Elements} {n : Nat} {rest : List Nat}
    {data data' : List α} (hwrap : ∀ l, (wrap l).length = l.length)
    (hdata : data.length = numel (n :: rest)) (hdata' : data'.length = numel (n :: rest)) :
    (∃ u, assemble wrap (n :: rest) 0 [n :: rest, n :: rest] [data, data'] = .ok u) ↔
      isAddressable ((n + n) :: rest) = true := by
  have hcheck : checkParts ((n :: rest).eraseIdx 0) 0 [n :: rest, n :: rest] = .ok () := by
    simp [checkParts, offAxis, bind, Except.bind]
  have hlengths : [n :: rest, n :: rest].mapM (lengthAt 0) = .ok [n, n] := rfl
  have hlen : (wrap (joinData (n :: rest) 0 [n :: rest, n :: rest] [data, data'])).length =
      numel ((n + n) :: rest) := by
    rw [hwrap, joinData, length_interleave _ _ (by simp [hdata, hdata'])]
    simp [Nat.add_mul]
  simp only [assemble, hcheck, hlengths, bind, Except.bind, List.set_cons_zero]
  by_cases hroom : isAddressable ((n + n) :: rest) = true
  · simp [hroom, ofElements, hlen, wordCount_of_isAddressable hroom]
  · simp [hroom, throw, throwThe, MonadExceptOf.throw]

/-- Tensors of the same shape and element type can be laid end to end along their first axis when there
is room for the positions of the elements of the result. -/
theorem exists_concat_iff {s t : Tensor} {n : Nat} {rest : List Nat} (hs : s.shape = n :: rest)
    (ht : t.shape = n :: rest) (htype : s.elementType = t.elementType) :
    (∃ u, concat [s, t] 0 = .ok u) ↔ isAddressable ((n + n) :: rest) = true := by
  obtain ⟨_, elements, hlen⟩ := s
  obtain ⟨_, elements', hlen'⟩ := t
  obtain rfl : _ = n :: rest := hs
  obtain rfl : _ = n :: rest := ht
  cases elements with
  | f32 data =>
    cases elements' with
    | f32 data' => exact exists_assemble_iff (fun _ => rfl) hlen hlen'
    | i64 data' => simp [elementType, Elements.elementType] at htype
  | i64 data =>
    cases elements' with
    | f32 data' => simp [elementType, Elements.elementType] at htype
    | i64 data' => exact exists_assemble_iff (fun _ => rfl) hlen hlen'
end Tensor

/-- The last two of four axes can be taken together, unless all lengths are known and the number of
elements does not divide by the other two lengths, or these leave nothing to divide by. -/
theorem Shape.exists_reshape_lastTwo_iff {b t p k : Dim} :
    (∃ s, (Shape.mk [b, t, p, k]).reshape [0, 0, -1] = .ok s) ↔
      ∀ b' t' p' k', [b, t, p, k] = [.known b', .known t', .known p', .known k'] →
        wordCount [b', t'] ≠ 0 ∧ wordCount [b', t', p', k'] % wordCount [b', t'] = 0 := by
  have hdims : reshapeDims ⟨[b, t, p, k]⟩ [0, 0, -1] 0 false [0, 0, -1] =
      .ok ([b, t, .unknown], some 2) := rfl
  simp only [reshape, hdims, bind, Except.bind]
  by_cases hknown : ∃ b' t' p' k', [b, t, p, k] = [.known b', .known t', .known p', .known k']
  · obtain ⟨b', t', p', k', heq⟩ := hknown
    obtain ⟨rfl, rfl, rfl, rfl⟩ : b = .known b' ∧ t = .known t' ∧ p = .known p' ∧ k = .known k' := by
      simpa using heq
    have htotal : knownCount [.known b', .known t', .known p', .known k'] =
        some (wordCount [b', t', p', k']) := by
      simp [knownCount, Dim.length?]
    have hrest : knownCount ([.known b', .known t', .unknown].eraseIdx 2) =
        some (wordCount [b', t']) := by
      simp [knownCount, Dim.length?]
    have hright : (∀ b'' t'' p'' k'', [Dim.known b', .known t', .known p', .known k'] =
        [.known b'', .known t'', .known p'', .known k''] → wordCount [b'', t''] ≠ 0 ∧
          wordCount [b'', t'', p'', k''] % wordCount [b'', t''] = 0) ↔
        ¬ (wordCount [b', t'] = 0 ∨ wordCount [b', t', p', k'] % wordCount [b', t'] ≠ 0) := by
      rw [not_or, not_not]
      refine ⟨fun h => h b' t' p' k' rfl, fun h b'' t'' p'' k'' heq => ?_⟩
      obtain ⟨rfl, rfl, rfl, rfl⟩ : b' = b'' ∧ t' = t'' ∧ p' = p'' ∧ k' = k'' := by simpa using heq
      exact h
    rw [hright, htotal, hrest]
    dsimp only
    split
    · next hbad => exact iff_of_false (fun ⟨_, hs⟩ => by cases hs) (not_not.2 hbad)
    · next hgood => exact iff_of_true ⟨_, rfl⟩ hgood
  · refine iff_of_true ?_ fun b' t' p' k' heq => absurd ⟨b', t', p', k', heq⟩ hknown
    -- One of the two numbers of elements is not known.
    split
    · next total known htotal hrest =>
      refine absurd ?_ hknown
      cases b <;> cases t <;> cases p <;> cases k <;>
        simp [knownCount, Dim.length?] at htotal ⊢
    · exact ⟨_, rfl⟩

/-- An axis can be dropped if its length is one or unknown. -/
theorem Layout.exists_squeeze_iff {l : Layout} {axis : Nat} :
    (∃ l', l.squeeze axis = .ok l') ↔
      l.shape.dim? axis = some (.known 1) ∨ l.shape.dim? axis = some .unknown := by
  unfold Layout.squeeze
  split
  · next h => simp [h]
  · next h => simp [h]
  · next hone hunknown => simpa using ⟨hone, hunknown⟩

/-! ### Values and graphs -/

namespace Graph

variable {β : Type} {g h k : Graph β} {v w : Value} {l : Layout} {spec : NodeSpec β}

/-- A live node has the value as an output, with the given layout. -/
def Declares (g : Graph β) (v : Value) (l : Layout) : Prop :=
  ∃ n, g.live? v.node = some n ∧ n.outputs[v.index]? = some l

theorem Declares.hasValue (h : g.Declares v l) : g.hasValue v = true := by
  obtain ⟨n, hn, hl⟩ := h
  exact hasValue_iff.2 ⟨n, hn, (List.getElem?_eq_some_iff.1 hl).1⟩

theorem Declares.layout? (h : g.Declares v l) : g.layout? v = some l := by
  obtain ⟨n, hn, hl⟩ := h
  exact Option.bind_eq_some_iff.2 ⟨n, node?_of_live? hn, hl⟩

/-- An existing value has a declared layout. -/
theorem exists_declares (h : g.hasValue v = true) : ∃ l, g.Declares v l := by
  obtain ⟨n, hn, hlt⟩ := hasValue_iff.1 h
  exact ⟨n.outputs[v.index], n, hn, List.getElem?_eq_getElem hlt⟩

theorem declares_of_layout? (h : g.hasValue v = true) (hl : g.layout? v = some l) :
    g.Declares v l := by
  obtain ⟨l', hl'⟩ := exists_declares h
  obtain rfl := Option.some.inj (hl'.layout?.symm.trans hl)
  exact hl'

theorem declares_push_new {i : Nat} (hl : spec.outputs[i]? = some l) :
    (g.push spec).Declares ⟨g.slots.length, i⟩ l :=
  ⟨spec.build g.slots.length, by rw [live?_push, if_pos rfl], hl⟩

/-- The second one of two new nodes. -/
theorem declares_push_push {first : NodeSpec β} {i : Nat} (hl : spec.outputs[i]? = some l) :
    ((g.push first).push spec).Declares ⟨g.slots.length + 1, i⟩ l := by
  rw [← length_slots_push g first]
  exact declares_push_new hl

theorem declares_pushWithInts {op : Op} {name suffix : String} {ints : List Int} :
    (g.pushWithInts op name suffix v ints l).Declares ⟨g.slots.length + 1, 0⟩ l :=
  declares_push_push rfl

/-- The value is a constant with the given tensor, and declared as one. -/
structure HoldsConstant (g : Graph β) (v : Value) (t : Tensor) : Prop where
  constant?_eq : g.constant? v = some t
  declares : g.Declares v (.planar t.partialShape t.elementType)

theorem holdsConstant_addConstant (g : Graph β) (name : String) (t : Tensor) :
    (g.addConstant name t).2.HoldsConstant (g.addConstant name t).1 t where
  constant?_eq := by
    have hlive : (g.addConstant name t).2.live? g.slots.length =
        some ((constantSpec name t : NodeSpec β).build g.slots.length) := by
      rw [addConstant, live?_push, if_pos rfl]
    have hnode : (g.addConstant name t).2.producer? ⟨g.slots.length, 0⟩ =
        some ((constantSpec name t : NodeSpec β).build g.slots.length) := node?_of_live? hlive
    rw [constant?, if_pos (by rfl)]
    exact (congrArg (·.bind Node.constant?) hnode).trans (constant?_constantSpec name t _)
  declares := declares_push_new rfl

/-- The live nodes of the first graph are live in the second one, and only their inputs may differ. -/
structure Retains (g h : Graph β) : Prop where
  wellKept : h.WellKept
  live : ∀ ⦃id n⦄, g.live? id = some n → ∃ inputs, h.live? id = some { n with inputs }

namespace Retains

theorem refl (hk : g.WellKept) : g.Retains g :=
  ⟨hk, fun _ n hn => ⟨n.inputs, hn⟩⟩

theorem trans (hgh : g.Retains h) (hhk : h.Retains k) : g.Retains k := by
  refine ⟨hhk.wellKept, fun id n hn => ?_⟩
  obtain ⟨inputs, hn⟩ := hgh.live hn
  obtain ⟨inputs', hn⟩ := hhk.live hn
  exact ⟨inputs', hn⟩

theorem push (hgh : g.Retains h) (spec : NodeSpec β) : g.Retains (h.push spec) := by
  refine ⟨hgh.wellKept.push spec, fun id n hn => ?_⟩
  obtain ⟨inputs, hn⟩ := hgh.live hn
  exact ⟨inputs, by rw [live?_push, if_neg (Nat.ne_of_lt (lt_length_of_live? hn)), hn]⟩

theorem redirect (hgh : g.Retains h) (v w : Value) : g.Retains (h.redirect v w).2 := by
  refine ⟨hgh.wellKept.redirect v w, fun id n hn => ?_⟩
  obtain ⟨inputs, hn⟩ := hgh.live hn
  rw [live?_redirect hgh.wellKept.indexed.live, hn, Option.map_some]
  split
  · exact ⟨inputs, rfl⟩
  · exact ⟨inputs.map (Value.subst v w), rfl⟩

theorem of_grows {S : Value → Prop} (hk : g.WellKept) (hg : g.Grows S h) : g.Retains h := by
  induction hg with
  | refl => exact refl hk
  | push spec _ _ ih => exact ih.push spec

theorem declares (hgh : g.Retains h) (hv : g.Declares v l) : h.Declares v l := by
  obtain ⟨n, hn, hl⟩ := hv
  obtain ⟨inputs, hn⟩ := hgh.live hn
  exact ⟨_, hn, hl⟩

theorem hasValue (hgh : g.Retains h) (hv : g.hasValue v = true) : h.hasValue v = true := by
  obtain ⟨l, hl⟩ := exists_declares hv
  exact (hgh.declares hl).hasValue

theorem constant?_eq (hgh : g.Retains h) (hv : g.hasValue v = true) :
    h.constant? v = g.constant? v := by
  obtain ⟨n, hn, -⟩ := hasValue_iff.1 hv
  obtain ⟨inputs, hn'⟩ := hgh.live hn
  rw [constant?, constant?, producer?, producer?, node?_of_live? hn, node?_of_live? hn']
  rfl

end Retains

end Graph

/-! ### Builders -/

namespace Edit

open Dataflow.Graph (Retains)

variable {β α γ : Type} {g : Graph β} {R R' : α → Graph β → Prop} {T : γ → Graph β → Prop}

/-- The edit succeeds, and its result and the graph that it leaves satisfy `R`. -/
def Yields (e : Edit β α) (g : Graph β) (R : α → Graph β → Prop) : Prop :=
  ∃ a h, e.apply g = (.ok a, h) ∧ R a h

namespace Yields

theorem bind {e : Edit β α} {f : α → Edit β γ} (he : e.Yields g R)
    (hf : ∀ a h, R a h → (f a).Yields h T) : (e >>= f).Yields g T := by
  obtain ⟨a, h, happly, hR⟩ := he
  obtain ⟨c, k, hc, hT⟩ := hf a h hR
  exact ⟨c, k, apply_bind_ok_iff.2 ⟨a, h, happly, hc⟩, hT⟩

theorem mono {e : Edit β α} (he : e.Yields g R) (h : ∀ a h, R a h → R' a h) : e.Yields g R' := by
  obtain ⟨a, k, happly, hR⟩ := he
  exact ⟨a, k, happly, h a k hR⟩

theorem pure {a : α} (h : R a g) : (Pure.pure a : Edit β α).Yields g R :=
  ⟨a, g, rfl, h⟩

theorem get : (MonadState.get : Edit β (Graph β)).Yields g fun h k => g = h ∧ g = k :=
  ⟨g, g, rfl, rfl, rfl⟩

theorem always (f : Graph β → α × Graph β) :
    (Edit.always f).Yields g fun _ h => h = (f g).2 :=
  ⟨(f g).1, (f g).2, rfl, rfl⟩

theorem pureExcept {x : Except Error α} {a : α} (hx : x = .ok a) :
    (Edit.pureExcept x).Yields g fun b h => a = b ∧ g = h :=
  ⟨a, g, apply_pureExcept_ok_iff.2 ⟨hx, rfl⟩, rfl, rfl⟩

theorem layoutOf {v : Value} {l : Layout} (hv : g.layout? v = some l) :
    (Edit.layoutOf v).Yields g fun b h => l = b ∧ g = h :=
  ⟨l, g, apply_layoutOf_ok_iff.2 ⟨hv, rfl⟩, rfl, rfl⟩

theorem addNode {spec : NodeSpec β} (hin : ∀ v ∈ spec.inputs, g.hasValue v = true) :
    (Edit.addNode spec).Yields g fun id h => id = g.slots.length ∧ h = g.push spec :=
  ⟨_, _, apply_addNode_ok_iff.2 ⟨hin, rfl, rfl⟩, rfl, rfl⟩

theorem redirect (hk : g.WellKept) (v w : Value) :
    (Edit.redirect v w).Yields g fun _ h => g.Retains h :=
  (always _).mono fun _ _ h => h ▸ (Retains.refl hk).redirect v w

end Yields

/-- What a builder leaves behind: a graph with all nodes of `g`, and a value with the given layout. -/
structure Made (g : Graph β) (l : Layout) (w : Value) (h : Graph β) : Prop where
  retains : g.Retains h
  declares : h.Declares w l

variable {v w : Value} {l l' : Layout} {name : String} (hk : g.WellKept)
include hk

theorem yields_addConstant (data : Tensor) :
    (addConstant name data).Yields g (Made g (.planar (.ofLengths data.shape) data.elementType)) :=
  ⟨_, _, apply_addConstant name data g, (Retains.refl hk).push _, Graph.declares_push_new rfl⟩

theorem yields_withInts {op : Op} {suffix : String} {ints : List Int} (hv : g.hasValue v = true) :
    (withInts op name suffix v ints l).Yields g (Made g l) := by
  refine (yields_addConstant hk (.vector ints)).bind fun c h hc =>
    (Yields.addNode ?_).bind fun id k hid => .pure ?_
  · simpa using ⟨hc.retains.hasValue hv, hc.declares.hasValue⟩
  · obtain ⟨rfl, rfl⟩ := hid
    exact ⟨hc.retains.push _, Graph.declares_push_new rfl⟩

/-- A builder that computes the layout of its result from that of its operand. -/
theorem yields_reshaped {op : Op} {suffix : String} {ints : List Int}
    {f : Layout → Except Error Layout} (hv : g.Declares v l) (hl : f l = .ok l') :
    (do let layout ← pureExcept (f (← layoutOf v))
        withInts op name suffix v ints layout : Edit β Value).Yields g (Made g l') := by
  refine (Yields.layoutOf hv.layout?).bind fun _ _ hlayout => ?_
  obtain ⟨rfl, rfl⟩ := hlayout
  refine (Yields.pureExcept hl).bind fun _ _ hlayout => ?_
  obtain ⟨rfl, rfl⟩ := hlayout
  exact yields_withInts hk hv.hasValue

theorem yields_unsqueeze {axis : Nat} (hv : g.Declares v l) (hl : l.unsqueeze axis = .ok l') :
    (unsqueeze name v axis).Yields g (Made g l') :=
  yields_reshaped hk hv hl

omit hk in
/-- An axis past the end cannot be inserted, and nothing is added for it. -/
theorem apply_unsqueeze_of_lt {axis : Nat} (hv : g.layout? v = some l) (hlt : l.shape.rank < axis) :
    ∃ e, (unsqueeze name v axis).apply g = (.error e, g) := by
  refine ⟨.invalidAxis (Word.signed axis) l.shape.rank, ?_⟩
  have hl : l.unsqueeze axis = .error (.invalidAxis (Word.signed axis) l.shape.rank) :=
    if_neg (Nat.not_le.2 hlt)
  rw [unsqueeze, apply_bind_of_ok (apply_layoutOf_ok_iff.2 ⟨hv, rfl⟩), apply_bind, pureExcept,
    apply_ask, hl]

theorem yields_squeeze {axis : Nat} (hv : g.Declares v l) (hl : l.squeeze axis = .ok l') :
    (squeeze name v axis).Yields g (Made g l') :=
  yields_reshaped hk hv hl

theorem yields_transpose {order : List Nat} (hv : g.Declares v l) (hl : l.transpose order = .ok l') :
    (transpose name v order).Yields g (Made g l') :=
  yields_reshaped hk hv hl

theorem yields_reshape {target : List Int} (hv : g.Declares v l) (hl : l.reshape target = .ok l') :
    (reshape name v target).Yields g (Made g l') :=
  yields_reshaped hk hv hl

omit hk in
/-- Two values of the same rank and element type can be laid end to end along any axis, and the node
declares the sum of their lengths. -/
theorem apply_concat_pair {axis : Nat} {d : Dim} (hv : g.Declares v l) (hw : g.Declares w l')
    (hrank : l'.shape.rank = l.shape.rank) (htype : l'.elementType = l.elementType)
    (hd : l.shape.dim? axis = some d) :
    (concat name [v, w] axis).apply g = (.ok ⟨g.slots.length, 0⟩, g.push (concatSpec name [v, w] axis
      (.planar (l.shape.setDim axis (d.add ((l'.shape.dim? axis).getD .unknown))) l.elementType))) := by
  have hdim : l.concatDim axis d l' = .ok (d.add ((l'.shape.dim? axis).getD .unknown)) :=
    if_pos ⟨hrank, htype⟩
  have hsum : (concatDim l axis [w] d).apply g =
      (.ok (d.add ((l'.shape.dim? axis).getD .unknown)), g) := by
    rw [concatDim, apply_bind_of_ok (apply_layoutOf_ok_iff.2 ⟨hw.layout?, rfl⟩),
      apply_bind_of_ok (apply_pureExcept_ok_iff.2 ⟨hdim, rfl⟩)]
    rfl
  have hin : ∀ u ∈ [v, w], g.hasValue u = true := by
    simpa using ⟨hv.hasValue, hw.hasValue⟩
  rw [concat, apply_bind_of_ok (apply_layoutOf_ok_iff.2 ⟨hv.layout?, rfl⟩)]
  simp only [hd]
  rw [apply_bind_of_ok hsum, apply_bind_of_ok (apply_addNode_ok_iff.2 ⟨hin, rfl, rfl⟩)]
  rfl

theorem yields_concat {axis : Nat} (hv : g.Declares v l) (hw : g.Declares w l')
    (hrank : l'.shape.rank = l.shape.rank) (htype : l'.elementType = l.elementType)
    (haxis : axis < l.shape.rank) :
    (concat name [v, w] axis).Yields g fun u h => g.Retains h ∧ h.hasValue u = true := by
  obtain ⟨d, hd⟩ : ∃ d, l.shape.dim? axis = some d := ⟨_, List.getElem?_eq_getElem haxis⟩
  exact ⟨_, _, apply_concat_pair hv hw hrank htype hd, (Retains.refl hk).push _,
    (Graph.declares_push_new (l := .planar _ _) rfl).hasValue⟩

/-- A value can be cut into halves along an axis of known even length. -/
theorem yields_split {axis n : Nat} (hv : g.Declares v l)
    (hdim : l.shape.dim? axis = some (.known (2 * n))) :
    (split name v axis 2).Yields g fun ws h => g.Retains h ∧ ws.length = 2 := by
  have hpart : l.part axis 2 =
      .ok (.planar (l.shape.setDim axis (.known (2 * n / 2))) l.elementType) := by
    simp only [Layout.part, hdim]
    exact if_pos ⟨Nat.two_pos, Nat.mul_mod_right 2 n⟩
  refine (Yields.layoutOf hv.layout?).bind fun _ _ hlayout => ?_
  obtain ⟨rfl, rfl⟩ := hlayout
  refine (Yields.pureExcept hpart).bind fun _ _ h => ?_
  obtain ⟨rfl, rfl⟩ := h
  refine (Yields.pureExcept (if_pos (by decide))).bind fun _ _ h => ?_
  obtain ⟨rfl, rfl⟩ := h
  refine (Yields.addNode (by simpa using hv.hasValue)).bind fun id k hid => .pure ?_
  obtain ⟨rfl, rfl⟩ := hid
  exact ⟨(Retains.refl hk).push _, rfl⟩

theorem yields_entry {suffix : String} {index : Int} (hv : g.hasValue v = true) :
    (entry name suffix v index).Yields g (Made g (.planar (.ofLengths [1]) .i64)) := by
  refine (yields_addConstant hk (.vector [index])).bind fun c h hc =>
    (Yields.addNode ?_).bind fun id k hid => .pure ?_
  · simpa using ⟨hc.retains.hasValue hv, hc.declares.hasValue⟩
  · obtain ⟨rfl, rfl⟩ := hid
    exact ⟨hc.retains.push _, Graph.declares_push_new rfl⟩

/-- The lengths of sequences can be listed unless there are too many of them. -/
theorem yields_sequenceLengths {batch time : Dim} (hv : g.Declares v l)
    (hbatch : l.shape.dim? 0 = some batch) (htime : l.shape.dim? 1 = some time)
    (hroom : ∀ b t, batch = .known b → time = .known t → b ≤ Word.maxInts) :
    (sequenceLengths name v).Yields g fun u h => g.Retains h ∧ h.hasValue u = true := by
  refine (Yields.layoutOf hv.layout?).bind fun _ _ hlayout => ?_
  obtain ⟨rfl, rfl⟩ := hlayout
  split
  · next b t hb ht =>
    have hle := hroom b t (Option.some.inj (hbatch.symm.trans hb))
      (Option.some.inj (htime.symm.trans ht))
    refine (Yields.pureExcept (if_pos hle)).bind fun _ _ h => ?_
    obtain ⟨rfl, rfl⟩ := h
    exact (yields_addConstant hk _).mono fun _ _ h => ⟨h.retains, h.declares.hasValue⟩
  · refine (Yields.addNode (by simpa using hv.hasValue)).bind fun shape h hshape => ?_
    obtain ⟨rfl, rfl⟩ := hshape
    have hretains := (Retains.refl hk).push (shapeSpec name v l.shape.rank)
    have hread : (g.push (shapeSpec name v l.shape.rank)).hasValue ⟨g.slots.length, 0⟩ = true :=
      Graph.hasValue_push_new Nat.one_pos
    refine (yields_entry hretains.wellKept hread).bind fun time h₁ htime =>
      (yields_entry htime.retains.wellKept (htime.retains.hasValue hread)).bind
        fun count h₂ hcount => (Yields.addNode ?_).bind fun id k hid => .pure ?_
    · simpa using ⟨hcount.retains.hasValue htime.declares.hasValue, hcount.declares.hasValue⟩
    · obtain ⟨rfl, rfl⟩ := hid
      exact ⟨((hretains.trans htime.retains).trans hcount.retains).push _,
        Graph.hasValue_push_new Nat.one_pos⟩
  · next hnone => exact absurd htime (hnone _ _ hbatch)

omit hk in
/-- A list of lengths that has been made was not too long. -/
theorem le_of_sequenceLengths {u : Value} {h : Graph β} {b t : Nat}
    (happly : (sequenceLengths name v).apply g = (.ok u, h)) (hv : g.layout? v = some l)
    (hbatch : l.shape.dim? 0 = some (.known b)) (htime : l.shape.dim? 1 = some (.known t)) :
    b ≤ Word.maxInts := by
  obtain ⟨_, _, hask, happly⟩ := apply_bind_ok_iff.1 happly
  obtain ⟨hl, rfl⟩ := apply_layoutOf_ok_iff.1 hask
  obtain rfl := Option.some.inj (hv.symm.trans hl)
  simp only [hbatch, htime] at happly
  obtain ⟨_, _, hcopies, -⟩ := apply_bind_ok_iff.1 happly
  obtain ⟨hcopies, -⟩ := apply_pureExcept_ok_iff.1 hcopies
  by_contra hle
  simp [hle] at hcopies

end Edit

end Dataflow
