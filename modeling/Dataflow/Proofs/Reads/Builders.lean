import Dataflow.Proofs.Build
import Dataflow.Proofs.Reads.Direct

/-!
# Builders with direct reads

Two builders read and write lists of dimensions directly: laying values end to end adds up dimensions
on an axis, and reshaping puts the inferred dimension in its place.  Both have made sure before that
the dimensions exist.  So no builder reads past the end of a list.

## Main definitions

* `Edit.concatDirect`, `Edit.reshapeDirect` : these builders.
* `Edit.InRange` : an edit that does not read past the end of a list.

## Main statements

* `Edit.concatDirect_eq`, `Edit.reshapeDirect_eq` : they do the same.
* `Edit.InRange.bind` : one edit after another.
* `Edit.inRange_concat` and its companions : the builders.
-/

namespace Dataflow

/-! ### Shapes -/

section Except

variable {ε α γ : Type} {x : Except ε α} {e : ε}

theorem bind_ne_error {f : α → Except ε γ} (hx : x ≠ .error e) (hf : ∀ a, f a ≠ .error e) :
    x >>= f ≠ .error e := by
  cases x with
  | error e' => simpa [bind, Except.bind] using hx
  | ok a => exact hf a

theorem mapM_ne_error {f : α → Except ε γ} {l : List α} (hf : ∀ a ∈ l, f a ≠ .error e) :
    l.mapM f ≠ .error e := by
  induction l with
  | nil => simp [pure, Except.pure]
  | cons a l ih =>
    obtain ⟨ha, hl⟩ := List.forall_mem_cons.1 hf
    rw [List.mapM_cons]
    exact bind_ne_error ha fun _ => bind_ne_error (ih hl) fun _ => by simp [pure, Except.pure]

end Except

namespace Shape

theorem permuted_ne_outOfRange (s : Shape) (order : List Nat) :
    s.permuted order ≠ .error .outOfRange := by
  unfold permuted
  split
  · refine bind_ne_error (mapM_ne_error fun i _ => ?_) fun _ => by simp [pure, Except.pure]
    split <;> simp
  · simp

theorem reshapeDims_ne_outOfRange (input : Shape) (target rest : List Int) (i : Nat)
    (inferred : Bool) : reshapeDims input target i inferred rest ≠ .error .outOfRange := by
  induction rest generalizing i inferred with
  | nil => simp [reshapeDims]
  | cons t rest ih =>
    have hrest {p : List Dim × Option Nat → Except Error (List Dim × Option Nat)}
        (hp : ∀ q, p q ≠ .error .outOfRange) (inferred : Bool) :
        reshapeDims input target (i + 1) inferred rest >>= p ≠ .error .outOfRange :=
      bind_ne_error (ih (i + 1) inferred) hp
    unfold reshapeDims
    split
    · split
      · simp [throw, throwThe, MonadExceptOf.throw]
      · exact hrest (fun _ => by simp [pure, Except.pure]) _
    · split
      · exact hrest (fun _ => by simp [pure, Except.pure]) _
      · split
        · exact hrest (fun _ => by simp [pure, Except.pure]) _
        · simp [throw, throwThe, MonadExceptOf.throw]

theorem reshape_ne_outOfRange (s : Shape) (target : List Int) :
    s.reshape target ≠ .error .outOfRange := by
  refine bind_ne_error (reshapeDims_ne_outOfRange s target target 0 false) fun ⟨dims, at?⟩ => ?_
  dsimp only
  split
  · simp [pure, Except.pure]
  · split
    · split
      · simp [throw, throwThe, MonadExceptOf.throw]
      · simp [pure, Except.pure]
    · simp [pure, Except.pure]

/-- The shape after reshaping to `target`, the inferred dimension being written directly. -/
def reshapeDirect (input : Shape) (target : List Int) : Except Error Shape := do
  let (dims, at?) ← reshapeDims input target 0 false target
  match at? with
  | none => return ⟨dims⟩
  | some i =>
    match knownCount input.dims, knownCount (dims.eraseIdx i) with
    | some total, some known =>
      if known = 0 ∨ total % known ≠ 0 then throw (.shapeMismatch (.reshape input target))
      else return ⟨← writeAt dims i (.known (total / known))⟩
    | _, _ => return ⟨dims⟩

private theorem eq_ok_of_cons {α β : Type} {x : Except Error (List α × β)} {a : α} {dims : List α}
    {b : β} (h : (do let (dims, b) ← x; return (a :: dims, b)) = .ok (dims, b)) :
    ∃ rest, x = .ok (rest, b) ∧ dims = a :: rest := by
  cases x with
  | error e => simp [bind, Except.bind] at h
  | ok p =>
    obtain ⟨rfl, rfl⟩ := Prod.mk.inj (Except.ok.inj h)
    exact ⟨p.1, rfl, rfl⟩

/-- The entry to infer is an entry of the target. -/
theorem lt_of_reshapeDims {input : Shape} {target rest : List Int} {i j : Nat} {inferred : Bool}
    {dims : List Dim} (h : reshapeDims input target i inferred rest = .ok (dims, some j)) :
    i ≤ j ∧ j < i + dims.length := by
  induction rest generalizing i inferred dims with
  | nil => simp [reshapeDims] at h
  | cons t rest ih =>
    have hlater : ∀ {d : Dim} {dims' : List Dim},
        reshapeDims input target (i + 1) inferred rest = .ok (dims', some j) → dims = d :: dims' →
          i ≤ j ∧ j < i + dims.length := by
      rintro d dims' hrest rfl
      have := ih hrest
      rw [List.length_cons]
      omega
    unfold reshapeDims at h
    split at h
    · split at h
      · simp at h
      · obtain ⟨dims', hrest, hdims⟩ := eq_ok_of_cons h
        exact hlater hrest hdims
    · split at h
      · cases hrest : reshapeDims input target (i + 1) true rest with
        | error e => simp [hrest, bind, Except.bind] at h
        | ok p =>
          simp only [hrest, bind, Except.bind, pure, Except.pure, Except.ok.injEq, Prod.mk.injEq,
            Option.some.injEq] at h
          obtain ⟨rfl, rfl⟩ := h
          simp
      · split at h
        · obtain ⟨dims', hrest, hdims⟩ := eq_ok_of_cons h
          exact hlater hrest hdims
        · simp at h

theorem reshapeDirect_eq (input : Shape) (target : List Int) :
    input.reshapeDirect target = input.reshape target := by
  unfold reshapeDirect reshape
  cases h : reshapeDims input target 0 false target with
  | error e => rfl
  | ok p =>
    obtain ⟨dims, _ | i⟩ := p
    · rfl
    · have hlt : i < dims.length := by simpa using (lt_of_reshapeDims h).2
      cases knownCount input.dims <;> cases hknown : knownCount (dims.eraseIdx i) <;>
        simp only [bind, Except.bind, hknown, writeAt_of_lt hlt]

end Shape

namespace Edit

variable {β α γ : Type}

/-- Edits that do the same on all graphs are equal. -/
theorem ext {e e' : Edit β α} (h : ∀ g, e.apply g = e'.apply g) : e = e' :=
  funext h

/-! ### Laying values end to end -/

/-- The dimensions of the values laid end to end after the first one, which are added up on the
axis. -/
def concatDimsDirect (first : Layout) (axis : Nat) : List Value → List Dim → Edit β (List Dim)
  | [], dims => return dims
  | v :: rest, dims => do
    let l ← layoutOf v
    if l.shape.rank = first.shape.rank ∧ l.elementType = first.elementType then
      let d ← pureExcept (readAt dims axis)
      let e ← pureExcept (readAt l.shape.dims axis)
      concatDimsDirect first axis rest (← pureExcept (writeAt dims axis (d.add e)))
    else throw (.shapeMismatch (.concat first.shape l.shape))

/-- The values laid end to end along an axis. -/
def concatDirect (name : String) (values : List Value) (axis : Nat) : Edit β Value := do
  match values with
  | [] => throw (.internal .concatOfNoValues)
  | v :: rest =>
    let first ← layoutOf v
    if first.shape.rank ≤ axis then
      throw (.invalidAxis (Word.signed axis) first.shape.rank)
    else
      let dims ← concatDimsDirect first axis rest first.shape.dims
      let id ← addNode
        { op := .concat
          name := some name
          inputs := values
          outputs := [.planar ⟨dims⟩ first.elementType]
          attributes := Attributes.empty.insert "axis" (.int axis) }
      return ⟨id, 0⟩

theorem apply_concatDimsDirect {first : Layout} {axis : Nat} (haxis : axis < first.shape.rank)
    (values : List Value) (d : Dim) (g : Graph β) :
    (concatDimsDirect first axis values (first.shape.dims.set axis d)).apply g =
      (concatDim first axis values d >>= fun d => pure (first.shape.dims.set axis d)).apply g := by
  have hpure {α : Type} (a : α) : (pureExcept (.ok a) : Edit β α).apply g = (.ok a, g) := rfl
  induction values generalizing d with
  | nil => rfl
  | cons v rest ih =>
    unfold concatDimsDirect concatDim
    cases hl : g.layout? v with
    | none => simp [apply_bind, layoutOf, apply_ask, hl]
    | some l =>
      have hlayout : (layoutOf v).apply g = (.ok l, g) := apply_layoutOf_ok_iff.2 ⟨hl, rfl⟩
      rw [bind_assoc, apply_bind_of_ok hlayout, apply_bind_of_ok hlayout]
      unfold Layout.concatDim
      split
      · next h =>
        have hlt : axis < l.shape.dims.length := Nat.lt_of_lt_of_eq haxis h.1.symm
        have hread : readAt (first.shape.dims.set axis d) axis = .ok d :=
          readAt_of_getElem? (List.getElem?_set_self haxis)
        have hread' : readAt l.shape.dims axis = .ok l.shape.dims[axis] :=
          readAt_of_getElem? (List.getElem?_eq_getElem hlt)
        have hdim : l.shape.dim? axis = some l.shape.dims[axis] := List.getElem?_eq_getElem hlt
        have hwrite : writeAt (first.shape.dims.set axis d) axis (d.add l.shape.dims[axis]) =
            .ok (first.shape.dims.set axis (d.add l.shape.dims[axis])) := by
          rw [writeAt_of_lt (by rwa [List.length_set]), List.set_set]
        simp only [hread, hread', hdim, Option.getD_some, bind_assoc]
        rw [apply_bind_of_ok (hpure d), apply_bind_of_ok (hpure _), hwrite,
          apply_bind_of_ok (hpure _), apply_bind_of_ok (hpure _)]
        exact ih _
      · rfl

theorem concatDirect_eq (name : String) (values : List Value) (axis : Nat) :
    (concatDirect name values axis : Edit β Value) = concat name values axis := by
  cases values with
  | nil => rfl
  | cons v rest =>
    refine Edit.ext fun g => ?_
    unfold concatDirect concat
    cases hl : g.layout? v with
    | none => simp [apply_bind, layoutOf, apply_ask, hl]
    | some first =>
      have hlayout : (layoutOf v).apply g = (.ok first, g) := apply_layoutOf_ok_iff.2 ⟨hl, rfl⟩
      dsimp only
      rw [apply_bind_of_ok hlayout, apply_bind_of_ok hlayout]
      by_cases haxis : first.shape.rank ≤ axis
      · have hdim : first.shape.dim? axis = none := List.getElem?_eq_none haxis
        simp only [if_pos haxis, hdim]
      · have hlt : axis < first.shape.dims.length := Nat.lt_of_not_le haxis
        have hdim : first.shape.dim? axis = some first.shape.dims[axis] :=
          List.getElem?_eq_getElem hlt
        have hdims := apply_concatDimsDirect hlt rest first.shape.dims[axis] g
        rw [List.set_getElem_self] at hdims
        simp only [if_neg haxis, hdim]
        rw [apply_bind, hdims, ← apply_bind, bind_assoc]
        rfl

/-- The value reshaped to a target. -/
def reshapeDirect (name : String) (v : Value) (target : List Int) : Edit β Value := do
  let l ← layoutOf v
  let layout ← pureExcept do return .planar (← l.shape.reshapeDirect target) l.elementType
  withInts .reshape name "shape" v target layout

theorem reshapeDirect_eq (name : String) (v : Value) (target : List Int) :
    (reshapeDirect name v target : Edit β Value) = reshape name v target := by
  unfold reshapeDirect reshape Layout.reshape
  simp only [Shape.reshapeDirect_eq]

/-! ### Edits in range -/

/-- On this graph the edit does not read past the end of a list. -/
def InRange (e : Edit β α) (g : Graph β) : Prop :=
  (e.apply g).1 ≠ .error .outOfRange

section InRange

variable {g : Graph β} {e : Edit β α} {name : String} {v : Value}

theorem InRange.bind {f : α → Edit β γ} (he : e.InRange g)
    (hf : ∀ a k, e.apply g = (.ok a, k) → (f a).InRange k) : (e >>= f).InRange g := by
  unfold InRange at *
  rw [apply_bind]
  rcases h : e.apply g with ⟨error | a, k⟩
  · rw [h] at he
    simpa using he
  · exact hf a k h

theorem InRange.pure (a : α) : (Pure.pure a : Edit β α).InRange g := by
  simp [InRange]

theorem InRange.throw {error : Error} (h : error ≠ .outOfRange) :
    (MonadExcept.throw error : Edit β α).InRange g := by
  simpa [InRange] using h

theorem InRange.ite {c : Prop} [Decidable c] {e' : Edit β α} (he : c → e.InRange g)
    (he' : ¬ c → e'.InRange g) : (if c then e else e').InRange g := by
  split
  · next h => exact he h
  · next h => exact he' h

theorem InRange.get : (MonadState.get : Edit β (Graph β)).InRange g := by
  simp [InRange]

theorem InRange.always (f : Graph β → α × Graph β) : (Edit.always f).InRange g := by
  simp [InRange]

theorem InRange.ask {f : Graph β → Except Error α} (h : f g ≠ .error .outOfRange) :
    (Edit.ask f).InRange g := by
  rwa [InRange, apply_ask]

theorem InRange.pureExcept {x : Except Error α} (h : x ≠ .error .outOfRange) :
    (Edit.pureExcept x : Edit β α).InRange g :=
  .ask h

theorem InRange.layoutOf : (Edit.layoutOf v).InRange g :=
  .ask (by cases g.layout? v <;> simp)

theorem checkValues_ne_outOfRange (g : Graph β) (values : List Value) :
    g.checkValues values ≠ .error .outOfRange := by
  induction values with
  | nil => simp [Graph.checkValues]
  | cons v rest ih =>
    rw [Graph.checkValues]
    split
    · exact ih
    · simp

theorem InRange.addNode (spec : NodeSpec β) : (Edit.addNode spec).InRange g := by
  have h := checkValues_ne_outOfRange g spec.inputs
  rw [InRange, Edit.addNode, apply_attempt, Graph.addNode]
  cases hc : g.checkValues spec.inputs with
  | error e => simpa [hc, Bind.bind, Except.bind] using h
  | ok u => simp [Bind.bind, Except.bind, Pure.pure, Except.pure]

theorem InRange.withInts {op : Op} {suffix : String} {ints : List Int} {layout : Layout} :
    (Edit.withInts op name suffix v ints layout).InRange g :=
  (InRange.always _).bind fun _ _ _ => (InRange.addNode _).bind fun _ _ _ => .pure _

/-- A builder that computes the layout of its result from that of its operand. -/
theorem inRange_reshaped {op : Op} {suffix : String} {ints : List Int}
    {f : Layout → Except Error Layout} (hf : ∀ l, f l ≠ .error .outOfRange) :
    (do let layout ← Edit.pureExcept (f (← Edit.layoutOf v))
        Edit.withInts op name suffix v ints layout : Edit β Value).InRange g :=
  InRange.layoutOf.bind fun l _ _ => (InRange.pureExcept (hf l)).bind fun _ _ _ => .withInts

theorem inRange_unsqueeze {axis : Nat} : (unsqueeze name v axis).InRange g :=
  inRange_reshaped fun l => by unfold Layout.unsqueeze; split <;> simp

theorem inRange_squeeze {axis : Nat} : (squeeze name v axis).InRange g :=
  inRange_reshaped fun l => by unfold Layout.squeeze; split <;> simp

theorem inRange_transpose {order : List Nat} : (transpose name v order).InRange g := by
  refine inRange_reshaped fun l => ?_
  exact bind_ne_error (l.shape.permuted_ne_outOfRange order) fun _ => by simp [Pure.pure, Except.pure]

theorem inRange_reshape {target : List Int} : (reshape name v target).InRange g := by
  refine inRange_reshaped fun l => ?_
  exact bind_ne_error (l.shape.reshape_ne_outOfRange target) fun _ => by simp [Pure.pure, Except.pure]

theorem inRange_concatDim {first : Layout} {axis : Nat} (values : List Value) (d : Dim) :
    (concatDim first axis values d).InRange g := by
  induction values generalizing d g with
  | nil => exact .pure d
  | cons v rest ih =>
    refine InRange.layoutOf.bind fun l _ _ => (InRange.pureExcept ?_).bind fun d _ _ => ih d
    unfold Layout.concatDim
    split <;> simp

theorem inRange_concat {values : List Value} {axis : Nat} : (concat name values axis).InRange g := by
  unfold concat
  cases values with
  | nil => exact .throw (by simp)
  | cons v rest =>
    refine InRange.layoutOf.bind fun first _ _ => ?_
    split
    · exact .throw (by simp)
    · exact (inRange_concatDim rest _).bind fun _ _ _ => (InRange.addNode _).bind fun _ _ _ => .pure _

theorem inRange_copies {room n : Nat} {a : γ} : (copies room n a : Edit β (List γ)).InRange g :=
  .pureExcept (by split <;> simp)

theorem inRange_split {axis parts : Nat} : (split name v axis parts).InRange g := by
  refine InRange.layoutOf.bind fun l _ _ => (InRange.pureExcept ?_).bind fun _ _ _ =>
    inRange_copies.bind fun _ _ _ => (InRange.addNode _).bind fun _ _ _ => .pure _
  unfold Layout.part
  split
  · split <;> simp
  · simp
  · simp

theorem inRange_entry {suffix : String} {index : Int} : (entry name suffix v index).InRange g :=
  (InRange.always _).bind fun _ _ _ => (InRange.addNode _).bind fun _ _ _ => .pure _

theorem inRange_sequenceLengths : (sequenceLengths name v).InRange g := by
  refine InRange.layoutOf.bind fun l _ _ => ?_
  split
  · exact inRange_copies.bind fun _ _ _ => .always _
  · exact (InRange.addNode _).bind fun _ _ _ => inRange_entry.bind fun _ _ _ =>
      inRange_entry.bind fun _ _ _ => (InRange.addNode _).bind fun _ _ _ => .pure _
  · exact .throw (by simp)

end InRange

end Edit

end Dataflow
