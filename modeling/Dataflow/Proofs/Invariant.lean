import Dataflow.Proofs.Build
import Dataflow.Proofs.Graph.Changes

/-!
# Invariants of edits

An edit that fails leaves its first steps behind.  What is true of the graph at every step is
therefore also true after a failure, and it is proved step by step: each step keeps it, whether the
step succeeds or not.  The builders only push nodes, so they keep whatever survives new nodes.

## Main definitions

* `Edit.Keeps` : an edit keeps an invariant.
* `Edit.Extensible` : an invariant that survives new nodes.
* `Edit.Replaceable` : one that survives all steps of a replacement.

## Main statements

* `Edit.Keeps.bind` : one edit after another.
* `Edit.Extensible.concat` and its companions : the builders keep extensible invariants.
* `Edit.Replaceable.redirect` and its companions : so do the other steps, for replaceable ones.
* `Edit.replaceable_longer` : having more slots than a number is replaceable.
-/

namespace Dataflow

namespace Edit

variable {β α γ : Type} {Q : Graph β → Prop} {R R' : α → Prop} {T : γ → Prop}

/-- The edit keeps the invariant `Q`, also where it fails, and its results satisfy `R`. -/
def Keeps (Q : Graph β → Prop) (R : α → Prop) (e : Edit β α) : Prop :=
  ∀ g, Q g → Q (e.apply g).2 ∧ ∀ a, (e.apply g).1 = .ok a → R a

namespace Keeps

theorem bind {e : Edit β α} {f : α → Edit β γ} (he : Keeps Q R e) (hf : ∀ a, R a → Keeps Q T (f a)) :
    Keeps Q T (e >>= f) := by
  intro g hg
  obtain ⟨hkept, hresult⟩ := he g hg
  rw [apply_bind]
  rcases h : e.apply g with ⟨error | a, g'⟩ <;> rw [h] at hkept hresult
  · exact ⟨hkept, fun c hc => by simp at hc⟩
  · exact hf a (hresult a rfl) g' hkept

theorem pure {a : α} (h : R a) : Keeps Q R (Pure.pure a : Edit β α) :=
  fun _ hg => ⟨hg, fun _ hc => Except.ok.inj hc ▸ h⟩

theorem mono {e : Edit β α} (he : Keeps Q R e) (h : ∀ a, R a → R' a) : Keeps Q R' e :=
  fun g hg => (he g hg).imp_right fun hresult a ha => h a (hresult a ha)

theorem throw (error : Error) : Keeps Q R (MonadExcept.throw error : Edit β α) :=
  fun _ hg => ⟨hg, fun _ hc => by simp at hc⟩

theorem ite {c : Prop} [Decidable c] {e e' : Edit β α} (he : c → Keeps Q R e)
    (he' : ¬ c → Keeps Q R e') : Keeps Q R (if c then e else e') := by
  split
  · next h => exact he h
  · next h => exact he' h

theorem ask {f : Graph β → Except Error α} (h : ∀ g a, Q g → f g = .ok a → R a) :
    Keeps Q R (Edit.ask f) := by
  intro g hg
  rw [apply_ask]
  exact ⟨hg, fun a ha => h g a hg ha⟩

theorem get : Keeps Q Q (MonadState.get : Edit β (Graph β)) :=
  fun _ hg => ⟨hg, fun _ hc => Except.ok.inj hc ▸ hg⟩

theorem always {f : Graph β → α × Graph β} (h : ∀ g, Q g → Q (f g).2) :
    Keeps Q (fun _ => True) (Edit.always f) :=
  fun g hg => ⟨h g hg, fun _ _ => trivial⟩

theorem layoutOf (v : Value) : Keeps Q (fun _ => True) (Edit.layoutOf v) :=
  ask fun _ _ _ _ => trivial

theorem pureExcept (x : Except Error α) : Keeps Q (fun a => x = .ok a) (Edit.pureExcept x) :=
  ask fun _ _ _ h => h

end Keeps

/-- The invariant `Q` survives new nodes that have no body and read values with the property `S`.
Values of new nodes have the property `N`, which entails `S`. -/
structure Extensible (Q : Graph β → Prop) (N S : Value → Prop) : Prop where
  push : ∀ {g : Graph β} {spec : NodeSpec β}, Q g → spec.body = none →
    (∀ v ∈ spec.inputs, g.hasValue v = true ∧ S v) → Q (g.push spec)
  new : ∀ {g : Graph β} {v : Value}, Q g → g.slots.length ≤ v.node → N v
  weaken : ∀ {v : Value}, N v → S v

namespace Extensible

variable {N S : Value → Prop} (hQ : Extensible Q N S) {v : Value} {name : String}
include hQ

theorem addNode {spec : NodeSpec β} (hbody : spec.body = none) (hS : ∀ v ∈ spec.inputs, S v) :
    Keeps Q (fun id => ∀ i, N ⟨id, i⟩) (Edit.addNode spec) := by
  intro g hg
  rw [Edit.addNode, apply_attempt, Graph.addNode]
  cases hc : g.checkValues spec.inputs with
  | error e => exact ⟨hg, fun id hid => by simp [bind, Except.bind] at hid⟩
  | ok u =>
    refine ⟨hQ.push hg hbody fun v hv => ⟨checkValues_eq_ok.1 hc v hv, hS v hv⟩, fun id hid i => ?_⟩
    obtain rfl : g.slots.length = id := Except.ok.inj hid
    exact hQ.new hg (Nat.le_refl _)

theorem addConstant (data : Tensor) : Keeps Q N (Edit.addConstant name data) := by
  intro g hg
  refine ⟨hQ.push hg rfl (by simp [Graph.constantSpec]), fun w hw => ?_⟩
  obtain rfl : (⟨g.slots.length, 0⟩ : Value) = w := Except.ok.inj hw
  exact hQ.new hg (Nat.le_refl _)

theorem withInts {op : Op} {suffix : String} {ints : List Int} {layout : Layout} (hv : S v) :
    Keeps Q N (Edit.withInts op name suffix v ints layout) := by
  refine (hQ.addConstant _).bind fun operand hoperand => (hQ.addNode rfl ?_).bind fun id hid =>
    .pure (hid 0)
  simpa using ⟨hv, hQ.weaken hoperand⟩

/-- A builder that computes the layout of its result from that of its operand. -/
theorem reshaped {op : Op} {suffix : String} {ints : List Int} {f : Layout → Except Error Layout}
    (hv : S v) : Keeps Q N (do
      let layout ← Edit.pureExcept (f (← Edit.layoutOf v))
      Edit.withInts op name suffix v ints layout) :=
  (Keeps.layoutOf v).bind fun _ _ => (Keeps.pureExcept _).bind fun _ _ => hQ.withInts hv

theorem unsqueeze {axis : Nat} (hv : S v) : Keeps Q N (Edit.unsqueeze name v axis) :=
  hQ.reshaped hv

theorem squeeze {axis : Nat} (hv : S v) : Keeps Q N (Edit.squeeze name v axis) :=
  hQ.reshaped hv

theorem transpose {order : List Nat} (hv : S v) : Keeps Q N (Edit.transpose name v order) :=
  hQ.reshaped hv

theorem reshape {target : List Int} (hv : S v) : Keeps Q N (Edit.reshape name v target) :=
  hQ.reshaped hv

omit hQ in
theorem concatDim {first : Layout} {axis : Nat} (values : List Value) (d : Dim) :
    Keeps Q (fun _ => True) (Edit.concatDim first axis values d) := by
  induction values generalizing d with
  | nil => exact .pure trivial
  | cons v rest ih =>
    exact (Keeps.layoutOf v).bind fun _ _ => (Keeps.pureExcept _).bind fun d _ => ih d

theorem concat {values : List Value} {axis : Nat} (hvalues : ∀ v ∈ values, S v) :
    Keeps Q N (Edit.concat name values axis) := by
  unfold Edit.concat
  cases values with
  | nil => exact .throw _
  | cons v rest =>
    refine (Keeps.layoutOf v).bind fun first _ => ?_
    split
    · exact .throw _
    · exact (concatDim rest _).bind fun _ _ => (hQ.addNode rfl hvalues).bind fun id hid => .pure (hid 0)

theorem split {axis parts : Nat} (hv : S v) :
    Keeps Q (fun ws => ∀ w ∈ ws, N w) (Edit.split name v axis parts) := by
  refine (Keeps.layoutOf v).bind fun _ _ => (Keeps.pureExcept _).bind fun _ _ =>
    (Keeps.pureExcept _).bind fun _ _ => (hQ.addNode rfl (by simpa using hv)).bind fun id hid =>
      .pure fun w hw => ?_
  obtain ⟨i, -, rfl⟩ := List.mem_map.1 hw
  exact hid i

theorem entry {suffix : String} {index : Int} (hv : S v) :
    Keeps Q N (Edit.entry name suffix v index) := by
  refine (hQ.addConstant _).bind fun indices hindices => (hQ.addNode rfl ?_).bind fun id hid =>
    .pure (hid 0)
  simpa using ⟨hv, hQ.weaken hindices⟩

theorem sequenceLengths (hv : S v) : Keeps Q N (Edit.sequenceLengths name v) := by
  refine (Keeps.layoutOf v).bind fun layout _ => ?_
  split
  · exact (Keeps.pureExcept _).bind fun _ _ => hQ.addConstant _
  · refine (hQ.addNode rfl (by simpa using hv)).bind fun shape hshape => ?_
    have hread := hQ.weaken (hshape 0)
    refine (hQ.entry hread).bind fun time htime => (hQ.entry hread).bind fun count hcount =>
      (hQ.addNode rfl ?_).bind fun id hid => .pure (hid 0)
    simpa using ⟨hQ.weaken htime, hQ.weaken hcount⟩
  · exact .throw _

end Extensible

/-- The invariant `Q` survives all steps of a replacement: new nodes, readers of values of nodes with
the property `D` that come to read values of new nodes, and the elimination of nodes. -/
structure Replaceable (Q : Graph β → Prop) (N S : Value → Prop) (D : Nat → Prop) : Prop
    extends Extensible Q N S where
  redirected : ∀ {g : Graph β} {v w : Value}, Q g → D v.node → N w → Q (g.redirect v w).2
  eliminated : ∀ (g : Graph β) (id : Nat), Q g → Q (g.markEliminated id).2

namespace Replaceable

variable {N S : Value → Prop} {D : Nat → Prop} (hQ : Replaceable Q N S D)
include hQ

theorem redirect {v w : Value} (hv : D v.node) (hw : N w) :
    Keeps Q (fun _ => True) (Edit.redirect v w) :=
  .always fun _ hg => hQ.redirected hg hv hw

theorem markEliminated (id : Nat) : Keeps Q (fun _ => True) (Edit.markEliminated id) :=
  .always fun g hg => hQ.eliminated g id hg

theorem eliminateIfUnused (id : Nat) :
    Keeps Q (fun _ => True) (Edit.always (·.eliminateIfUnused id)) :=
  .always fun _ hg => Graph.eliminateIfUnused_induction hQ.eliminated id hg

theorem eliminateUnusedConstants (values : List Value) :
    Keeps Q (fun _ => True) (Edit.always (Graph.eliminateUnusedConstants values)) :=
  .always fun _ hg => Graph.eliminateUnusedConstants_induction hQ.eliminated values hg

end Replaceable

/-- No step of a replacement takes slots away. -/
theorem replaceable_longer (n : Nat) :
    Replaceable (β := β) (fun g => n < g.slots.length) (fun _ => True) (fun _ => True)
      (fun _ => True) where
  push hg _ _ := by
    rw [Graph.length_slots_push]
    exact Nat.lt_succ_of_lt hg
  new _ _ := trivial
  weaken _ := trivial
  redirected hg _ _ := by rwa [Graph.length_slots_redirect]
  eliminated g id hg := by rwa [Graph.length_slots_markEliminated]

end Edit

end Dataflow
