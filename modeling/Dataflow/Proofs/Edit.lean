import Dataflow.Edit
import Mathlib.Tactic.Common

/-!
# What an edit does to a graph

Every way of making an edit is described by its result and the graph it leaves.  A sequence of two
edits runs the second one on the graph that the first one leaves, unless the first one fails.

## Main statements

* `Edit.apply_bind` : two edits in a row.
* `Edit.apply_bind_ok_iff` : when two edits in a row succeed.
* `Edit.apply_always`, `Edit.apply_attempt`, `Edit.apply_ask` : one step.
-/

namespace Dataflow

namespace Edit

variable {β α γ : Type}

@[simp] theorem apply_pure (a : α) (g : Graph β) :
    (pure a : Edit β α).apply g = (.ok a, g) :=
  rfl

theorem apply_bind (x : Edit β α) (f : α → Edit β γ) (g : Graph β) :
    (x >>= f).apply g =
      match x.apply g with
      | (.ok a, g') => (f a).apply g'
      | (.error e, g') => (.error e, g') := by
  simp only [apply, ExceptT.run, StateT.run, bind, ExceptT.bind, ExceptT.mk, StateT.bind]
  rcases x g with ⟨_ | _, _⟩ <;> rfl

/-- Two edits in a row succeed when the first one does, and the second one on the graph that the
first one leaves. -/
theorem apply_bind_ok_iff {x : Edit β α} {f : α → Edit β γ} {g g'' : Graph β} {c : γ} :
    (x >>= f).apply g = (.ok c, g'') ↔
      ∃ a g', x.apply g = (.ok a, g') ∧ (f a).apply g' = (.ok c, g'') := by
  rw [apply_bind]
  rcases h : x.apply g with ⟨e | a, g'⟩
  · simp
  · simp

theorem apply_bind_of_ok {x : Edit β α} {f : α → Edit β γ} {g g' : Graph β} {a : α}
    (h : x.apply g = (.ok a, g')) : (x >>= f).apply g = (f a).apply g' := by
  rw [apply_bind, h]

/-- A choice between two edits comes before what follows both. -/
theorem ite_bind (c : Prop) [Decidable c] (x y : Edit β α) (f : α → Edit β γ) :
    (if c then x >>= f else y >>= f) = (if c then x else y) >>= f := by
  split <;> rfl

@[simp] theorem apply_throw (e : Error) (g : Graph β) :
    (throw e : Edit β α).apply g = (.error e, g) :=
  rfl

@[simp] theorem apply_get (g : Graph β) : (get : Edit β (Graph β)).apply g = (.ok g, g) :=
  rfl

@[simp] theorem apply_set (g g' : Graph β) : (set g' : Edit β PUnit).apply g = (.ok ⟨⟩, g') :=
  rfl

@[simp] theorem apply_modify (f : Graph β → Graph β) (g : Graph β) :
    (modify f : Edit β PUnit).apply g = (.ok ⟨⟩, f g) :=
  rfl

@[simp] theorem apply_map (f : α → γ) (x : Edit β α) (g : Graph β) :
    (f <$> x).apply g = ((x.apply g).1.map f, (x.apply g).2) := by
  rw [map_eq_pure_bind, apply_bind]
  rcases x.apply g with ⟨_ | _, _⟩ <;> rfl

@[simp] theorem apply_discard (x : Edit β α) (g : Graph β) :
    (discard x).apply g = ((x.apply g).1.map fun _ => (), (x.apply g).2) :=
  apply_map _ x g

theorem apply_tryCatch (x : Edit β α) (f : Error → Edit β α) (g : Graph β) :
    (tryCatch x f).apply g =
      match x.apply g with
      | (.ok a, g') => (.ok a, g')
      | (.error e, g') => (f e).apply g' := by
  simp only [tryCatch, tryCatchThe, MonadExceptOf.tryCatch, ExceptT.tryCatch, Edit.apply,
    ExceptT.run, ExceptT.mk, StateT.run, bind, StateT.bind]
  rcases x g with ⟨_ | _, _⟩ <;> rfl

@[simp] theorem apply_always (f : Graph β → α × Graph β) (g : Graph β) :
    (always f).apply g = (.ok (f g).1, (f g).2) :=
  rfl

theorem apply_attempt (f : Graph β → Except Error (α × Graph β)) (g : Graph β) :
    (attempt f).apply g =
      match f g with
      | .ok (a, g') => (.ok a, g')
      | .error e => (.error e, g) := by
  rw [attempt, apply_bind, apply_get]
  rcases h : f g with _ | ⟨a, g'⟩
  · simp only [h]
    rfl
  · simp only [h]
    rfl

theorem apply_ask (f : Graph β → Except Error α) (g : Graph β) : (ask f).apply g = (f g, g) := by
  rw [ask, apply_bind, apply_get]
  rcases h : f g with _ | a
  · simp only [h]
    rfl
  · simp only [h]
    rfl

@[simp] theorem apply_redirect (v w : Value) (g : Graph β) :
    (redirect v w).apply g = (.ok (g.redirect v w).1, (g.redirect v w).2) :=
  rfl

@[simp] theorem apply_markEliminated (id : Nat) (g : Graph β) :
    (markEliminated id).apply g = (.ok (g.markEliminated id).1, (g.markEliminated id).2) :=
  rfl

@[simp] theorem apply_addConstant (name : String) (data : Tensor) (g : Graph β) :
    (addConstant name data).apply g =
      (.ok (g.addConstant name data).1, (g.addConstant name data).2) :=
  rfl

/-- An attempt that fails changes nothing. -/
theorem apply_attempt_error {f : Graph β → Except Error (α × Graph β)} {g : Graph β} {e : Error}
    (h : ((attempt f).apply g).1 = .error e) : ((attempt f).apply g).2 = g := by
  rw [apply_attempt] at *
  split <;> simp_all

end Edit

end Dataflow
