import Dataflow.Error
import Mathlib.Data.Option.Basic

/-!
# Searches that read lists directly

The searches of the passes look up entries of lists, and take a missing entry for a failed search.  A
program that counts on a list to be long enough reads the entry directly, and reads past the end of
the list where it is mistaken.  A search with direct reads that has the result of the one without them
has not been mistaken.

## Main definitions

* `readAt`, `writeAt` : a read and a write at an index that has to exist.
* `Direct` : a search that may read past the end of a list.
* `Direct.Finds` : a search that ends with a result.

## Main statements

* `Direct.Finds.bind`, `Direct.Finds.entry_bind` : one step after another.
* `Direct.Finds.mapM`, `Direct.Finds.firstM` : the same step for all entries of a list, and for the
  first one at which it succeeds.
-/

namespace Dataflow

/-! ### Reads and writes -/

section Entries

variable {α : Type} {l : List α} {i : Nat} {a : α}

/-- The entry of a list at an index, which has to exist. -/
def readAt (l : List α) (i : Nat) : Except Error α :=
  match l[i]? with
  | some a => .ok a
  | none => .error .outOfRange

/-- The list with another entry at an index, which has to exist. -/
def writeAt (l : List α) (i : Nat) (a : α) : Except Error (List α) :=
  if i < l.length then .ok (l.set i a) else .error .outOfRange

theorem readAt_of_getElem? (h : l[i]? = some a) : readAt l i = .ok a := by
  rw [readAt, h]

theorem writeAt_of_lt (h : i < l.length) : writeAt l i a = .ok (l.set i a) :=
  if_pos h

end Entries

/-! ### Searches -/

/-- A search that finds something, finds nothing, or reads past the end of a list. -/
abbrev Direct (α : Type) : Type :=
  OptionT (Except Error) α

namespace Direct

variable {α γ : Type}

/-- A direct read as a step of a search. -/
def entry (l : List α) (i : Nat) : Direct α :=
  OptionT.lift (readAt l i)

/-- A step that reads nothing directly. -/
def ofOption (o : Option α) : Direct α :=
  OptionT.mk (.ok o)

/-- What the search finds, if it finds anything. -/
def toOption (r : Direct α) : Direct (Option α) :=
  OptionT.mk (r.run.map some)

/-- The search ends with this result.  In particular it does not read past the end of a list. -/
def Finds (r : Direct α) (o : Option α) : Prop :=
  r.run = .ok o

namespace Finds

variable {r : Direct α} {o : Option α} {a : α} {l : List α} {i : Nat}

theorem ofOption : Finds (.ofOption o) o :=
  rfl

theorem pure : Finds (Pure.pure a) (some a) :=
  rfl

theorem failure : Finds (Alternative.failure : Direct α) none :=
  rfl

theorem bind {f : α → Direct γ} {k : α → Option γ} (hr : r.Finds o)
    (hf : ∀ a, o = some a → (f a).Finds (k a)) : (r >>= f).Finds (o.bind k) := by
  unfold Finds at hr ⊢
  rw [OptionT.run_bind, hr]
  cases o with
  | none => rfl
  | some a => exact hf a rfl

theorem bind_some {f : α → Direct γ} {o' : Option γ} (hr : r.Finds (some a))
    (hf : (f a).Finds o') : (r >>= f).Finds o' :=
  hr.bind fun _ hb => Option.some.inj hb ▸ hf

theorem bind_none {f : α → Direct γ} (hr : r.Finds none) : (r >>= f).Finds none :=
  hr.bind (k := fun _ => none) fun _ hb => absurd hb (by simp)

/-- A read of an entry that is there. -/
theorem read (h : i < l.length) : (Direct.entry l i).Finds l[i]? := by
  rw [Direct.entry, readAt_of_getElem? (List.getElem?_eq_getElem h), List.getElem?_eq_getElem h]
  rfl

theorem entry (h : l[i]? = some a) : (Direct.entry l i).Finds (some a) := by
  rw [Direct.entry, readAt_of_getElem? h]
  rfl

theorem entry_bind {f : α → Direct γ} {o : Option γ} (h : l[i]? = some a) (hf : (f a).Finds o) :
    (Direct.entry l i >>= f).Finds o :=
  (entry h).bind_some hf

theorem require {c : Prop} [Decidable c] (h : c) : (guard c : Direct Unit).Finds (some ()) := by
  simp only [guard, if_pos h]
  exact .pure

theorem refuse {c : Prop} [Decidable c] (h : ¬ c) : (guard c : Direct Unit).Finds none := by
  simp only [guard, if_neg h]
  exact .failure

theorem guarded {c : Prop} [Decidable c] :
    (guard c : Direct Unit).Finds (guard c : Option Unit) := by
  by_cases h : c
  · simp only [guard, if_pos h]
    exact .pure
  · simp only [guard, if_neg h]
    exact .failure

theorem guard_bind {c : Prop} [Decidable c] {f : Unit → Direct γ} {k : Unit → Option γ}
    (hf : c → (f ()).Finds (k ())) : (guard c >>= f).Finds ((guard c : Option Unit).bind k) :=
  guarded.bind fun u h => hf ((Option.guard_eq_some' u).1 h)

theorem andM {r r' : Direct Bool} {b b' : Bool} (h : r.Finds (some b)) (h' : r'.Finds (some b')) :
    (r <&&> r').Finds (some (b && b')) := by
  refine h.bind_some ?_
  cases b with
  | false => exact .pure
  | true => exact h'

theorem toOption (h : r.Finds o) : r.toOption.Finds (some o) := by
  unfold Finds at h
  rw [Direct.toOption, h]
  rfl

theorem ite {c : Prop} [Decidable c] {r' : Direct α} {o' : Option α} (h : c → r.Finds o)
    (h' : ¬ c → r'.Finds o') : Finds (if c then r else r') (if c then o else o') := by
  split
  · next hc => exact h hc
  · next hc => exact h' hc

theorem orElse {r' : Direct α} {o' : Option α} (h : r.Finds o) (h' : r'.Finds o') :
    Finds (r <|> r') (o <|> o') := by
  unfold Finds at h h' ⊢
  rw [OptionT.run_orElse, h]
  cases o with
  | none => exact h'
  | some a => rfl

theorem firstM {f : α → Direct γ} {k : α → Option γ} (hf : ∀ a ∈ l, (f a).Finds (k a)) :
    (l.firstM f).Finds (l.findSome? k) := by
  induction l with
  | nil => exact .failure
  | cons a l ih =>
    have hrest := ih fun b hb => hf b (List.mem_cons_of_mem a hb)
    have heq : (a :: l).findSome? k = (k a <|> l.findSome? k) := by
      cases h : k a <;> simp [h]
    rw [heq]
    exact (hf a List.mem_cons_self).orElse hrest

theorem mapM {f : α → Direct γ} {k : α → γ} (hf : ∀ a ∈ l, (f a).Finds (some (k a))) :
    (l.mapM f).Finds (some (l.map k)) := by
  induction l with
  | nil => exact .pure
  | cons a l ih =>
    rw [List.mapM_cons]
    refine (hf a List.mem_cons_self).bind (k := fun b => some (b :: l.map k)) fun b hb => ?_
    exact (ih fun c hc => hf c (List.mem_cons_of_mem a hc)).bind (k := fun c => some (b :: c))
      fun _ hc => Option.some.inj hc ▸ .pure

end Finds

end Direct

end Dataflow
