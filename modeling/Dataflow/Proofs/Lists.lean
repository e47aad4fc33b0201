import Mathlib.Data.List.Forall2
import Mathlib.Data.Option.Basic
import Mathlib.Tactic.Common

/-!
# Lists in step

Two lists are in step when they are equally long and their entries are related place by place.  A
list that is worked through entry by entry is in step with the results.

## Main statements

* `exists_of_forall₂_left`, `exists_of_forall₂_right` : the entry at a place of the other list.
* `exists_mem_of_forall₂` : some entry of the other list.
* `mapM_eq_some_iff`, `forall₂_of_mapM_ok`, `mapM_eq_ok_of_forall₂` : working through a list.
* `exists_mapM_ok_iff`, `exists_of_mapM_error` : when that succeeds, and where it stops.
-/

namespace Dataflow

variable {α γ : Type} {R : α → γ → Prop} {l : List α} {cs : List γ} {i : Nat} {a : α} {c : γ}

theorem exists_of_forall₂_left (h : List.Forall₂ R l cs) (ha : l[i]? = some a) :
    ∃ c, cs[i]? = some c ∧ R a c := by
  obtain ⟨hi, rfl⟩ := List.getElem?_eq_some_iff.1 ha
  have hi' : i < cs.length := by rwa [← h.length_eq]
  exact ⟨cs[i], List.getElem?_eq_getElem hi', (List.forall₂_iff_get.1 h).2 i hi hi'⟩

theorem exists_of_forall₂_right (h : List.Forall₂ R l cs) (hc : cs[i]? = some c) :
    ∃ a, l[i]? = some a ∧ R a c := by
  obtain ⟨hi, rfl⟩ := List.getElem?_eq_some_iff.1 hc
  have hi' : i < l.length := by rwa [h.length_eq]
  exact ⟨l[i], List.getElem?_eq_getElem hi', (List.forall₂_iff_get.1 h).2 i hi' hi⟩

theorem exists_mem_of_forall₂ (h : List.Forall₂ R l cs) (ha : a ∈ l) : ∃ c ∈ cs, R a c := by
  obtain ⟨i, hi⟩ := List.mem_iff_getElem?.1 ha
  obtain ⟨c, hc, hac⟩ := exists_of_forall₂_left h hi
  exact ⟨c, List.mem_of_getElem? hc, hac⟩

theorem forall₂_set (h : List.Forall₂ R l cs) (i : Nat) (hac : R a c) :
    List.Forall₂ R (l.set i a) (cs.set i c) := by
  induction h generalizing i with
  | nil => exact .nil
  | cons hfirst hrest ih =>
    cases i with
    | zero => exact .cons hac hrest
    | succ i => exact .cons hfirst (ih i)

theorem exists_forall₂ (h : ∀ a ∈ l, ∃ c, R a c) : ∃ cs, List.Forall₂ R l cs := by
  induction l with
  | nil => exact ⟨[], .nil⟩
  | cons a l ih =>
    obtain ⟨c, hc⟩ := h a List.mem_cons_self
    obtain ⟨cs, hcs⟩ := ih fun b hb => h b (List.mem_cons_of_mem a hb)
    exact ⟨c :: cs, .cons hc hcs⟩

theorem forall₂_of_mapM_ok {ε : Type} {f : α → Except ε γ} (h : l.mapM f = .ok cs) :
    List.Forall₂ (fun a c => f a = .ok c) l cs := by
  induction l generalizing cs with
  | nil =>
    obtain rfl := Except.ok.inj h
    exact .nil
  | cons a l ih =>
    rw [List.mapM_cons] at h
    cases ha : f a with
    | error e => simp [ha, bind, Except.bind] at h
    | ok c =>
      cases hl : l.mapM f with
      | error e => simp [ha, hl, bind, Except.bind] at h
      | ok rest =>
        rw [ha, hl] at h
        obtain rfl := Except.ok.inj h
        exact .cons ha (ih hl)

theorem mapM_eq_ok_of_forall₂ {ε : Type} {f : α → Except ε γ}
    (h : List.Forall₂ (fun a c => f a = .ok c) l cs) : l.mapM f = .ok cs := by
  induction h with
  | nil => rfl
  | cons ha _ ih => rw [List.mapM_cons, ha, ih]; rfl

/-- A list is worked through if each of its entries can be. -/
theorem exists_mapM_ok_iff {ε : Type} {f : α → Except ε γ} :
    (∃ cs, l.mapM f = .ok cs) ↔ ∀ a ∈ l, ∃ c, f a = .ok c := by
  constructor
  · rintro ⟨cs, h⟩ a ha
    obtain ⟨c, -, hc⟩ := exists_mem_of_forall₂ (forall₂_of_mapM_ok h) ha
    exact ⟨c, hc⟩
  · intro h
    obtain ⟨cs, hcs⟩ := exists_forall₂ h
    exact ⟨cs, mapM_eq_ok_of_forall₂ hcs⟩

/-- The error is that of the first entry that has one. -/
theorem exists_of_mapM_error {ε : Type} {f : α → Except ε γ} {e : ε} (h : l.mapM f = .error e) :
    ∃ front a back, l = front ++ a :: back ∧ (∀ b ∈ front, ∃ c, f b = .ok c) ∧ f a = .error e := by
  induction l with
  | nil => simp [pure, Except.pure] at h
  | cons a l ih =>
    rw [List.mapM_cons] at h
    cases ha : f a with
    | error e' =>
      simp only [ha, bind, Except.bind, Except.error.injEq] at h
      exact ⟨[], a, l, rfl, by simp, h ▸ ha⟩
    | ok c =>
      cases hl : l.mapM f with
      | ok rest => simp [ha, hl, bind, Except.bind, pure, Except.pure] at h
      | error e' =>
        simp only [ha, hl, bind, Except.bind, Except.error.injEq] at h
        obtain ⟨front, b, back, rfl, hfront, hb⟩ := ih (h ▸ hl)
        exact ⟨a :: front, b, back, rfl, List.forall_mem_cons.2 ⟨⟨c, ha⟩, hfront⟩, hb⟩

theorem mapM_eq_some_iff {h : α → Option γ} :
    l.mapM h = some cs ↔ List.Forall₂ (fun a c => h a = some c) l cs := by
  induction l generalizing cs with
  | nil => rw [List.forall₂_nil_left_iff, List.mapM_nil, Option.pure_def, Option.some.injEq, eq_comm]
  | cons a l ih =>
    rw [List.mapM_cons, List.forall₂_cons_left_iff]
    simp only [Option.bind_eq_bind, Option.bind_eq_some_iff, Option.pure_def, Option.some.injEq, ih]
    constructor
    · rintro ⟨c, hc, rest, hrest, rfl⟩
      exact ⟨c, rest, hc, hrest, rfl⟩
    · rintro ⟨c, rest, hc, hrest, rfl⟩
      exact ⟨c, hc, rest, hrest, rfl⟩

end Dataflow
