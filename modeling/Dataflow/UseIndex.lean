import Dataflow.Value

/-!
# The index of uses

A graph keeps, for every value that is read, the list of its uses in the order in which they came
about.  The index lists these values in order, each with its uses.  A value whose last use goes loses
its entry.

## Main definitions

* `UseIndex` : the entries.
* `UseIndex.uses` : the uses of a value.
* `UseIndex.insert`, `UseIndex.erase`, `UseIndex.move` : changing one use.
* `UseIndex.Tight` : no entry has an empty list of uses.

## Main statements

* `UseIndex.uses_insert`, `UseIndex.uses_erase`, `UseIndex.uses_insertAll`,
  `UseIndex.uses_eraseAll` : what a change does to the uses of every value.
* `UseIndex.tight_insert`, `UseIndex.tight_erase` : a change leaves no empty list behind.
-/

namespace Dataflow

/-- The uses of the values of a graph. -/
structure UseIndex where
  entries : List (Value × List Use)
  sorted : entries.Pairwise fun e f => e.1.lt f.1
deriving DecidableEq

namespace UseIndex

/-- The index without uses. -/
def empty : UseIndex :=
  ⟨[], .nil⟩

instance : Inhabited UseIndex :=
  ⟨empty⟩

/-- The uses of a value, oldest first. -/
def uses (i : UseIndex) (v : Value) : List Use :=
  (i.entries.lookup v).getD []

/-- No entry has an empty list of uses. -/
def Tight (i : UseIndex) : Prop :=
  ∀ e ∈ i.entries, e.2 ≠ []

/-! ### Changing the entries -/

/-- The entries with `u` behind the other uses of `v`, or in a new entry. -/
def push (v : Value) (u : Use) : List (Value × List Use) → List (Value × List Use)
  | [] => [(v, [u])]
  | e :: rest =>
    if e.1 = v then (v, e.2 ++ [u]) :: rest
    else if e.1.lt v then e :: push v u rest
    else (v, [u]) :: e :: rest

/-- The entries without the use `u` of `v`; an entry that it leaves empty goes, too. -/
def drop (v : Value) (u : Use) : List (Value × List Use) → List (Value × List Use)
  | [] => []
  | e :: rest =>
    if e.1 = v then
      let l := e.2.filter (· != u)
      if l.isEmpty then rest else (v, l) :: rest
    else e :: drop v u rest

theorem key_of_mem_push {v : Value} {u : Use} {e : Value × List Use}
    {l : List (Value × List Use)} (h : e ∈ push v u l) : e.1 = v ∨ ∃ f ∈ l, e.1 = f.1 := by
  induction l with
  | nil => simp_all [push]
  | cons f rest ih =>
    rw [push] at h
    split at h
    · rcases List.mem_cons.1 h with rfl | h
      · exact .inl rfl
      · exact .inr ⟨e, List.mem_cons_of_mem _ h, rfl⟩
    · split at h
      · rcases List.mem_cons.1 h with rfl | h
        · exact .inr ⟨e, List.mem_cons_self, rfl⟩
        · exact (ih h).imp_right fun ⟨f, hf, he⟩ => ⟨f, List.mem_cons_of_mem _ hf, he⟩
      · rcases List.mem_cons.1 h with rfl | h
        · exact .inl rfl
        · exact .inr ⟨e, h, rfl⟩

theorem key_of_mem_drop {v : Value} {u : Use} {e : Value × List Use}
    {l : List (Value × List Use)} (h : e ∈ drop v u l) : ∃ f ∈ l, e.1 = f.1 := by
  induction l with
  | nil => simp [drop] at h
  | cons f rest ih =>
    rw [drop] at h
    split at h
    · next hf =>
      dsimp only at h
      split at h
      · exact ⟨e, List.mem_cons_of_mem _ h, rfl⟩
      · rcases List.mem_cons.1 h with rfl | h
        · exact ⟨f, List.mem_cons_self, hf.symm⟩
        · exact ⟨e, List.mem_cons_of_mem _ h, rfl⟩
    · rcases List.mem_cons.1 h with rfl | h
      · exact ⟨e, List.mem_cons_self, rfl⟩
      · obtain ⟨f, hf, he⟩ := ih h
        exact ⟨f, List.mem_cons_of_mem _ hf, he⟩

theorem sorted_push (v : Value) (u : Use) {l : List (Value × List Use)}
    (h : l.Pairwise fun e f => e.1.lt f.1) : (push v u l).Pairwise fun e f => e.1.lt f.1 := by
  induction l with
  | nil => exact List.pairwise_singleton _ _
  | cons e rest ih =>
    obtain ⟨he, hrest⟩ := List.pairwise_cons.1 h
    rw [push]
    split
    · next hev => exact List.pairwise_cons.2 ⟨fun f hf => hev ▸ he f hf, hrest⟩
    · next hev =>
      split
      · next hlt =>
        refine List.pairwise_cons.2 ⟨fun f hf => ?_, ih hrest⟩
        rcases key_of_mem_push hf with hf | ⟨f', hf', hkey⟩
        · exact hf ▸ hlt
        · exact hkey ▸ he f' hf'
      · next hlt =>
        have hve : v.lt e.1 := Value.lt_of_not_lt hlt (Ne.symm hev)
        refine List.pairwise_cons.2 ⟨fun f hf => ?_, h⟩
        rcases List.mem_cons.1 hf with rfl | hf
        · exact hve
        · exact Value.lt_trans hve (he f hf)

theorem sorted_drop (v : Value) (u : Use) {l : List (Value × List Use)}
    (h : l.Pairwise fun e f => e.1.lt f.1) : (drop v u l).Pairwise fun e f => e.1.lt f.1 := by
  induction l with
  | nil => exact .nil
  | cons e rest ih =>
    obtain ⟨he, hrest⟩ := List.pairwise_cons.1 h
    rw [drop]
    split
    · next hev =>
      dsimp only
      split
      · exact hrest
      · exact List.pairwise_cons.2 ⟨fun f hf => hev ▸ he f hf, hrest⟩
    · refine List.pairwise_cons.2 ⟨fun f hf => ?_, ih hrest⟩
      obtain ⟨f', hf', hkey⟩ := key_of_mem_drop hf
      exact hkey ▸ he f' hf'

/-- The index with a further use of `v`, the youngest one. -/
def insert (i : UseIndex) (v : Value) (u : Use) : UseIndex :=
  ⟨push v u i.entries, sorted_push v u i.sorted⟩

/-- The index in which `u` is no use of `v`. -/
def erase (i : UseIndex) (v : Value) (u : Use) : UseIndex :=
  ⟨drop v u i.entries, sorted_drop v u i.sorted⟩

/-- The index in which `u` is the youngest use of `w`, and none of `v`. -/
def move (i : UseIndex) (u : Use) (v w : Value) : UseIndex :=
  (i.erase v u).insert w u

/-- The index with one more use for every entry of a list, in its order. -/
def insertAll (i : UseIndex) (l : List (Value × Use)) : UseIndex :=
  l.foldl (fun i p => i.insert p.1 p.2) i

/-- The index with no use for any entry of a list. -/
def eraseAll (i : UseIndex) (l : List (Value × Use)) : UseIndex :=
  l.foldl (fun i p => i.erase p.1 p.2) i

/-! ### The uses after a change -/

@[simp] theorem uses_empty (v : Value) : empty.uses v = [] :=
  rfl

private theorem lookup_cons_ite (e : Value × List Use) (l : List (Value × List Use)) (v : Value) :
    (e :: l).lookup v = if v = e.1 then some e.2 else l.lookup v := by
  rw [List.lookup_cons]
  split <;> simp_all

private theorem lookup_eq_none_of_lt {v : Value} {l : List (Value × List Use)}
    (h : ∀ e ∈ l, v.lt e.1) : l.lookup v = none := by
  induction l with
  | nil => rfl
  | cons e l ih =>
    have hne : v ≠ e.1 := fun hv => Value.lt_irrefl v (hv ▸ h e List.mem_cons_self)
    rw [lookup_cons_ite, if_neg hne]
    exact ih fun f hf => h f (List.mem_cons_of_mem _ hf)

private theorem lookup_push (v w : Value) (u : Use) {l : List (Value × List Use)}
    (h : l.Pairwise fun e f => e.1.lt f.1) :
    (push v u l).lookup w = if w = v then some ((l.lookup v).getD [] ++ [u]) else l.lookup w := by
  induction l with
  | nil => by_cases hw : w = v <;> simp [push, lookup_cons_ite, hw]
  | cons e rest ih =>
    obtain ⟨he, hrest⟩ := List.pairwise_cons.1 h
    rw [push]
    split
    · next hev =>
      by_cases hw : w = v <;> simp [lookup_cons_ite, hev, hw]
    · next hev =>
      split
      · rw [lookup_cons_ite, ih hrest, lookup_cons_ite, lookup_cons_ite, if_neg (Ne.symm hev)]
        by_cases hwe : w = e.1
        · simp [hwe, hev]
        · simp [hwe]
      · next hlt =>
        have hve : v.lt e.1 := Value.lt_of_not_lt hlt (Ne.symm hev)
        have hnone : (e :: rest).lookup v = none := lookup_eq_none_of_lt fun f hf => by
          rcases List.mem_cons.1 hf with rfl | hf
          · exact hve
          · exact Value.lt_trans hve (he f hf)
        rw [lookup_cons_ite, hnone]
        rfl

private theorem lookup_drop (v w : Value) (u : Use) {l : List (Value × List Use)}
    (h : l.Pairwise fun e f => e.1.lt f.1) :
    ((drop v u l).lookup w).getD [] =
      if w = v then ((l.lookup v).getD []).filter (· != u) else (l.lookup w).getD [] := by
  induction l with
  | nil => by_cases hw : w = v <;> simp [drop, hw]
  | cons e rest ih =>
    obtain ⟨he, hrest⟩ := List.pairwise_cons.1 h
    rw [drop]
    split
    · next hev =>
      have hnone : rest.lookup v = none := lookup_eq_none_of_lt fun f hf => hev ▸ he f hf
      dsimp only
      split
      · next hempty =>
        by_cases hw : w = v
        · subst hw
          simpa [lookup_cons_ite, hev, hnone] using hempty.symm
        · simp [lookup_cons_ite, hev, hw]
      · by_cases hw : w = v <;> simp [lookup_cons_ite, hev, hw]
    · next hev =>
      rw [lookup_cons_ite, lookup_cons_ite, lookup_cons_ite, if_neg (Ne.symm hev)]
      by_cases hwe : w = e.1
      · simp [hwe, hev]
      · simpa [hwe] using ih hrest

/-- A new use is listed behind the older uses of its value, and nowhere else. -/
theorem uses_insert (i : UseIndex) (v w : Value) (u : Use) :
    (i.insert v u).uses w = if v = w then i.uses w ++ [u] else i.uses w := by
  rw [uses, insert, lookup_push v w u i.sorted]
  by_cases h : v = w
  · subst h
    simp [uses]
  · simp [h, Ne.symm h, uses]

/-- An erased use is no longer listed with its value; the other uses stay. -/
theorem uses_erase (i : UseIndex) (v w : Value) (u : Use) :
    (i.erase v u).uses w = if v = w then (i.uses w).filter (· != u) else i.uses w := by
  rw [uses, erase, lookup_drop v w u i.sorted]
  by_cases h : v = w
  · subst h
    simp [uses]
  · simp [h, Ne.symm h, uses]

theorem uses_move (i : UseIndex) (u : Use) (v w x : Value) :
    (i.move u v w).uses x =
      (if v = x then (i.uses x).filter (· != u) else i.uses x) ++ if w = x then [u] else [] := by
  rw [move, uses_insert, uses_erase]
  split <;> simp

theorem uses_insertAll (i : UseIndex) (l : List (Value × Use)) (v : Value) :
    (i.insertAll l).uses v = i.uses v ++ (l.filter fun p => p.1 = v).map (·.2) := by
  induction l generalizing i with
  | nil => simp [insertAll]
  | cons p l ih =>
    have hstep : i.insertAll (p :: l) = (i.insert p.1 p.2).insertAll l := rfl
    rw [hstep, ih, uses_insert]
    by_cases h : p.1 = v <;> simp [h]

theorem uses_eraseAll (i : UseIndex) (l : List (Value × Use)) (v : Value) :
    (i.eraseAll l).uses v = (i.uses v).filter fun u => !l.contains (v, u) := by
  induction l generalizing i with
  | nil => exact (List.filter_eq_self.2 fun _ _ => rfl).symm
  | cons p l ih =>
    have hstep : i.eraseAll (p :: l) = (i.erase p.1 p.2).eraseAll l := rfl
    rw [hstep, ih, uses_erase]
    split
    · next h =>
      subst h
      rw [List.filter_filter]
      refine List.filter_congr fun u _ => ?_
      have : ((p.1, u) == p) = (u == p.2) := by
        rw [Bool.eq_iff_iff, beq_iff_eq, beq_iff_eq, Prod.ext_iff]
        exact and_iff_right rfl
      rw [List.contains_cons, Bool.not_or, Bool.and_comm, this, bne]
    · next h =>
      refine List.filter_congr fun u _ => ?_
      have : ((v, u) == p) = false := by
        rw [beq_eq_false_iff_ne]
        exact fun e => h (congrArg Prod.fst e).symm
      rw [List.contains_cons, this, Bool.false_or]

/-! ### Entries without uses -/

theorem tight_empty : empty.Tight := by
  simp [Tight, empty]

theorem tight_insert {i : UseIndex} (h : i.Tight) (v : Value) (u : Use) :
    (i.insert v u).Tight := by
  obtain ⟨l, hl⟩ := i
  simp only [Tight, insert] at *
  clear hl
  induction l with
  | nil => simp [push]
  | cons e rest ih =>
    have he := h e List.mem_cons_self
    have hrest := fun f hf => h f (List.mem_cons_of_mem e hf)
    rw [push]
    split
    · simpa using hrest
    · split
      · simpa [he] using ih hrest
      · simpa [he] using hrest

theorem tight_erase {i : UseIndex} (h : i.Tight) (v : Value) (u : Use) : (i.erase v u).Tight := by
  obtain ⟨l, hl⟩ := i
  simp only [Tight, erase] at *
  clear hl
  induction l with
  | nil => simp [drop]
  | cons e rest ih =>
    have he := h e List.mem_cons_self
    have hrest := fun f hf => h f (List.mem_cons_of_mem e hf)
    rw [drop]
    split
    · dsimp only
      split
      · exact hrest
      · next hne => simpa [hne] using And.intro (by simpa using hne) hrest
    · simpa [he] using ih hrest

theorem tight_insertAll {i : UseIndex} (h : i.Tight) (l : List (Value × Use)) :
    (i.insertAll l).Tight := by
  induction l generalizing i with
  | nil => exact h
  | cons p l ih => exact ih (tight_insert h p.1 p.2)

theorem tight_eraseAll {i : UseIndex} (h : i.Tight) (l : List (Value × Use)) :
    (i.eraseAll l).Tight := by
  induction l generalizing i with
  | nil => exact h
  | cons p l ih => exact ih (tight_erase h p.1 p.2)

end UseIndex

end Dataflow
