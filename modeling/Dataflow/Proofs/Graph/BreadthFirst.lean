import Dataflow.Graph.Reach
import Mathlib.Data.List.Perm.Subperm
import Mathlib.Logic.Relation
import Mathlib.Order.Lattice.Nat

/-!
# Breadth-first search

A search takes numbers from a queue in turn, and puts those neighbours of each number at the end that
have not been in the queue yet.  When there are only so many neighbours in all, the queue runs empty.
Started from one number, the search then has taken every number that chains of neighbours lead to,
each of them once, and the nearer ones first.

The queue always holds numbers of at most two neighbouring distances, the nearer ones in front.  All
numbers up to the smaller distance have been seen, and so have the neighbours of those that were
taken.

## Main definitions

* `Chain`, `distance` : a chain of steps of given length, and the length of a shortest one.
* `Searches` : the numbers that a search takes until its queue is empty.

## Main statements

* `exists_searches` : every search comes to an end.
* `Searches.mem_iff`, `Searches.nodup`, `Searches.pairwise` : which numbers it takes, how often and in
  which order.
-/

namespace Dataflow

open Relation

/-! ### Chains and distances -/

section Chain

variable {α : Type} {r : α → α → Prop} {a b c : α} {k : Nat}

/-- A number of steps that lead from `a` to another place. -/
inductive Chain (r : α → α → Prop) (a : α) : Nat → α → Prop
  | refl : Chain r a 0 a
  | tail {k : Nat} {b c : α} : Chain r a k b → r b c → Chain r a (k + 1) c

theorem Chain.reaches (h : Chain r a k b) : ReflTransGen r a b := by
  induction h with
  | refl => exact .refl
  | tail _ hbc ih => exact ih.tail hbc

theorem exists_chain (h : ReflTransGen r a b) : ∃ k, Chain r a k b := by
  induction h with
  | refl => exact ⟨0, .refl⟩
  | tail _ hbc ih =>
    obtain ⟨k, hk⟩ := ih
    exact ⟨k + 1, hk.tail hbc⟩

/-- The length of a shortest chain.  It is zero where no chain leads. -/
noncomputable def distance (r : α → α → Prop) (a b : α) : Nat :=
  sInf {k | Chain r a k b}

theorem Chain.distance_le (h : Chain r a k b) : distance r a b ≤ k :=
  Nat.sInf_le h

theorem chain_distance (h : ReflTransGen r a b) : Chain r a (distance r a b) b :=
  Nat.sInf_mem (exists_chain h)

theorem distance_self : distance r a a = 0 :=
  Nat.le_zero.1 Chain.refl.distance_le

theorem eq_of_distance_eq_zero (h : ReflTransGen r a b) (hzero : distance r a b = 0) : b = a := by
  have hchain := chain_distance h
  rw [hzero] at hchain
  cases hchain
  rfl

theorem distance_le_succ (h : ReflTransGen r a b) (hbc : r b c) :
    distance r a c ≤ distance r a b + 1 :=
  ((chain_distance h).tail hbc).distance_le

/-- The last place before the end of a shortest chain is one step nearer. -/
theorem exists_of_distance_succ (h : ReflTransGen r a c) (hsucc : distance r a c = k + 1) :
    ∃ b, ReflTransGen r a b ∧ distance r a b = k ∧ r b c := by
  have hchain := chain_distance h
  rw [hsucc] at hchain
  cases hchain with
  | @tail _ b _ hb hbc =>
    have hle := hb.distance_le
    have hge := distance_le_succ hb.reaches hbc
    exact ⟨b, hb.reaches, by omega, hbc⟩

end Chain

/-! ### Unseen neighbours -/

/-- The first occurrences in a list do not repeat. -/
private theorem nodup_eraseDups (l : List Nat) : l.eraseDups.Nodup := by
  induction hlen : l.length using Nat.strongRecOn generalizing l with
  | ind len ih =>
    cases l with
    | nil => simp
    | cons a l =>
      have hlt : (l.filter fun b => !b == a).length < len := by
        have hle := List.length_filter_le (fun b => !b == a) l
        simp only [List.length_cons] at hlen
        omega
      rw [List.eraseDups_cons]
      refine List.nodup_cons.2 ⟨fun ha => ?_, ih _ hlt _ rfl⟩
      simpa using List.mem_eraseDups.1 ha

theorem Graph.nodup_unseen (seen l : List Nat) : (unseen seen l).Nodup :=
  nodup_eraseDups _

theorem Graph.mem_unseen {seen l : List Nat} {id : Nat} :
    id ∈ unseen seen l ↔ id ∈ l ∧ id ∉ seen := by
  simp [unseen, List.mem_eraseDups]

/-- What is seen with the unseen part of a list: nothing repeats. -/
theorem Graph.nodup_append_unseen {seen : List Nat} (h : seen.Nodup) (l : List Nat) :
    (seen ++ unseen seen l).Nodup := by
  refine List.nodup_append.2 ⟨h, nodup_unseen seen l, ?_⟩
  rintro a ha b hb rfl
  exact (mem_unseen.1 hb).2 ha

/-! ### Searches -/

/-- A search with the neighbours `next` takes the listed numbers, and then its queue is empty.  The
numbers that have been in the queue are the seen ones. -/
inductive Searches (next : Nat → List Nat) : (queue seen taken : List Nat) → Prop
  | done {seen : List Nat} : Searches next [] seen []
  | take {id : Nat} {queue seen taken : List Nat} :
      Searches next (queue ++ Graph.unseen seen (next id)) (seen ++ Graph.unseen seen (next id)) taken →
        Searches next (id :: queue) seen (id :: taken)

variable {next : Nat → List Nat} {queue seen taken near far : List Nat} {start id k : Nat}

/-- A search comes to an end if all neighbours are in one list: the numbers still to be seen bound
those that will enter the queue. -/
theorem exists_searches {all : List Nat} (hnext : ∀ id, next id ⊆ all) (hseen : seen.Nodup)
    (hall : seen ⊆ all) (queue : List Nat) : ∃ taken, Searches next queue seen taken := by
  induction hsteps : queue.length + (all.length - seen.length) generalizing queue seen with
  | zero =>
    obtain rfl : queue = [] := List.length_eq_zero_iff.1 (by omega)
    exact ⟨[], .done⟩
  | succ steps ih =>
    cases queue with
    | nil => exact ⟨[], .done⟩
    | cons id queue =>
      set fresh := Graph.unseen seen (next id) with hfresh
      have hnodup : (seen ++ fresh).Nodup := Graph.nodup_append_unseen hseen (next id)
      have hsub : seen ++ fresh ⊆ all :=
        List.append_subset.2 ⟨hall, fun k hk => hnext id (Graph.mem_unseen.1 hk).1⟩
      have hroom := (List.subperm_of_subset hnodup hsub).length_le
      obtain ⟨taken, htaken⟩ := ih hnodup hsub (queue ++ fresh) (by
        simp only [List.length_append, List.length_cons] at hsteps hroom ⊢
        omega)
      exact ⟨id :: taken, .take htaken⟩

namespace Searches

/-- What is in the queue is taken. -/
theorem queue_subset (h : Searches next queue seen taken) : queue ⊆ taken := by
  induction h with
  | done => exact List.Subset.refl []
  | take _ ih =>
    exact List.cons_subset_cons _ (List.Subset.trans (List.subset_append_left _ _) ih)

/-- The neighbours of a number that is taken had been seen before, or are taken, too. -/
theorem next_subset (h : Searches next queue seen taken) (hid : id ∈ taken) (hk : k ∈ next id) :
    k ∈ seen ∨ k ∈ taken := by
  induction h with
  | done => exact absurd hid List.not_mem_nil
  | @take first queue seen taken hrest ih =>
    by_cases hks : k ∈ seen
    · exact .inl hks
    refine .inr (List.mem_cons_of_mem first ?_)
    have hfresh : k ∈ Graph.unseen seen (next first) → k ∈ taken := fun hk =>
      hrest.queue_subset (List.mem_append_right _ hk)
    obtain rfl | hid := List.mem_cons.1 hid
    · exact hfresh (Graph.mem_unseen.2 ⟨hk, hks⟩)
    · obtain hk | hk := ih hid
      · exact hfresh ((List.mem_append.1 hk).resolve_left hks)
      · exact hk

/-- What is true of the numbers in the queue, and is handed on to neighbours, is true of every number
that is taken. -/
theorem induction {P : Nat → Prop} (h : Searches next queue seen taken)
    (hnext : ∀ id, P id → ∀ k ∈ next id, P k) (hqueue : ∀ id ∈ queue, P id) : ∀ id ∈ taken, P id := by
  induction h with
  | done => exact hqueue
  | take _ ih =>
    obtain ⟨hfirst, hrest⟩ := List.forall_mem_cons.1 hqueue
    refine List.forall_mem_cons.2 ⟨hfirst, ih fun k hk => ?_⟩
    obtain hk | hk := List.mem_append.1 hk
    · exact hrest k hk
    · exact hnext _ hfirst k (Graph.mem_unseen.1 hk).1

/-- No number is taken twice, and none that had been seen before and was not in the queue. -/
theorem nodup_of_queue (h : Searches next queue seen taken) (hqueue : queue.Nodup)
    (hseen : queue ⊆ seen) : taken.Nodup ∧ ∀ id ∈ taken, id ∈ queue ∨ id ∉ seen := by
  induction h with
  | done => exact ⟨.nil, fun id hid => absurd hid List.not_mem_nil⟩
  | @take first queue seen taken hrest ih =>
    obtain ⟨hfirst, hqueue⟩ := List.nodup_cons.1 hqueue
    obtain ⟨hfirstSeen, hseen⟩ := List.cons_subset.1 hseen
    have hnodup : (queue ++ Graph.unseen seen (next first)).Nodup := by
      refine List.nodup_append.2 ⟨hqueue, Graph.nodup_unseen _ _, ?_⟩
      rintro a ha b hb rfl
      exact (Graph.mem_unseen.1 hb).2 (hseen ha)
    obtain ⟨htaken, hnew⟩ := ih hnodup (List.append_subset.2
      ⟨fun k hk => List.mem_append_left _ (hseen hk), List.subset_append_right _ _⟩)
    have hlater : ∀ id ∈ taken, id ∈ queue ∨ id ∉ seen := by
      intro id hid
      obtain hq | hs := hnew id hid
      · obtain hq | hf := List.mem_append.1 hq
        · exact .inl hq
        · exact .inr (Graph.mem_unseen.1 hf).2
      · exact .inr fun h => hs (List.mem_append_left _ h)
    refine ⟨List.nodup_cons.2 ⟨fun hmem => ?_, htaken⟩, List.forall_mem_cons.2
      ⟨.inl List.mem_cons_self, fun id hid => (hlater id hid).imp_left (List.mem_cons_of_mem _)⟩⟩
    exact (hlater first hmem).elim hfirst fun h => h hfirstSeen

end Searches

/-! ### Layers -/

/-- The queue of a search from `start` holds numbers at the distance `k` and, behind them, numbers
one step farther.  The latter have been seen, and so have all numbers at most `k` steps away; the
neighbours of these have been seen unless they are still in the queue. -/
structure Layered (r : Nat → Nat → Prop) (start k : Nat) (near far seen : List Nat) : Prop where
  near_at : ∀ x ∈ near, ReflTransGen r start x ∧ distance r start x = k
  far_at : ∀ x ∈ far, ReflTransGen r start x ∧ distance r start x = k + 1
  mem_seen : ∀ x, x ∈ seen ↔ x ∈ far ∨ ReflTransGen r start x ∧ distance r start x ≤ k
  taken : ∀ x, ReflTransGen r start x → distance r start x ≤ k → x ∉ near → ∀ y, r x y → y ∈ seen

namespace Layered

variable {r : Nat → Nat → Prop}

theorem single (r : Nat → Nat → Prop) (start : Nat) : Layered r start 0 [start] [] [start] where
  near_at := by simpa using ⟨ReflTransGen.refl, distance_self⟩
  far_at := by simp
  mem_seen := fun x => by
    simp only [List.mem_singleton, List.not_mem_nil, false_or, Nat.le_zero]
    constructor
    · rintro rfl
      exact ⟨.refl, distance_self⟩
    · exact fun ⟨hx, hzero⟩ => eq_of_distance_eq_zero hx hzero
  taken := fun x hx hle hnot => by
    obtain rfl := eq_of_distance_eq_zero hx (Nat.le_zero.1 hle)
    exact absurd List.mem_cons_self hnot

/-- When the nearer numbers have all been taken, the farther ones are the nearer ones. -/
theorem turn (h : Layered r start k [] far seen) : Layered r start (k + 1) far [] seen := by
  have hseen : ∀ x, x ∈ seen ↔ ReflTransGen r start x ∧ distance r start x ≤ k + 1 := by
    intro x
    constructor
    · intro hx
      obtain hx | ⟨hreach, hle⟩ := (h.mem_seen x).1 hx
      · exact ⟨(h.far_at x hx).1, Nat.le_of_eq (h.far_at x hx).2⟩
      · exact ⟨hreach, Nat.le_succ_of_le hle⟩
    · rintro ⟨hreach, hle⟩
      obtain heq | hlt := Nat.eq_or_lt_of_le hle
      · obtain ⟨b, hb, hbk, hbx⟩ := exists_of_distance_succ hreach heq
        exact h.taken b hb (Nat.le_of_eq hbk) List.not_mem_nil x hbx
      · exact (h.mem_seen x).2 (.inr ⟨hreach, Nat.le_of_lt_succ hlt⟩)
  refine ⟨h.far_at, by simp, by simpa using hseen, fun x hreach hle hnot y hxy => ?_⟩
  obtain hx | ⟨-, hle⟩ := (h.mem_seen x).1 ((hseen x).2 ⟨hreach, hle⟩)
  · exact absurd hx hnot
  · exact h.taken x hreach hle List.not_mem_nil y hxy

/-- The unseen neighbours of a number at the distance `k` are one step farther. -/
theorem take (hr : ∀ a b, r a b ↔ b ∈ next a) (h : Layered r start k (id :: near) far seen) :
    Layered r start k near (far ++ Graph.unseen seen (next id))
      (seen ++ Graph.unseen seen (next id)) := by
  obtain ⟨hid, hidk⟩ := h.near_at id List.mem_cons_self
  refine ⟨fun x hx => h.near_at x (List.mem_cons_of_mem id hx), fun x hx => ?_, fun x => ?_, ?_⟩
  · obtain hx | hx := List.mem_append.1 hx
    · exact h.far_at x hx
    · obtain ⟨hnext, hnot⟩ := Graph.mem_unseen.1 hx
      have hstep : r id x := (hr id x).2 hnext
      have hreach : ReflTransGen r start x := hid.tail hstep
      have hle := distance_le_succ hid hstep
      have hgt : ¬ distance r start x ≤ k := fun hle => hnot ((h.mem_seen x).2 (.inr ⟨hreach, hle⟩))
      exact ⟨hreach, by omega⟩
  · rw [List.mem_append, List.mem_append, h.mem_seen, or_assoc, or_assoc, or_comm (b := _ ∧ _)]
  · intro x hreach hle hnot y hxy
    by_cases hy : y ∈ seen
    · exact List.mem_append_left _ hy
    · obtain rfl : x = id := by
        by_contra hne
        exact hy (h.taken x hreach hle (by simp [hne, hnot]) y hxy)
      exact List.mem_append_right _ (Graph.mem_unseen.2 ⟨(hr x y).1 hxy, hy⟩)

/-- From a queue in layers on, numbers are taken in order of their distances. -/
theorem pairwise (hr : ∀ a b, r a b ↔ b ∈ next a) (h : Searches next queue seen taken)
    (hlayers : Layered r start k near far seen) (hqueue : queue = near ++ far) :
    (taken.Pairwise fun x y => distance r start x ≤ distance r start y) ∧
      ∀ x ∈ taken, k ≤ distance r start x := by
  induction h generalizing k near far with
  | done => exact ⟨.nil, by simp⟩
  | @take id queue seen taken _ ih =>
    obtain ⟨k', near', far', hle, hlayers', hqueue'⟩ : ∃ k' near' far', k ≤ k' ∧
        Layered r start k' (id :: near') far' seen ∧ queue = near' ++ far' := by
      cases near with
      | nil =>
        rw [List.nil_append] at hqueue
        exact ⟨k + 1, queue, [], Nat.le_succ k, hqueue ▸ hlayers.turn, by simp⟩
      | cons first near =>
        obtain ⟨rfl, hbehind⟩ := List.cons.inj hqueue
        exact ⟨k, near, far, Nat.le_refl k, hlayers, hbehind⟩
    obtain ⟨hsorted, hfar⟩ := ih (hlayers'.take hr) (by rw [hqueue', List.append_assoc])
    have hid : distance r start id = k' := (hlayers'.near_at id List.mem_cons_self).2
    refine ⟨List.pairwise_cons.2 ⟨fun x hx => hid ▸ hfar x hx, hsorted⟩,
      List.forall_mem_cons.2 ⟨hid ▸ hle, fun x hx => Nat.le_trans hle (hfar x hx)⟩⟩

end Layered

/-! ### Searches from one number -/

namespace Searches

variable {r : Nat → Nat → Prop}

theorem exists_cons (h : Searches next [start] [start] taken) : ∃ rest, taken = start :: rest := by
  cases h with
  | take _ => exact ⟨_, rfl⟩

theorem nodup (h : Searches next [start] [start] taken) : taken.Nodup :=
  (h.nodup_of_queue (List.nodup_singleton start) (List.Subset.refl _)).1

/-- A search takes what chains of neighbours lead to. -/
theorem mem_iff (hr : ∀ a b, r a b ↔ b ∈ next a) (h : Searches next [start] [start] taken) :
    id ∈ taken ↔ ReflTransGen r start id := by
  have hstart : start ∈ taken := h.queue_subset List.mem_cons_self
  constructor
  · refine h.induction (P := ReflTransGen r start) (fun a ha b hb => ha.tail ((hr a b).2 hb)) ?_ id
    simpa using ReflTransGen.refl
  · intro hreach
    induction hreach with
    | refl => exact hstart
    | @tail b c _ hbc ih =>
      obtain hc | hc := h.next_subset ih ((hr b c).1 hbc)
      · exact List.mem_singleton.1 hc ▸ hstart
      · exact hc

/-- After the start a search takes what else chains lead to. -/
theorem mem_drop_iff (hr : ∀ a b, r a b ↔ b ∈ next a) (h : Searches next [start] [start] taken) :
    id ∈ taken.drop 1 ↔ id ≠ start ∧ TransGen r start id := by
  obtain ⟨rest, rfl⟩ := h.exists_cons
  have hnot : start ∉ rest := (List.nodup_cons.1 h.nodup).1
  rw [List.drop_one, List.tail_cons]
  constructor
  · intro hid
    have hne : id ≠ start := fun heq => hnot (heq ▸ hid)
    have hreach := (h.mem_iff hr).1 (List.mem_cons_of_mem start hid)
    exact ⟨hne, (reflTransGen_iff_eq_or_transGen.1 hreach).resolve_left hne⟩
  · rintro ⟨hne, htrans⟩
    exact (List.mem_cons.1 ((h.mem_iff hr).2 htrans.to_reflTransGen)).resolve_left hne

/-- A search takes the nearer numbers first. -/
theorem pairwise (hr : ∀ a b, r a b ↔ b ∈ next a) (h : Searches next [start] [start] taken) :
    taken.Pairwise fun x y => distance r start x ≤ distance r start y :=
  (Layered.pairwise hr h (.single r start) rfl).1

end Searches

end Dataflow
