import Dataflow.Graph.Compact
import Dataflow.Proofs.Graph.Slots
import Mathlib.Data.List.Perm.Subperm
import Mathlib.Logic.Relation
import Mathlib.Tactic.Common

/-!
# Sorting the processing order

The processing order is sorted by a depth-first search along the inputs.  Whatever the edges are,
with or without cycles, the search comes to an end and finishes every stored node once.  Without
cycles the producers of the inputs of a node are finished before it, and an order that has them
there already stays as it is.

The invariant of the search is that the nodes met so far are those that are finished and those on
the *stack* of nodes under way, and that no node is both.  As the nodes on the stack are stored and
differ, the search is never nested deeper than there are slots.

## Main definitions

* `Graph.Searched` : the search as a relation, without a bound on the nesting.
* `Graph.SearchInv` : the invariant of the search.
* `Graph.Topological` : the orders that list every stored node once, after the producers it reads.

## Main statements

* `Graph.searched_foldl_visit` : the bounded search comes to an end.
* `Graph.nodup_sortedOrder`, `Graph.mem_sortedOrder` : the sorted order lists every stored node once.
* `Graph.topological_sortedOrder` : without cycles it is a topological order.
* `Graph.sortedOrder_eq_of_topological` : a topological order stays as it is.
-/

namespace Dataflow

namespace Graph

variable {β : Type} {g : Graph β} {id : Nat} {ids stack : List Nat} {state s s' : SearchState}

theorem mem_inputNodes {p : Nat} :
    p ∈ g.inputNodes id ↔ ∃ n, g.node? id = some n ∧ ∃ v ∈ n.inputs, v.node = p := by
  unfold inputNodes
  cases g.node? id <;> simp

/-! ### The search -/

/-- The search from the nodes of a list in turn: from the first state it leads to the second. -/
inductive Searched (g : Graph β) : List Nat → SearchState → SearchState → Prop
  | nil {s : SearchState} : Searched g [] s s
  /-- A node that has been met, or that is not stored. -/
  | pass {id : Nat} {ids met finished : List Nat} {s : SearchState}
      (hid : id ∈ met ∨ g.hasNode id = false) (rest : Searched g ids (met, finished) s) :
      Searched g (id :: ids) (met, finished) s
  /-- A new node, which is finished after the search from the producers of its inputs. -/
  | enter {id : Nat} {ids met finished met' finished' : List Nat} {s : SearchState}
      (hnew : id ∉ met) (hid : g.hasNode id = true)
      (inner : Searched g (g.inputNodes id) (id :: met, finished) (met', finished'))
      (rest : Searched g ids (met', id :: finished') s) :
      Searched g (id :: ids) (met, finished) s

/-- The nodes met so far are those on the stack and the finished ones.  All are stored, and none is
finished twice or while it is on the stack. -/
structure SearchInv (g : Graph β) (stack : List Nat) (state : SearchState) : Prop where
  nodup : state.2.Nodup
  stored : ∀ id ∈ state.2, g.hasNode id = true
  mem_met : ∀ id, id ∈ state.1 ↔ id ∈ stack ∨ id ∈ state.2
  not_finished : ∀ id ∈ stack, id ∉ state.2

theorem SearchInv.nil (g : Graph β) : g.SearchInv [] ([], []) :=
  ⟨.nil, by simp, by simp, by simp⟩

/-- A new node is put on the stack. -/
theorem SearchInv.enter {stack : List Nat} {state : SearchState} (h : g.SearchInv stack state)
    {id : Nat} (hid : id ∉ state.1) : g.SearchInv (id :: stack) (id :: state.1, state.2) where
  nodup := h.nodup
  stored := h.stored
  mem_met := fun i => by simp [h.mem_met, or_assoc]
  not_finished := fun i hi hfin => by
    rcases List.mem_cons.1 hi with rfl | hi
    · exact hid ((h.mem_met i).2 (.inr hfin))
    · exact h.not_finished i hi hfin

/-- The node on top of the stack is finished. -/
theorem SearchInv.finish {stack : List Nat} {state : SearchState} {id : Nat}
    (h : g.SearchInv (id :: stack) state) (hid : g.hasNode id = true) (hstack : id ∉ stack) :
    g.SearchInv stack (state.1, id :: state.2) where
  nodup := List.nodup_cons.2 ⟨h.not_finished id List.mem_cons_self, h.nodup⟩
  stored := fun i hi => by
    rcases List.mem_cons.1 hi with rfl | hi
    · exact hid
    · exact h.stored i hi
  mem_met := fun i => by
    simp only [h.mem_met, List.mem_cons]
    tauto
  not_finished := fun i hi hfin => by
    rcases List.mem_cons.1 hfin with rfl | hfin
    · exact hstack hi
    · exact h.not_finished i (List.mem_cons_of_mem _ hi) hfin

/-- The search keeps the invariant. -/
theorem SearchInv.searched (h : g.SearchInv stack s) (hs : g.Searched ids s s') :
    g.SearchInv stack s' := by
  induction hs generalizing stack with
  | nil => exact h
  | pass _ _ ih => exact ih h
  | enter hnew hid _ _ ihinner ihrest =>
    exact ihrest ((ihinner (h.enter hnew)).finish hid fun hs => hnew ((h.mem_met _).2 (.inl hs)))

/-- The search does not look at the processing order of the graph. -/
theorem Searched.setOrder (hs : g.Searched ids s s') (order : List Nat) :
    { g with order }.Searched ids s s' := by
  induction hs with
  | nil => exact .nil
  | pass hid _ ih => exact .pass hid ih
  | enter hnew hid _ _ ihinner ihrest => exact .enter hnew hid ihinner ihrest

/-- The search forgets no node. -/
theorem Searched.met_subset (hs : g.Searched ids s s') : s.1 ⊆ s'.1 := by
  induction hs with
  | nil => exact List.Subset.refl _
  | pass _ _ ih => exact ih
  | enter _ _ _ _ ihinner ihrest =>
    exact List.Subset.trans (List.subset_cons_self _ _) (List.Subset.trans ihinner ihrest)

/-- All stored nodes of the list have been met at the end. -/
theorem Searched.mem_met (hs : g.Searched ids s s') (hid : g.hasNode id = true) (hmem : id ∈ ids) :
    id ∈ s'.1 := by
  induction hs with
  | nil => exact absurd hmem List.not_mem_nil
  | pass hpass rest ih =>
    obtain rfl | hmem := List.mem_cons.1 hmem
    · exact rest.met_subset (hpass.resolve_right (by simp [hid]))
    · exact ih hmem
  | enter _ _ inner rest _ ih =>
    obtain rfl | hmem := List.mem_cons.1 hmem
    · exact rest.met_subset (inner.met_subset List.mem_cons_self)
    · exact ih hmem

/-- A search that may be nested as deep as there are slots comes to an end. -/
theorem searched_foldl_visit {depth : Nat} (h : g.SearchInv stack state) (hstack : stack.Nodup)
    (hstored : ∀ id ∈ stack, g.hasNode id = true)
    (hdepth : g.slots.length < stack.length + depth) (ids : List Nat) :
    g.Searched ids state (ids.foldl (g.visit depth) state) := by
  induction depth generalizing stack state ids with
  | zero =>
    -- The nodes on the stack would be more than there are slots.
    have hsub : stack ⊆ List.range g.slots.length := fun id hid => by
      obtain ⟨s, hs⟩ := Option.isSome_iff_exists.1 (hstored id hid)
      exact List.mem_range.2 (lt_length_of_slot? hs)
    have hle := (List.subperm_of_subset hstack hsub).length_le
    rw [List.length_range] at hle
    omega
  | succ depth ih =>
    induction ids generalizing state with
    | nil => exact .nil
    | cons id ids ihids =>
      obtain ⟨met, finished⟩ := state
      rw [List.foldl_cons, visit]
      split
      · next hid =>
        refine .pass ?_ (ihids h)
        simpa using hid
      · next hid =>
        simp only [Bool.or_eq_true, List.contains_iff_mem, Bool.not_eq_eq_eq_not, Bool.not_true,
          not_or, Bool.not_eq_false] at hid
        have hnew : id ∉ stack := fun hs => hid.1 ((h.mem_met id).2 (.inl hs))
        have hinner := ih (h.enter hid.1) (List.nodup_cons.2 ⟨hnew, hstack⟩)
          (List.forall_mem_cons.2 ⟨hid.2, hstored⟩) (by rw [List.length_cons]; omega)
          (g.inputNodes id)
        exact .enter hid.1 hid.2 hinner (ihids (((h.enter hid.1).searched hinner).finish hid.2 hnew))

/-! ### The sorted order -/

/-- The sorted order is what the search from all nodes has finished when it comes to its end. -/
theorem searched_sortedOrder (g : Graph β) :
    ∃ met, g.Searched (g.order ++ List.range g.slots.length) ([], [])
      (met, g.sortedOrder.reverse) := by
  rw [sortedOrder, List.reverse_reverse]
  exact ⟨_, searched_foldl_visit (SearchInv.nil g) .nil (by simp) (by simp) _⟩

theorem nodup_sortedOrder (g : Graph β) : g.sortedOrder.Nodup := by
  obtain ⟨met, hs⟩ := searched_sortedOrder g
  exact List.nodup_reverse.1 ((SearchInv.nil g).searched hs).nodup

theorem mem_sortedOrder : id ∈ g.sortedOrder ↔ g.hasNode id = true := by
  obtain ⟨met, hs⟩ := searched_sortedOrder g
  have hinv := (SearchInv.nil g).searched hs
  rw [← List.mem_reverse]
  refine ⟨hinv.stored id, fun hid => ?_⟩
  have hlt : id < g.slots.length := by
    obtain ⟨s, hs⟩ := Option.isSome_iff_exists.1 hid
    exact lt_length_of_slot? hs
  have hmet := hs.mem_met hid (List.mem_append_right _ (List.mem_range.2 hlt))
  exact ((hinv.mem_met id).1 hmet).resolve_left List.not_mem_nil

/-! ### Topological orders -/

/-- The order lists every stored node once, after those producers of its inputs that are stored. -/
structure Topological (g : Graph β) (order : List Nat) : Prop where
  nodup : order.Nodup
  mem_iff : ∀ id, id ∈ order ↔ g.hasNode id = true
  follows : ∀ ⦃front id rest⦄, order = front ++ id :: rest → ∀ p ∈ g.inputNodes id,
    g.hasNode p = true → p ∈ front

/-- Of the nodes of a list, the last one first, each comes after the stored producers of its
inputs. -/
def Settled (g : Graph β) : List Nat → Prop
  | [] => True
  | id :: rest => (∀ p ∈ g.inputNodes id, g.hasNode p = true → p ∈ rest) ∧ g.Settled rest

theorem Settled.mem {later : List Nat} {earlier : List Nat}
    (h : g.Settled (later ++ id :: earlier)) :
    ∀ p ∈ g.inputNodes id, g.hasNode p = true → p ∈ earlier := by
  induction later with
  | nil => exact h.1
  | cons _ later ih => exact ih h.2

/-- Without cycles a node is finished after the stored producers of its inputs.  They have been met
by then, and one that is still on the stack would be read from the node. -/
theorem Searched.settled (hs : g.Searched ids s s')
    (ha : ∀ id, ¬ Relation.TransGen (fun p id => p ∈ g.inputNodes id) id id)
    (hinv : g.SearchInv stack s)
    (hpath : ∀ id ∈ ids, ∀ top ∈ stack,
      Relation.TransGen (fun p id => p ∈ g.inputNodes id) id top)
    (h : g.Settled s.2) : g.Settled s'.2 := by
  induction hs generalizing stack with
  | nil => exact h
  | pass _ _ ih => exact ih hinv (fun id hid => hpath id (List.mem_cons_of_mem _ hid)) h
  | @enter id ids met finished met' finished' s hnew hid inner _ ihinner ihrest =>
    have henter := hinv.enter hnew
    have hinner := henter.searched inner
    have hup : ∀ p ∈ g.inputNodes id, ∀ top ∈ id :: stack,
        Relation.TransGen (fun p id => p ∈ g.inputNodes id) p top := by
      intro p hp top htop
      obtain rfl | htop := List.mem_cons.1 htop
      · exact .single hp
      · exact .head hp (hpath id List.mem_cons_self top htop)
    have hstack : id ∉ stack := fun hs => hnew ((hinv.mem_met id).2 (.inl hs))
    refine ihrest (hinner.finish hid hstack)
      (fun i hi => hpath i (List.mem_cons_of_mem _ hi)) ⟨fun p hp hstored => ?_, ?_⟩
    · obtain hp' | hp' := (hinner.mem_met p).1 (inner.mem_met hstored hp)
      · exact absurd (hup p hp p hp') (ha p)
      · exact hp'
    · exact ihinner henter hup h

/-- Without cycles the sorted order is topological. -/
theorem topological_sortedOrder
    (ha : ∀ id, ¬ Relation.TransGen (fun p id => p ∈ g.inputNodes id) id id) :
    g.Topological g.sortedOrder where
  nodup := nodup_sortedOrder g
  mem_iff _ := mem_sortedOrder
  follows := by
    intro front id rest heq p hp hstored
    obtain ⟨met, hs⟩ := searched_sortedOrder g
    have hset : g.Settled g.sortedOrder.reverse :=
      hs.settled ha (SearchInv.nil g) (by simp) trivial
    rw [heq, List.reverse_append, List.reverse_cons, List.append_assoc, List.singleton_append]
      at hset
    exact List.mem_reverse.1 (hset.mem p hp hstored)

/-! ### Orders that are sorted already -/

/-- Nodes that have been met, or are not stored, are passed over. -/
theorem foldl_visit_of_met (depth : Nat)
    (h : ∀ id ∈ ids, id ∈ state.1 ∨ g.hasNode id = false) :
    ids.foldl (g.visit depth) state = state := by
  induction ids with
  | nil => rfl
  | cons id ids ih =>
    have hvisit : g.visit depth state id = state := by
      cases depth with
      | zero => rfl
      | succ depth =>
        rw [visit, if_pos]
        simpa using h id List.mem_cons_self
    rw [List.foldl_cons, hvisit]
    exact ih fun i hi => h i (List.mem_cons_of_mem _ hi)

/-- In a topological order every node is finished as soon as the search comes to it. -/
theorem foldl_visit_of_topological (depth : Nat) {done met : List Nat}
    (h : g.Topological (done ++ ids.filter g.hasNode)) (hmet : ∀ id, id ∈ met ↔ id ∈ done) :
    ∃ met', ids.foldl (g.visit (depth + 1)) (met, done.reverse) =
        (met', (done ++ ids.filter g.hasNode).reverse) ∧
      ∀ id, id ∈ met' ↔ id ∈ done ++ ids.filter g.hasNode := by
  induction ids generalizing done met with
  | nil => exact ⟨met, by simp, by simpa using hmet⟩
  | cons id ids ih =>
    rw [List.foldl_cons, visit]
    by_cases hid : g.hasNode id = true
    · rw [List.filter_cons_of_pos hid] at h ⊢
      have hdone : id ∉ done := fun hmem =>
        (List.nodup_append.1 h.nodup).2.2 id hmem id List.mem_cons_self rfl
      have hinputs : (g.inputNodes id).foldl (g.visit depth) (id :: met, done.reverse) =
          (id :: met, done.reverse) := by
        refine foldl_visit_of_met depth fun p hp => ?_
        by_cases hstored : g.hasNode p = true
        · have hmem := h.follows rfl p hp hstored
          exact .inl (List.mem_cons_of_mem _ ((hmet p).2 hmem))
        · exact .inr (Bool.not_eq_true _ ▸ hstored)
      have hnext : (id :: done.reverse) = (done ++ [id]).reverse := by simp
      have hsplit : done ++ id :: ids.filter g.hasNode = (done ++ [id]) ++ ids.filter g.hasNode := by
        simp
      rw [if_neg (by simp [hid, hmet, hdone]), hinputs]
      dsimp only
      rw [hsplit] at h ⊢
      rw [hnext]
      exact ih h fun i => by simp [hmet, or_comm]
    · rw [List.filter_cons_of_neg hid] at h ⊢
      rw [if_pos (by simp [hid])]
      exact ih h hmet

/-- Sorting leaves a topological order as it is, and drops from it what is not stored. -/
theorem sortedOrder_eq_of_topological (h : g.Topological (g.order.filter g.hasNode)) :
    g.sortedOrder = g.order.filter g.hasNode := by
  have htop : g.Topological ([] ++ g.order.filter g.hasNode) := h
  have hnone : ∀ id : Nat, id ∈ [] ↔ id ∈ [] := fun _ => Iff.rfl
  obtain ⟨met, hfold, hmet⟩ := foldl_visit_of_topological g.slots.length htop hnone
  rw [List.nil_append] at hfold hmet
  rw [List.reverse_nil] at hfold
  rw [sortedOrder, List.foldl_append, hfold, foldl_visit_of_met, List.reverse_reverse]
  intro id _
  by_cases hid : g.hasNode id = true
  · exact .inl ((hmet id).2 ((h.mem_iff id).2 hid))
  · exact .inr (Bool.not_eq_true _ ▸ hid)

end Graph

end Dataflow
