import Dataflow.Proofs.Graph.Compaction

/-!
# Redirecting a value

In a graph whose index of uses is exact, redirecting `v` to `w` substitutes `w` for `v` in the
inputs of every live node, except the node of `w` itself, and in the outputs of the graph.  Marked
nodes, the order and everything else stay as they are.  For live nodes it is enough that the index is
right about them.

## Main definitions

* `Graph.IndexesLive` : the index lists the reads of live nodes.

## Main statements

* `Graph.slot?_redirectUses` : rewiring a list of uses sets exactly these inputs.
* `Graph.slot?_redirect`, `Graph.live?_redirect`, `Graph.outputs_redirect` : the substitution.
* `Graph.reads_redirect` : the reads after it.
* `Graph.WellKept.redirect` : it keeps a graph well kept.
-/

namespace Dataflow

/-- `w` in the place of `v`. -/
def Value.subst (v w x : Value) : Value :=
  if x = v then w else x

@[simp] theorem Value.subst_self (v x : Value) : Value.subst v v x = x := by
  unfold subst
  split <;> simp_all

theorem Value.subst_of_ne {v x : Value} (w : Value) (h : x ≠ v) : Value.subst v w x = x :=
  if_neg h

theorem Value.subst_ne_self_iff {v w x : Value} : Value.subst v w x ≠ x ↔ x = v ∧ v ≠ w := by
  unfold subst
  split
  · next hx => simp [hx, eq_comm]
  · next hx => simp [hx]

theorem Value.subst_eq_iff_of_ne {v w x y : Value} (h : x ≠ w) :
    Value.subst v w y = x ↔ y = x ∧ y ≠ v := by
  unfold subst
  split
  · next hy => simp [hy, Ne.symm h]
  · next hy => simp [hy]

namespace Node

variable {β : Type}

/-- The node with its inputs changed one by one. -/
def mapInputs (n : Node β) (f : Value → Value) : Node β :=
  { n with inputs := n.inputs.map f }

@[simp] theorem mapInputs_id (n : Node β) : (n.mapInputs fun x => x) = n := by
  simp [mapInputs]

theorem mapInputs_eq_self {n : Node β} {f : Value → Value} (h : ∀ x ∈ n.inputs, f x = x) :
    n.mapInputs f = n := by
  have hmap : n.inputs.map f = n.inputs.map fun x => x := List.map_congr_left h
  rw [mapInputs, hmap, List.map_id']

/-- The node with `w` for the inputs that belong to a list of uses. -/
def setInputs (n : Node β) (us : List Use) (id : Nat) (w : Value) : Node β :=
  { n with inputs := n.inputs.mapIdx fun i x => if (⟨id, i⟩ : Use) ∈ us then w else x }

/-- Only the inputs that the list names are set. -/
theorem setInputs_eq_self {n : Node β} {us : List Use} {id : Nat} (w : Value)
    (h : ∀ (i : Nat) (x : Value), n.inputs[i]? = some x → (⟨id, i⟩ : Use) ∉ us) :
    n.setInputs us id w = n := by
  have hin : (n.inputs.mapIdx fun i x => if (⟨id, i⟩ : Use) ∈ us then w else x) = n.inputs := by
    refine List.ext_getElem? fun i => ?_
    rw [List.getElem?_mapIdx]
    cases hx : n.inputs[i]? with
    | none => rfl
    | some x => simp [h i x hx]
  rw [setInputs, hin]

/-- The inputs that the list names are those that hold `v`. -/
theorem setInputs_eq_mapInputs {n : Node β} {us : List Use} {id : Nat} {v w : Value}
    (h : ∀ (i : Nat) (x : Value), n.inputs[i]? = some x → ((⟨id, i⟩ : Use) ∈ us ↔ x = v)) :
    n.setInputs us id w = n.mapInputs (Value.subst v w) := by
  have hin : (n.inputs.mapIdx fun i x => if (⟨id, i⟩ : Use) ∈ us then w else x) =
      n.inputs.map (Value.subst v w) := by
    refine List.ext_getElem? fun i => ?_
    rw [List.getElem?_mapIdx, List.getElem?_map]
    refine Option.map_congr fun x hx => ?_
    simp only [h i x hx, Value.subst]
  rw [setInputs, mapInputs, hin]

theorem setInputs_cons (n : Node β) (u : Use) (us : List Use) (id : Nat) (w : Value) :
    n.setInputs (u :: us) id w =
      (if id = u.node then { n with inputs := n.inputs.set u.input w } else n).setInputs us id w := by
  obtain ⟨node, input⟩ := u
  have h : n.inputs.mapIdx (fun i x => if (⟨id, i⟩ : Use) ∈ (⟨node, input⟩ : Use) :: us then w else x) =
      (if id = node then n.inputs.set input w else n.inputs).mapIdx
        fun i x => if (⟨id, i⟩ : Use) ∈ us then w else x := by
    refine List.ext_getElem? fun i => ?_
    split
    · next hid =>
      subst hid
      simp only [List.getElem?_mapIdx, List.getElem?_set, List.mem_cons, Use.mk.injEq, true_and]
      by_cases hi : input = i
      · subst hi
        by_cases hlt : input < n.inputs.length
        · simp [hlt]
        · simp [hlt]
      · simp [hi, Ne.symm hi]
    · next hid => simp [hid]
  simp only [setInputs, h]
  split <;> rfl

end Node

namespace Graph

variable {β : Type} {g : Graph β}

/-! ### Rewiring a list of uses -/

/-- Rewiring a list of uses sets exactly the inputs that they name. -/
theorem slot?_redirectUses (v w : Value) (us : List Use) (g : Graph β) (id : Nat) :
    (redirectUses v w us g).2.slot? id =
      (g.slot? id).map fun s => { s with node := s.node.setInputs us id w } := by
  induction us generalizing g with
  | nil =>
    cases hs : g.slot? id with
    | none => simp [redirectUses, hs]
    | some s => simp [redirectUses, hs, Node.setInputs_eq_self w fun _ _ _ => List.not_mem_nil]
  | cons u us ih =>
    simp only [redirectUses, Node.setInputs_cons]
    cases hu : g.input? u with
    | none =>
      rw [ih]
      cases hs : g.slot? id with
      | none => rfl
      | some s =>
        by_cases hid : id = u.node
        · have hin : s.node.inputs.length ≤ u.input := by
            subst hid
            simpa [input?, node?, hs] using hu
          simp [hid, List.set_eq_of_length_le hin]
        · simp [hid]
    | some x =>
      simp only [ih, slot?_rewire]
      by_cases hid : id = u.node
      · simp only [hid, ↓reduceIte, Option.map_map]
        rfl
      · simp [hid]

theorem WellKept.redirectUses {v w : Value} {us : List Use} (hus : us.Nodup)
    (h : g.WellKept) (hr : ∀ u ∈ us, g.Reads u v) : (redirectUses v w us g).2.WellKept := by
  induction us generalizing g with
  | nil => exact h
  | cons u us ih =>
    obtain ⟨hu, hus⟩ := List.nodup_cons.1 hus
    have hread := hr u List.mem_cons_self
    have hin := h.indexed.input?_of_mem ((h.indexed.mem_uses v u).2 hread)
    simp only [redirectUses, hin]
    refine ih hus (h.rewire hread w) fun u' hu' => ?_
    rw [reads_rewire hread, if_neg (by rintro rfl; exact hu hu')]
    exact hr u' (List.mem_cons_of_mem _ hu')

/-- What rewiring a single use leaves alone is left alone by rewiring a list of uses. -/
theorem redirectUses_eq_of_rewire {α : Type} {f : Graph β → α}
    (hf : ∀ (g : Graph β) (u : Use) (v w : Value), f (g.rewire u v w) = f g) (v w : Value)
    (us : List Use) (g : Graph β) : f (redirectUses v w us g).2 = f g := by
  induction us generalizing g with
  | nil => rfl
  | cons u us ih =>
    simp only [redirectUses]
    cases g.input? u with
    | none => exact ih g
    | some x => exact (ih _).trans (hf g u v w)

theorem outputs_redirectUses (v w : Value) (us : List Use) (g : Graph β) :
    (redirectUses v w us g).2.outputs = g.outputs :=
  redirectUses_eq_of_rewire (fun _ _ _ _ => rfl) v w us g

theorem length_slots_redirectUses (v w : Value) (us : List Use) (g : Graph β) :
    (redirectUses v w us g).2.slots.length = g.slots.length :=
  redirectUses_eq_of_rewire (f := fun g => g.slots.length)
    (fun g u v w => by simp [rewire, modifyNode]) v w us g

theorem order_redirectUses (v w : Value) (us : List Use) (g : Graph β) :
    (redirectUses v w us g).2.order = g.order :=
  redirectUses_eq_of_rewire (fun _ _ _ _ => rfl) v w us g

/-! ### Redirecting a value -/

theorem slot?_redirect_eq (v w : Value) (hvw : v ≠ w) (g : Graph β) (id : Nat) :
    (g.redirect v w).2.slot? id =
      (redirectUses v w ((g.uses v).filter (·.node != w.node)) g).2.slot? id := by
  simp only [redirect, hvw, ↓reduceIte]
  rfl

/-- A live node other than the producer of `w` reads `w` where it read `v`; all other nodes stay as
they are. -/
theorem slot?_redirect (h : g.Indexed) (v w : Value) (id : Nat) :
    (g.redirect v w).2.slot? id =
      (g.slot? id).map fun s =>
        if s.eliminated = true ∨ id = w.node then s
        else { s with node := s.node.mapInputs (Value.subst v w) } := by
  by_cases hvw : v = w
  · subst hvw
    have hsub : Value.subst v v = fun x => x := funext fun x => Value.subst_self v x
    simp [redirect, hsub]
  · rw [slot?_redirect_eq v w hvw, slot?_redirectUses]
    refine Option.map_congr fun s hs => ?_
    -- Among the inputs of slot `id`, the redirected uses are those of a live node that hold `v`.
    have hmem : ∀ (i : Nat) (x : Value), s.node.inputs[i]? = some x →
        ((⟨id, i⟩ : Use) ∈ (g.uses v).filter (·.node != w.node) ↔
          s.eliminated = false ∧ id ≠ w.node ∧ x = v) := by
      intro i x hx
      rw [List.mem_filter, h.mem_uses, Reads]
      constructor
      · rintro ⟨⟨n, hn, hv⟩, hid⟩
        obtain ⟨t, ht, he, rfl⟩ := live?_eq_some.1 hn
        obtain rfl : s = t := Option.some.inj (hs.symm.trans ht)
        exact ⟨he, by simpa using hid, Option.some.inj (hx.symm.trans hv)⟩
      · rintro ⟨he, hid, rfl⟩
        exact ⟨⟨s.node, live?_of_slot? hs he, hx⟩, by simpa using hid⟩
    split
    · next hc =>
      rw [Node.setInputs_eq_self w fun i x hx hm => ?_]
      obtain ⟨he, hid, -⟩ := (hmem i x hx).1 hm
      exact hc.elim (fun h => by simp [he] at h) hid
    · next hc =>
      obtain ⟨he, hid⟩ := not_or.1 hc
      rw [Node.setInputs_eq_mapInputs fun i x hx => ?_]
      rw [hmem i x hx]
      simp [he, hid]

/-- Of live nodes the index lists exactly the reads.  It may list uses of other nodes, too. -/
def IndexesLive (g : Graph β) : Prop :=
  ∀ (u : Use) (v : Value) (n : Node β), g.live? u.node = some n → (u ∈ g.uses v ↔ g.Reads u v)

theorem Indexed.live (h : g.Indexed) : g.IndexesLive :=
  fun u v _ _ => h.mem_uses v u

theorem live?_redirect (h : g.IndexesLive) (v w : Value) (id : Nat) :
    (g.redirect v w).2.live? id =
      (g.live? id).map fun n =>
        if id = w.node then n else n.mapInputs (Value.subst v w) := by
  by_cases hvw : v = w
  · subst hvw
    have hsub : Value.subst v v = fun x => x := funext fun x => Value.subst_self v x
    simp [redirect, hsub]
  · rw [live?_eq_bind, slot?_redirect_eq v w hvw, slot?_redirectUses]
    cases hs : g.slot? id with
    | none => simp [live?_eq_bind, hs]
    | some s =>
      cases he : s.eliminated with
      | true => simp [live?_eq_bind, hs, he]
      | false =>
        have hn : g.live? id = some s.node := live?_of_slot? hs he
        simp only [hn, Option.map_some, Option.bind_some, he, Bool.false_eq_true, ↓reduceIte,
          Option.some.injEq]
        by_cases hid : id = w.node
        · rw [if_pos hid, Node.setInputs_eq_self]
          exact fun i x _ hmem => by simp [hid] at hmem
        · rw [if_neg hid, Node.setInputs_eq_mapInputs]
          intro i x hx
          rw [List.mem_filter, h _ v _ hn, Reads, hn]
          simp [hid, hx]

theorem outputs_redirect (g : Graph β) (v w : Value) :
    (g.redirect v w).2.outputs = g.outputs.map (Value.subst v w) := by
  unfold redirect
  split
  · next h =>
    subst h
    have hsub : Value.subst v v = fun x => x := funext fun x => Value.subst_self v x
    simp [hsub]
  · exact congrArg (List.map (Value.subst v w)) (outputs_redirectUses _ _ _ _)

theorem length_slots_redirect (g : Graph β) (v w : Value) :
    (g.redirect v w).2.slots.length = g.slots.length := by
  unfold redirect
  split
  · rfl
  · exact length_slots_redirectUses _ _ _ _

theorem order_redirect (g : Graph β) (v w : Value) : (g.redirect v w).2.order = g.order := by
  unfold redirect
  split
  · rfl
  · exact order_redirectUses _ _ _ _

/-- After a redirection a use outside the node of `w` reads the substituted value. -/
theorem reads_redirect (h : g.IndexesLive) (v w : Value) {u : Use} {x : Value} :
    (g.redirect v w).2.Reads u x ↔
      if u.node = w.node then g.Reads u x else ∃ y, g.Reads u y ∧ Value.subst v w y = x := by
  unfold Reads
  simp only [live?_redirect h]
  cases hn : g.live? u.node with
  | none => simp
  | some n =>
    split
    · simp
    · simp [Node.mapInputs]

theorem WellKept.redirect (h : g.WellKept) (v w : Value) : (g.redirect v w).2.WellKept := by
  by_cases hvw : v = w
  · simpa [Graph.redirect, hvw] using h
  · have hk := WellKept.redirectUses (w := w) ((h.indexed.nodup v).filter (·.node != w.node)) h
      fun u hu => (h.indexed.mem_uses v u).1 (List.mem_filter.1 hu).1
    simp only [Graph.redirect, hvw, ↓reduceIte]
    exact ⟨hk.numbered, ⟨hk.ordered.nodup, hk.ordered.mem_iff⟩,
      ⟨hk.indexed.tight, hk.indexed.nodup, hk.indexed.mem_uses⟩⟩

end Graph

end Dataflow
