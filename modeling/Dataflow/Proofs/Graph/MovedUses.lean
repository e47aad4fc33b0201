import Dataflow.Proofs.Graph.Redirect

/-!
# The uses that a redirection moves

Redirecting `v` to `w` rewires the uses of `v` one after the other, while the index that lists them
changes with every one.  No use is missed and none is moved twice: afterwards the uses of `w` are
the old ones, followed by the moved ones in their old order, and `v` is left with the uses that the
producer of `w` makes of it.

## Main definitions

* `Graph.movedUses` : the uses that come to read another value.
* `Graph.Redirection` : what a redirection makes of a graph.

## Main statements

* `Graph.uses_redirectUses` : the uses after a list of uses has been rewired.
* `Graph.uses_redirect`, `Graph.redirect_fst` : the uses after a redirection, and how many readers
  have changed.
* `Graph.redirection_redirect` : the account of a redirection.
-/

namespace Dataflow

namespace Graph

variable {β : Type} {g : Graph β} {u : Use} {v w : Value}

/-! ### Rewired uses -/

theorem isSome_input?_rewire (g : Graph β) (u : Use) (v w : Value) (u' : Use) :
    ((g.rewire u v w).input? u').isSome = (g.input? u').isSome := by
  simp only [input?, node?, slot?_rewire]
  split
  · cases g.slot? u'.node with
    | none => rfl
    | some s =>
      rw [Bool.eq_iff_iff, Option.isSome_iff_ne_none, Option.isSome_iff_ne_none]
      simp
  · rfl

theorem redirectUses_fst {us : List Use}
    (hus : ∀ u ∈ us, (g.input? u).isSome = true) : (redirectUses v w us g).1 = us.length := by
  induction us generalizing g with
  | nil => rfl
  | cons u us ih =>
    obtain ⟨hu, hus⟩ := List.forall_mem_cons.1 hus
    obtain ⟨x, hx⟩ := Option.isSome_iff_exists.1 hu
    simp only [redirectUses, hx, List.length_cons]
    rw [ih fun u' hu' => (isSome_input?_rewire g u v w u').trans (hus u' hu')]

/-- Rewired uses leave the list of `v` and come, in their order, to the end of the list of `w`. -/
theorem uses_redirectUses (hvw : v ≠ w) {us : List Use}
    (hus : ∀ u ∈ us, (g.input? u).isSome = true) (x : Value) :
    (redirectUses v w us g).2.uses x =
      (if v = x then (g.uses x).filter (· ∉ us) else g.uses x) ++ if w = x then us else [] := by
  induction us generalizing g with
  | nil => simp [redirectUses]
  | cons u us ih =>
    obtain ⟨hu, hus⟩ := List.forall_mem_cons.1 hus
    obtain ⟨y, hy⟩ := Option.isSome_iff_exists.1 hu
    simp only [redirectUses, hy]
    rw [ih fun u' hu' => (isSome_input?_rewire g u v w u').trans (hus u' hu'), uses_rewire]
    by_cases hvx : v = x
    · have hwx : w ≠ x := fun hwx => hvw (hvx.trans hwx.symm)
      have hkept : ((g.uses x).filter (· != u)).filter (· ∉ us) =
          (g.uses x).filter (· ∉ u :: us) := by
        rw [List.filter_filter]
        refine List.filter_congr fun a _ => ?_
        rw [Bool.eq_iff_iff]
        simp [and_comm]
      simp only [hvx, hwx, ↓reduceIte, List.append_nil, hkept]
    · by_cases hwx : w = x <;> simp [hvx, hwx]

/-! ### Moved uses -/

/-- The uses that come to read `w` when `v` is redirected to it, in the order of the index. -/
def movedUses (g : Graph β) (v w : Value) : List Use :=
  (g.uses v).filter fun u => v ≠ w ∧ u.node ≠ w.node

theorem Indexed.mem_movedUses (h : g.Indexed) :
    u ∈ g.movedUses v w ↔ g.Reads u v ∧ v ≠ w ∧ u.node ≠ w.node := by
  rw [movedUses, List.mem_filter, h.mem_uses, decide_eq_true_eq]

theorem movedUses_of_ne (g : Graph β) (hvw : v ≠ w) :
    (g.uses v).filter (·.node != w.node) = g.movedUses v w := by
  refine List.filter_congr fun u _ => ?_
  rw [bne, Bool.eq_iff_iff]
  simp [hvw]

theorem movedUses_self (g : Graph β) (v : Value) : g.movedUses v v = [] := by
  simp [movedUses]

theorem Indexed.isSome_input?_of_mem_movedUses (h : g.Indexed) :
    ∀ u ∈ g.movedUses v w, (g.input? u).isSome = true := fun u hu => by
  rw [h.input?_of_mem (List.mem_filter.1 hu).1, Option.isSome_some]

/-- A use of a node that is stored. -/
theorem reads_iff_of_slot? {s : Slot β} (hs : g.slot? u.node = some s) :
    g.Reads u v ↔ s.eliminated = false ∧ s.node.inputs[u.input]? = some v := by
  rw [Reads, live?_eq_bind, hs]
  cases he : s.eliminated <;> simp [he]

/-- The uses that are moved are the inputs that change. -/
theorem Indexed.mem_movedUses_iff_ne (h : g.Indexed) (v w : Value) (u : Use) :
    u ∈ g.movedUses v w ↔ (g.redirect v w).2.input? u ≠ g.input? u := by
  rw [h.mem_movedUses, input?, input?, node?, node?, slot?_redirect h]
  cases hs : g.slot? u.node with
  | none =>
    refine iff_of_false (fun hmoved => ?_) (by simp)
    obtain ⟨n, hn, -⟩ := hmoved.1
    simp [live?, hs] at hn
  | some s =>
    rw [reads_iff_of_slot? hs]
    by_cases hfixed : s.eliminated = true ∨ u.node = w.node
    · refine iff_of_false (fun hmoved => ?_) (by simp [hfixed])
      exact hfixed.elim (by simp [hmoved.1.1]) hmoved.2.2
    · obtain ⟨he, hne⟩ := not_or.1 hfixed
      cases hx : s.node.inputs[u.input]? with
      | none => simp [hfixed, Node.mapInputs, hx]
      | some x =>
        have hchanged : Value.subst v w x ≠ x ↔ x = v ∧ v ≠ w := Value.subst_ne_self_iff
        simp [Node.mapInputs, hx, he, hne, hchanged]

/-- The moved uses leave the list of `v` and come to the end of the list of `w`. -/
theorem uses_redirect (h : ∀ u ∈ g.movedUses v w, (g.input? u).isSome = true) (x : Value) :
    (g.redirect v w).2.uses x =
      (if v = x then (g.uses x).filter (· ∉ g.movedUses v w) else g.uses x) ++
        if w = x then g.movedUses v w else [] := by
  by_cases hvw : v = w
  · subst hvw
    simp [redirect, movedUses_self]
  · rw [← uses_redirectUses hvw h x]
    simp only [redirect, hvw, ↓reduceIte, movedUses_of_ne g hvw]
    rfl

/-- Changed inputs and changed outputs are counted. -/
theorem redirect_fst (h : g.Indexed) (v w : Value) :
    (g.redirect v w).1 =
      (g.movedUses v w).length + g.outputs.countP fun o => Value.subst v w o ≠ o := by
  by_cases hvw : v = w
  · subst hvw
    simp [redirect, movedUses_self]
  · have hcount : g.outputs.countP (fun o => Value.subst v w o ≠ o) = g.outputs.count v :=
      List.countP_congr fun o _ => by simp [Value.subst_ne_self_iff, hvw]
    simp only [redirect, hvw, ↓reduceIte, movedUses_of_ne g hvw, outputs_redirectUses, hcount]
    rw [redirectUses_fst h.isSome_input?_of_mem_movedUses]

/-! ### The account of a redirection -/

/-- The graph `h` is the graph `g` with `w` in the place of `v`, and `count` readers of `v` have
changed. -/
structure Redirection (g : Graph β) (v w : Value) (count : Nat) (h : Graph β) : Prop where
  /-- Every live node but the producer of `w` holds `w` where it held `v`.  No slot changes in any
  other way. -/
  slot? : ∀ id, h.slot? id = (g.slot? id).map fun s =>
    if s.eliminated = true ∨ id = w.node then s
    else { s with node := s.node.mapInputs (Value.subst v w) }
  length_slots : h.slots.length = g.slots.length
  order : h.order = g.order
  outputs : h.outputs = g.outputs.map (Value.subst v w)
  /-- The moved uses are the inputs that have changed, each once. -/
  nodup_moved : (g.movedUses v w).Nodup
  mem_moved : ∀ u, u ∈ g.movedUses v w ↔ h.input? u ≠ g.input? u
  /-- Changed inputs and changed outputs are counted. -/
  count_eq : count =
    (g.movedUses v w).length + g.outputs.countP fun o => Value.subst v w o ≠ o
  /-- The uses of `w` are the old ones, and behind them the moved ones in their old order. -/
  uses_target : h.uses w = g.uses w ++ g.movedUses v w
  /-- The uses that `v` is left with are the inputs of the producer of `w` that hold it. -/
  uses_source : v ≠ w → h.uses v = (g.uses v).filter fun u => u.node = w.node
  mem_uses_source : v ≠ w → ∀ u, u ∈ h.uses v ↔ u.node = w.node ∧ h.Reads u v
  uses_other : ∀ x, x ≠ v → x ≠ w → h.uses x = g.uses x
  /-- A value in its own place changes nothing. -/
  self : v = w → count = 0 ∧ h = g

/-- **Redirecting is a substitution.**  In a graph with an exact index of uses, whatever the two
values are, everything that read `v` reads `w`, except in the node of `w` itself, and nothing else
changes. -/
theorem redirection_redirect (h : g.Indexed) (v w : Value) :
    g.Redirection v w (g.redirect v w).1 (g.redirect v w).2 := by
  have hkept : v ≠ w → ∀ u ∈ g.uses v, u ∉ g.movedUses v w ↔ u.node = w.node := fun hvw u hu => by
    rw [h.mem_movedUses, ← h.mem_uses]
    simp [hu, hvw]
  have hmoved := h.isSome_input?_of_mem_movedUses (v := v) (w := w)
  have hsource : v ≠ w → (g.redirect v w).2.uses v = (g.uses v).filter fun u => u.node = w.node :=
    fun hvw => by
      rw [uses_redirect hmoved, if_pos rfl, if_neg (Ne.symm hvw), List.append_nil]
      exact List.filter_congr fun u hu => by simp [hkept hvw u hu]
  constructor
  case slot? => exact slot?_redirect h v w
  case length_slots => exact length_slots_redirect g v w
  case order => exact order_redirect g v w
  case outputs => exact outputs_redirect g v w
  case nodup_moved => exact (h.nodup v).filter _
  case mem_moved => exact h.mem_movedUses_iff_ne v w
  case count_eq => exact redirect_fst h v w
  case uses_target =>
    rw [uses_redirect hmoved, if_pos rfl]
    split
    · next hvw =>
      subst hvw
      simp [movedUses_self]
    · rfl
  case uses_source => exact hsource
  case mem_uses_source =>
    intro hvw u
    rw [hsource hvw, List.mem_filter, h.mem_uses, decide_eq_true_eq, and_comm]
    exact and_congr_right fun hu => by rw [reads_redirect h.live, if_pos hu]
  case uses_other =>
    intro x hxv hxw
    rw [uses_redirect hmoved, if_neg (Ne.symm hxv), if_neg (Ne.symm hxw), List.append_nil]
  case self =>
    rintro rfl
    simp [redirect]

/-! ### A value that is read in many ways -/

/-- The first value is read twice by a sum, by a rectifier whose own value has a reader, and as an
output. -/
def manyReadersSpecs : List (NodeSpec Unit) :=
  [{ op := .parameter, outputs := [.planar (.ofLengths [2]) .f32] },
    { op := .add, inputs := [⟨0, 0⟩, ⟨0, 0⟩], outputs := [.planar (.ofLengths [2]) .f32] },
    { op := .relu, inputs := [⟨0, 0⟩], outputs := [.planar (.ofLengths [2]) .f32] },
    { op := .relu, inputs := [⟨2, 0⟩], outputs := [.planar (.ofLengths [2]) .f32] }]

/-- Both uses by the sum and the output of the graph are moved, and the rectifier that makes the new
value still reads the old one. -/
theorem redirection_manyReaders :
    let g := ofSpecs manyReadersSpecs [⟨3, 0⟩, ⟨0, 0⟩]
    let h := (g.redirect ⟨0, 0⟩ ⟨2, 0⟩).2
    g.Indexed ∧ g.Redirection ⟨0, 0⟩ ⟨2, 0⟩ 3 h ∧ h.outputs = [⟨3, 0⟩, ⟨2, 0⟩] ∧
      h.uses ⟨2, 0⟩ = [⟨3, 0⟩, ⟨1, 0⟩, ⟨1, 1⟩] ∧ h.uses ⟨0, 0⟩ = [⟨2, 0⟩] := by
  obtain ⟨hk, -, -⟩ := ofSpecs_sound manyReadersSpecs [⟨3, 0⟩, ⟨0, 0⟩] (by decide +kernel)
    (by decide +kernel)
  exact ⟨hk.indexed, redirection_redirect hk.indexed ⟨0, 0⟩ ⟨2, 0⟩, by decide +kernel,
    by decide +kernel, by decide +kernel⟩

end Graph

end Dataflow
