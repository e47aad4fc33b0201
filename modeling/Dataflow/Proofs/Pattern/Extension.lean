import Dataflow.Proofs.Pattern.Embedding

/-!
# What the search adds to an assignment

The search for an embedding keeps its assignment in order: every value fits its pattern node, and
the owners, the listed nodes and the labels are those of the assigned values.  Searching at a
pattern node adds that node with its value and what is reached from it, and nothing else.

## Main definitions

* `MatchState.Tracks` : an assignment in order.
* `MatchState.Extension` : what the search adds.

## Main statements

* `MatchState.Tracks.assign` : giving a pattern node its value keeps an assignment in order.
* `MatchState.Extension.cons`, `MatchState.Extension.of_assign` : several searches in turn, and the
  search at the inputs of a pattern node.
-/

namespace Dataflow

variable {β : Type}

namespace MatchState

variable {p : Pattern β} {g : Graph β} {e : PatternNode β} {n : Node β} {s s' t : MatchState}
  {i k : Nat} {v w : Value}

@[simp] theorem get?_assign :
    (s.assign e i v n).get? k = if k = i then some v else s.get? k := by
  unfold assign
  rw [get?_bind]
  split
  · rfl
  · split <;> rfl

/-- What an assignment says about the values is right: they fit, the owners and the listed nodes are
those of the values found through their operation, and a label leads to a value that has it. -/
structure Tracks (p : Pattern β) (g : Graph β) (s : MatchState) : Prop where
  fits : ∀ ⦃i v⦄, s.get? i = some v → ∃ e, p.node? i = some e ∧ e.Fits g v
  owners : ∀ v i, s.owners.lookup v = some i ↔ s.get? i = some v ∧ p.Owns g i v
  mem_nodes : ∀ id, id ∈ s.nodes ↔ ∃ i v, s.get? i = some v ∧ p.Owns g i v ∧ v.node = id
  nodup_nodes : s.nodes.Nodup
  nodup_bindings : (s.bindings.map Prod.fst).Nodup
  label : ∀ ⦃name v⦄, s.labels.lookup name = some v →
    ∃ i e, s.get? i = some v ∧ p.node? i = some e ∧ e.label = some name
  labelled : ∀ ⦃i v e name⦄, s.get? i = some v → p.node? i = some e → e.label = some name →
    (s.labels.lookup name).isSome

theorem Tracks.empty : Tracks p g {} := by
  constructor <;> simp [get?]

theorem not_mem_bindings_of_get? (h : s.get? i = none) : i ∉ s.bindings.map Prod.fst := by
  intro hi
  obtain ⟨⟨k, w⟩, hmem, rfl⟩ := List.mem_map.1 hi
  simpa using List.lookup_eq_none_iff.1 h (k, w) hmem

theorem lookup_owners_assign : (s.assign e i v n).owners.lookup w =
    if e.owns n = true ∧ w = v then some i else s.owners.lookup w := by
  unfold assign
  split
  · next h => simp only [owners_bind, lookup_own, h, true_and]
  · next h => rw [owners_bind, if_neg fun h' => h h'.1]

theorem lookup_labels_assign {name : String} : (s.assign e i v n).labels.lookup name =
    if e.label = some name then some v else s.labels.lookup name := by
  have hlabels : (s.assign e i v n).labels = (e.label.map (·, v)).toList ++ s.labels := by
    unfold assign
    split <;> rfl
  rw [hlabels]
  cases e.label with
  | none => rfl
  | some l =>
    by_cases hl : name = l
    · simp [hl]
    · have hbeq : (name == l) = false := beq_false_of_ne hl
      simp [List.lookup_cons, hbeq, Ne.symm hl]

theorem bindings_assign : (s.assign e i v n).bindings = (i, v) :: s.bindings := by
  unfold assign
  split <;> rfl

theorem mem_nodes_assign {id : Nat} :
    id ∈ (s.assign e i v n).nodes ↔ id ∈ s.nodes ∨ e.owns n = true ∧ id = v.node := by
  unfold assign
  split
  · next h => rw [nodes_bind, mem_own, h]; simp
  · next h => simp [h]

theorem nodes_prefix_assign : s.nodes <+: (s.assign e i v n).nodes := by
  unfold assign own
  split
  · rw [nodes_bind]
    dsimp only
    split
    · exact List.prefix_rfl
    · exact List.prefix_append _ _
  · exact List.prefix_rfl

/-- A value that fits can be assigned to a pattern node that has none, if no other owns it. -/
theorem Tracks.assign (h : Tracks p g s) (hget : s.get? i = none) (he : p.node? i = some e)
    (hn : g.source? v = some n) (ha : e.accepts g v = true) (hf : e.FitsNode g n)
    (ho : e.owns n = true → s.owners.lookup v = none) : Tracks p g (s.assign e i v n) := by
  have howns : p.Owns g i v ↔ e.owns n = true := by
    simp [Pattern.Owns, he, hn]
  have hne : ∀ ⦃k w⦄, s.get? k = some w → k ≠ i := by
    rintro k w hk rfl
    exact absurd (hget.symm.trans hk) (by simp)
  constructor
  case fits =>
    intro k w hk
    rw [get?_assign] at hk
    split at hk
    · next hki =>
      obtain rfl := Option.some.inj hk
      exact hki ▸ ⟨e, he, n, hn, ha, hf⟩
    · exact h.fits hk
  case owners =>
    intro w k
    rw [lookup_owners_assign, get?_assign]
    by_cases hki : k = i
    · subst hki
      rw [if_pos rfl]
      constructor
      · intro hk
        split at hk
        · next hown => exact ⟨congrArg some hown.2.symm, hown.2 ▸ howns.2 hown.1⟩
        · exact absurd rfl (hne ((h.owners w k).1 hk).1)
      · rintro ⟨hw, hko⟩
        obtain rfl := Option.some.inj hw
        rw [if_pos ⟨howns.1 hko, rfl⟩]
    · rw [if_neg hki, ← h.owners]
      split
      · next hown =>
        rw [hown.2, ho hown.1]
        simp [Ne.symm hki]
      · rfl
  case mem_nodes =>
    intro id
    rw [mem_nodes_assign, h.mem_nodes]
    constructor
    · rintro (⟨k, w, hk, hko, rfl⟩ | ⟨hown, rfl⟩)
      · exact ⟨k, w, by rw [get?_assign, if_neg (hne hk), hk], hko, rfl⟩
      · exact ⟨i, v, by simp, howns.2 hown, rfl⟩
    · rintro ⟨k, w, hk, hko, rfl⟩
      rw [get?_assign] at hk
      split at hk
      · next hki =>
        obtain rfl := Option.some.inj hk
        exact .inr ⟨howns.1 (hki ▸ hko), rfl⟩
      · exact .inl ⟨k, w, hk, hko, rfl⟩
  case nodup_nodes =>
    unfold MatchState.assign
    split
    · exact nodup_own h.nodup_nodes i v
    · exact h.nodup_nodes
  case nodup_bindings =>
    rw [bindings_assign, List.map_cons]
    exact List.nodup_cons.2 ⟨not_mem_bindings_of_get? hget, h.nodup_bindings⟩
  case label =>
    intro name w hw
    rw [lookup_labels_assign] at hw
    split at hw
    · next hlabel =>
      obtain rfl := Option.some.inj hw
      exact ⟨i, e, by simp, he, hlabel⟩
    · obtain ⟨k, f, hk, hf, hl⟩ := h.label hw
      exact ⟨k, f, by rw [get?_assign, if_neg (hne hk), hk], hf, hl⟩
  case labelled =>
    intro k w f name hk hf hl
    rw [lookup_labels_assign]
    rw [get?_assign] at hk
    split at hk
    · next hki =>
      obtain rfl : e = f := Option.some.inj (he.symm.trans (hki ▸ hf))
      rw [if_pos hl]
      rfl
    · split
      · rfl
      · exact h.labelled hk hf hl

/-- What the search at some pattern nodes, each with its value, adds to an assignment: they get
their values, whatever else is new is reached from them, and it is complete. -/
structure Extension (p : Pattern β) (g : Graph β) (l : List (Nat × Value))
    (s s' : MatchState) : Prop where
  tracks : Tracks p g s'
  keeps : ∀ ⦃k w⦄, s.get? k = some w → s'.get? k = some w
  starts : ∀ q ∈ l, s'.get? q.1 = some q.2
  reached : ∀ ⦃k w⦄, s'.get? k = some w → s.get? k = none → ∃ q ∈ l, p.Reaches g q.1 q.2 k w
  closed : ∀ ⦃k w e n j u⦄, s'.get? k = some w → s.get? k = none → p.node? k = some e →
    g.source? w = some n → (j, u) ∈ e.childSteps w n → s'.get? j = some u
  nodes_prefix : s.nodes <+: s'.nodes

theorem Extension.refl (h : Tracks p g s) {l : List (Nat × Value)}
    (hl : ∀ q ∈ l, s.get? q.1 = some q.2) : Extension p g l s s where
  tracks := h
  keeps _ _ hk := hk
  starts := hl
  reached k w hk hnone := absurd (hk.symm.trans hnone) (by simp)
  closed k w e n j u hk hnone := absurd (hk.symm.trans hnone) (by simp)
  nodes_prefix := List.prefix_rfl

/-- One start after the other. -/
theorem Extension.cons {q : Nat × Value} {l : List (Nat × Value)} (h : Extension p g [q] s t)
    (h' : Extension p g l t s') : Extension p g (q :: l) s s' where
  tracks := h'.tracks
  keeps _ _ hk := h'.keeps (h.keeps hk)
  starts := by
    intro r hr
    obtain rfl | hr := List.mem_cons.1 hr
    · exact h'.keeps (h.starts _ (List.mem_singleton.2 rfl))
    · exact h'.starts r hr
  reached := by
    intro k w hk hnone
    cases ht : t.get? k with
    | none =>
      obtain ⟨r, hr, hreach⟩ := h'.reached hk ht
      exact ⟨r, List.mem_cons_of_mem _ hr, hreach⟩
    | some w' =>
      obtain rfl : w' = w := Option.some.inj ((h'.keeps ht).symm.trans hk)
      obtain ⟨r, hr, hreach⟩ := h.reached ht hnone
      exact ⟨r, List.mem_cons.2 (.inl (List.mem_singleton.1 hr)), hreach⟩
  closed := by
    intro k w e n j u hk hnone he hn hu
    cases ht : t.get? k with
    | none => exact h'.closed hk ht he hn hu
    | some w' =>
      obtain rfl : w' = w := Option.some.inj ((h'.keeps ht).symm.trans hk)
      exact h'.keeps (h.closed ht hnone he hn hu)
  nodes_prefix := h.nodes_prefix.trans h'.nodes_prefix

/-- The inputs of a pattern node after the node itself. -/
theorem Extension.of_assign (hget : s.get? i = none) (he : p.node? i = some e)
    (hn : g.source? v = some n)
    (h : Extension p g (e.childSteps v n) (s.assign e i v n) s') :
    Extension p g [(i, v)] s s' := by
  have hhere : s'.get? i = some v := h.keeps (by simp)
  have hold : ∀ ⦃k⦄, k ≠ i → s.get? k = none → (s.assign e i v n).get? k = none :=
    fun k hk hnone => by rw [get?_assign, if_neg hk, hnone]
  constructor
  case tracks => exact h.tracks
  case keeps =>
    intro k w hk
    refine h.keeps ?_
    rw [get?_assign, if_neg ?_, hk]
    rintro rfl
    exact absurd (hget.symm.trans hk) (by simp)
  case starts => simpa using hhere
  case reached =>
    intro k w hk hnone
    refine ⟨(i, v), List.mem_singleton.2 rfl, ?_⟩
    by_cases hki : k = i
    · subst hki
      obtain rfl : v = w := Option.some.inj (hhere.symm.trans hk)
      exact .refl
    · obtain ⟨q, hq, hreach⟩ := h.reached hk (hold hki hnone)
      exact (Pattern.Reaches.step .refl he hn hq).trans hreach
  case closed =>
    intro k w f m j u hk hnone hf hm hu
    by_cases hki : k = i
    · subst hki
      obtain rfl : v = w := Option.some.inj (hhere.symm.trans hk)
      obtain rfl : e = f := Option.some.inj (he.symm.trans hf)
      obtain rfl : n = m := Option.some.inj (hn.symm.trans hm)
      exact h.starts _ hu
    · exact h.closed hk (hold hki hnone) hf hm hu
  case nodes_prefix => exact nodes_prefix_assign.trans h.nodes_prefix

end MatchState

end Dataflow
