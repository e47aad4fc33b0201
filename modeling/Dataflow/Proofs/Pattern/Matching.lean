import Dataflow.Proofs.Pattern.Extension

/-!
# Matches are embeddings

There is a match at a value exactly when following the inputs from the last pattern node gives an
embedding of the pattern, and the match is that embedding.

## Main definitions

* `Match.Agrees` : a match lists a relation between pattern nodes and values.

## Main statements

* `Pattern.extension_of_embed`, `Pattern.embed_of_isEmbedding` : the search finds nothing else, and
  it finds every embedding.
* `Pattern.agrees_of_matchValue`, `Pattern.isEmbedding_of_matchValue`,
  `Pattern.exists_matchValue` : the matches at a value.
* `Pattern.matchValue_iff_isEmbedding` : both directions.
-/

namespace Dataflow

variable {β : Type}

/-! ### The search and the embeddings -/

namespace Pattern

open MatchState

variable {p : Pattern β} {g : Graph β} {i : Nat} {v : Value} {s s' : MatchState}

private theorem extension_of_embedAll {f : Nat → Value → MatchState → Option MatchState}
    {l : List (Nat × Value)}
    (hf : ∀ q ∈ l, ∀ s s', f q.1 q.2 s = some s' → Tracks p g s → Extension p g [q] s s')
    (h : embedAll f l s = some s') (hs : Tracks p g s) : Extension p g l s s' := by
  induction l generalizing s with
  | nil =>
    obtain rfl := Option.some.inj h
    exact .refl hs (by simp)
  | cons q l ih =>
    obtain ⟨t, ht, hrest⟩ := Option.bind_eq_some_iff.1 h
    have hfirst := hf q List.mem_cons_self s t ht hs
    exact hfirst.cons
      (ih (fun r hr => hf r (List.mem_cons_of_mem _ hr)) hrest hfirst.tracks)

private theorem extension_assign (hp : p.WellFormed) {e : PatternNode β}
    (he : p.node? i = some e) (hget : s.get? i = none) (hs : Tracks p g s)
    (h : embed g p.nodes i v s = some s')
    (hf : ∀ j < i, ∀ w t t', embed g p.nodes j w t = some t' → Tracks p g t →
      Extension p g [(j, w)] t t') :
    ∃ n, g.source? v = some n ∧ Extension p g (e.childSteps v n) (s.assign e i v n) s' := by
  have howner : s.owners.lookup v ≠ some i := fun ho =>
    absurd (((hs.owners v i).1 ho).1.symm.trans hget) (by simp)
  obtain ⟨n, hn, ha, hfit, ho, hall⟩ := (embed_eq_some hp he hget howner).1 h
  refine ⟨n, hn, extension_of_embedAll ?_ hall (hs.assign hget he hn ha hfit ho)⟩
  exact fun q hq t t' ht => hf q.1 (hp.2 i e he q.1 (mem_inputs_of_mem_childSteps hq)) q.2 t t' ht

/-- The search adds to an assignment only what it has to. -/
theorem extension_of_embed (hp : p.WellFormed) (hi : i < p.nodes.length)
    (h : embed g p.nodes i v s = some s') (hs : Tracks p g s) : Extension p g [(i, v)] s s' := by
  -- The inputs of a pattern node have smaller numbers.
  induction i using Nat.strongRecOn generalizing v s s' with
  | ind i ih =>
    obtain ⟨e, he⟩ := Option.isSome_iff_exists.1 (node?_isSome.2 hi)
    cases hget : s.get? i with
    | some w =>
      rw [embed_eq hp g he, hget] at h
      dsimp only at h
      split at h
      · next hw =>
        obtain rfl := Option.some.inj h
        exact .refl hs (by simp [hget, hw])
      · simp at h
    | none =>
      obtain ⟨n, hn, hext⟩ := extension_assign hp he hget hs h
        fun j hj w t t' ht => ih j hj (Nat.lt_trans hj hi) ht
      exact .of_assign hget he hn hext

/-- A relation that leads on with the inputs of the pattern nodes. -/
def StepsClosed (p : Pattern β) (g : Graph β) (R : Nat → Value → Prop) : Prop :=
  ∀ ⦃i v e n j w⦄, R i v → p.node? i = some e → g.source? v = some n →
    (j, w) ∈ e.childSteps v n → R j w

theorem StepsClosed.of_reaches {R : Nat → Value → Prop} (hR : p.StepsClosed g R) {j : Nat}
    {w : Value} (h : p.Reaches g i v j w) (hv : R i v) : R j w := by
  induction h with
  | refl => exact hv
  | step _ he hn hu ih => exact hR ih he hn hu

private theorem embedAll_of_relation {R : Nat → Value → Prop} (hR : p.StepsClosed g R)
    {f : Nat → Value → MatchState → Option MatchState} {l : List (Nat × Value)}
    (hf : ∀ q ∈ l, ∀ s, R q.1 q.2 → Tracks p g s → (∀ k w, s.get? k = some w → R k w) →
      ∃ s', f q.1 q.2 s = some s' ∧ Extension p g [q] s s')
    (hl : ∀ q ∈ l, R q.1 q.2) (hs : Tracks p g s) (hsR : ∀ k w, s.get? k = some w → R k w) :
    ∃ s', embedAll f l s = some s' := by
  induction l generalizing s with
  | nil => exact ⟨s, rfl⟩
  | cons q l ih =>
    have hq := hl q List.mem_cons_self
    obtain ⟨t, ht, hext⟩ := hf q List.mem_cons_self s hq hs hsR
    have htR : ∀ k w, t.get? k = some w → R k w := by
      intro k w hk
      cases hsk : s.get? k with
      | none =>
        obtain ⟨r, hr, hreach⟩ := hext.reached hk hsk
        obtain rfl := List.mem_singleton.1 hr
        exact hR.of_reaches hreach hq
      | some w' =>
        obtain rfl : w' = w := Option.some.inj ((hext.keeps hsk).symm.trans hk)
        exact hsR k w' hsk
    obtain ⟨s', hs'⟩ := ih (fun r hr => hf r (List.mem_cons_of_mem _ hr))
      (fun r hr => hl r (List.mem_cons_of_mem _ hr)) hext.tracks htR
    exact ⟨s', by simp only [embedAll, ht, Option.bind_some, hs']⟩

/-- The search succeeds within every embedding that leads on with the inputs. -/
theorem embed_of_isEmbedding (hp : p.WellFormed) {R : Nat → Value → Prop}
    (hR : p.IsEmbedding g R) (hstep : p.StepsClosed g R) (hv : R i v) (hs : Tracks p g s)
    (hsR : ∀ k w, s.get? k = some w → R k w) : ∃ s', embed g p.nodes i v s = some s' := by
  induction i using Nat.strongRecOn generalizing v s with
  | ind i ih =>
    obtain ⟨e, he, n, hn, ha, hf⟩ := hR.fits hv
    cases hget : s.get? i with
    | some w =>
      refine ⟨s, ?_⟩
      rw [embed_eq hp g he, hget]
      exact if_pos (hR.functional (hsR i w hget) hv)
    | none =>
      have howner : s.owners.lookup v ≠ some i := fun ho =>
        absurd (((hs.owners v i).1 ho).1.symm.trans hget) (by simp)
      -- No other pattern node owns the value, because the embedding would give it two owners.
      have hfree : e.owns n = true → s.owners.lookup v = none := by
        intro hown
        cases hlook : s.owners.lookup v with
        | none => rfl
        | some k =>
          obtain ⟨hk, hko⟩ := (hs.owners v k).1 hlook
          exact absurd (hR.owned_once (hsR k v hk) hv hko ⟨e, n, he, hn, hown⟩ ▸ hlook) howner
      have hassign := hs.assign hget he hn ha hf hfree
      have hassignR : ∀ k w, (s.assign e i v n).get? k = some w → R k w := by
        intro k w hk
        rw [get?_assign] at hk
        split at hk
        · next hki => exact hki ▸ Option.some.inj hk ▸ hv
        · exact hsR k w hk
      have hsearch : ∀ q ∈ e.childSteps v n, ∀ t, R q.1 q.2 → Tracks p g t →
          (∀ k w, t.get? k = some w → R k w) →
          ∃ t', embed g p.nodes q.1 q.2 t = some t' ∧ Extension p g [q] t t' := by
        intro q hq t htR ht htsR
        have hlt : q.1 < i := hp.2 i e he q.1 (mem_inputs_of_mem_childSteps hq)
        obtain ⟨t', ht'⟩ := ih q.1 hlt htR ht htsR
        obtain ⟨f, hf', -⟩ := hR.fits htR
        exact ⟨t', ht', extension_of_embed hp (node?_isSome.1 (by simp [hf'])) ht' ht⟩
      obtain ⟨s', hs'⟩ := embedAll_of_relation hstep hsearch
        (fun q hq => hstep hv he hn hq) hassign hassignR
      exact ⟨s', (embed_eq_some hp he hget howner).2 ⟨n, hn, ha, hf, hfree, hs'⟩⟩

/-! ### The match at a value -/

end Pattern

/-- The match lists a relation between pattern nodes and values: its values are those of the
relation, each pattern node once and all that the last one refers to; its graph nodes are those of
the values found through their operation, each once and that of the last pattern node first; and its
labels lead to values of pattern nodes that have them. -/
structure Match.Agrees (m : Match) (p : Pattern β) (g : Graph β) (R : Nat → Value → Prop) :
    Prop where
  get? : ∀ i v, m.get? i = some v ↔ R i v
  below : ∀ i, (m.get? i).isSome ↔ p.Below i
  nodup_bindings : (m.bindings.map Prod.fst).Nodup
  mem_nodes : ∀ id, id ∈ m.nodes ↔ ∃ i v, R i v ∧ p.Owns g i v ∧ v.node = id
  nodup_nodes : m.nodes.Nodup
  head_nodes : p.Owns g p.root m.root → m.nodes.head? = some m.root.node
  label : ∀ name v, m.label? name = some v →
    ∃ i e, R i v ∧ p.node? i = some e ∧ e.label = some name
  labelled : ∀ i v e name, R i v → p.node? i = some e → e.label = some name →
    (m.label? name).isSome

namespace Pattern

open MatchState

variable {p : Pattern β} {g : Graph β} {v : Value} {s' : MatchState}

/-- A search from the empty assignment assigns what is reached from the last pattern node. -/
private theorem get?_embed_root (h : Extension p g [(p.root, v)] {} s') (i : Nat) (w : Value) :
    s'.get? i = some w ↔ p.Reaches g p.root v i w := by
  constructor
  · intro hi
    obtain ⟨q, hq, hreach⟩ := h.reached hi (by simp [MatchState.get?])
    obtain rfl := List.mem_singleton.1 hq
    exact hreach
  · intro hreach
    induction hreach with
    | refl => exact h.starts _ (List.mem_singleton.2 rfl)
    | step _ he hn hu ih => exact h.closed ih (by simp [MatchState.get?]) he hn hu

private theorem isEmbedding_of_tracks (h : Tracks p g s') :
    p.IsEmbedding g fun i w => s'.get? i = some w where
  functional _ _ _ hv hw := Option.some.inj (hv.symm.trans hw)
  fits _ _ hv := h.fits hv
  owned_once i j v hi hj hoi hoj :=
    Option.some.inj (((h.owners v i).2 ⟨hi, hoi⟩).symm.trans ((h.owners v j).2 ⟨hj, hoj⟩))

private theorem below_iff (h : Extension p g [(p.root, v)] {} s') (i : Nat) :
    (s'.get? i).isSome ↔ p.Below i := by
  constructor
  · intro hi
    obtain ⟨w, hw⟩ := Option.isSome_iff_exists.1 hi
    have hreach := (get?_embed_root h i w).1 hw
    clear hi hw
    induction hreach with
    | refl => exact .root
    | step _ he _ hu ih => exact ih.input he (mem_inputs_of_mem_childSteps hu)
  · intro hi
    induction hi with
    | root => simp [h.starts _ (List.mem_singleton.2 rfl)]
    | input _ he hj ih =>
      obtain ⟨w, hw⟩ := Option.isSome_iff_exists.1 ih
      obtain ⟨e, he', n, hn, -, hfit⟩ := h.tracks.fits hw
      obtain rfl := Option.some.inj (he.symm.trans he')
      obtain ⟨u, hu⟩ := exists_mem_childSteps hfit hj w
      simp [h.closed hw (by simp [MatchState.get?]) he hn hu]

private theorem head_nodes_of_embed (hp : p.WellFormed)
    (h : embed g p.nodes p.root v {} = some s') (hown : p.Owns g p.root v) :
    s'.nodes.head? = some v.node := by
  obtain ⟨e, n, he, hn, ho⟩ := hown
  obtain ⟨n', hn', hext⟩ := extension_assign hp he (by simp [MatchState.get?]) .empty h
    fun j hj w t t' ht => extension_of_embed hp (Nat.lt_trans hj (root_lt_length hp)) ht
  obtain rfl := Option.some.inj (hn.symm.trans hn')
  obtain ⟨rest, hrest⟩ := hext.nodes_prefix
  have hfirst : (MatchState.assign {} e p.root v n).nodes = [v.node] := by
    simp [MatchState.assign, MatchState.own, ho]
  rw [← hrest, hfirst]
  rfl

/-- What a match at a value lists. -/
theorem agrees_of_matchValue (hp : p.WellFormed) {m : Match} (h : p.matchValue g v = some m) :
    m.root = v ∧ m.Agrees p g (p.Reaches g p.root v) := by
  obtain ⟨s', hs', rfl⟩ := Option.map_eq_some_iff.1 h
  have hs := extension_of_embed hp (root_lt_length hp) hs' .empty
  have hget := get?_embed_root hs
  refine ⟨rfl, hget, below_iff hs, hs.tracks.nodup_bindings, fun id => ?_,
    hs.tracks.nodup_nodes, head_nodes_of_embed hp hs', fun name w hw => ?_,
    fun i w e name hw => hs.tracks.labelled ((hget i w).2 hw)⟩
  · simp only [hs.tracks.mem_nodes, hget]
  · obtain ⟨i, e, hi, he⟩ := hs.tracks.label hw
    exact ⟨i, e, (hget i w).1 hi, he⟩

theorem isEmbedding_of_matchValue (hp : p.WellFormed) {m : Match}
    (h : p.matchValue g v = some m) : p.IsEmbedding g (p.Reaches g p.root v) := by
  obtain ⟨s', hs', -⟩ := Option.map_eq_some_iff.1 h
  have hs := extension_of_embed hp (root_lt_length hp) hs' .empty
  have hR : (fun i w => s'.get? i = some w) = p.Reaches g p.root v :=
    funext fun i => funext fun w => propext (get?_embed_root hs i w)
  exact hR ▸ isEmbedding_of_tracks hs.tracks

theorem stepsClosed_reaches (p : Pattern β) (g : Graph β) (i : Nat) (v : Value) :
    p.StepsClosed g (p.Reaches g i v) :=
  fun _ _ _ _ _ _ hw he hn hu => hw.step he hn hu

theorem exists_matchValue (hp : p.WellFormed)
    (hR : p.IsEmbedding g (p.Reaches g p.root v)) : ∃ m, p.matchValue g v = some m := by
  obtain ⟨s', hs'⟩ := embed_of_isEmbedding hp hR (stepsClosed_reaches p g p.root v) .refl .empty
    (by simp [MatchState.get?])
  exact ⟨_, Option.map_eq_some_iff.2 ⟨s', hs', rfl⟩⟩

/-! ### Reading off a match -/

/-- The value of a pattern node for an operation, and the values of its inputs. -/
theorem IsEmbedding.op {R : Nat → Value → Prop} (hR : p.IsEmbedding g R)
    (hstep : p.StepsClosed g R) {i : Nat} {e : PatternNode β} (he : p.node? i = some e)
    {ops : List Op} {inputs : List Nat} (hkind : e.kind = .op ops inputs) (hv : R i v) :
    ∃ n, g.source? v = some n ∧ e.accepts g v = true ∧ n.op ∈ ops ∧
      (inputs ≠ [] → inputs.length = n.inputs.length) ∧
        ∀ (k j : Nat) (w : Value), inputs[k]? = some j → n.inputs[k]? = some w → R j w := by
  obtain ⟨f, hf, n, hn, ha, hfit⟩ := hR.fits hv
  obtain rfl := Option.some.inj (he.symm.trans hf)
  rw [PatternNode.FitsNode, hkind] at hfit
  refine ⟨n, hn, ha, hfit.1, fun hne => hfit.2.resolve_left hne, fun k j w hj hw => ?_⟩
  refine hstep hv he hn ?_
  rw [PatternNode.childSteps, hkind]
  exact List.mem_iff_getElem?.2 ⟨k, by simp [List.getElem?_zip_eq_some, hj, hw]⟩

/-- The value of a pattern node for an operation that may be absent, and the value of its input. -/
theorem IsEmbedding.optional {R : Nat → Value → Prop} (hR : p.IsEmbedding g R)
    (hstep : p.StepsClosed g R) {i : Nat} {e : PatternNode β} (he : p.node? i = some e)
    {ops : List Op} {j : Nat} (hkind : e.kind = .optional ops j) (hv : R i v) :
    ∃ n, g.source? v = some n ∧ e.accepts g v = true ∧
      ((n.op ∈ ops ∧ n.outputs.length = 1 ∧ ∃ first rest, n.inputs = first :: rest ∧ R j first) ∨
        (n.op ∉ ops ∧ R j v)) := by
  obtain ⟨f, hf, n, hn, ha, hfit⟩ := hR.fits hv
  obtain rfl := Option.some.inj (he.symm.trans hf)
  rw [PatternNode.FitsNode, hkind] at hfit
  refine ⟨n, hn, ha, ?_⟩
  by_cases hop : n.op ∈ ops
  · obtain ⟨hlen, first, rest, hin, -⟩ := hfit hop
    refine .inl ⟨hop, hlen, first, rest, hin, hstep hv he hn ?_⟩
    simp [PatternNode.childSteps, hkind, hop, hin]
  · refine .inr ⟨hop, hstep hv he hn ?_⟩
    simp [PatternNode.childSteps, hkind, hop]

/-- **Matches are embeddings.**  There is a match at a value exactly when the values that the
pattern nodes have to stand for make an embedding, and the match lists these values. -/
theorem matchValue_iff_isEmbedding (hp : p.WellFormed) (g : Graph β) (v : Value) :
    ((p.matchValue g v).isSome ↔ p.IsEmbedding g (p.Reaches g p.root v)) ∧
      ∀ m, p.matchValue g v = some m → m.root = v ∧ m.Agrees p g (p.Reaches g p.root v) := by
  refine ⟨?_, fun m hm => agrees_of_matchValue hp hm⟩
  rw [Option.isSome_iff_exists]
  exact ⟨fun ⟨m, hm⟩ => isEmbedding_of_matchValue hp hm, exists_matchValue hp⟩

/-- A value added to its own rectified form, from which a dimension may have been dropped. -/
def rectifiedSum : Pattern Unit where
  nodes := [{ kind := .op [.add] [2, 0] }, { kind := .optional [.squeeze] 1 },
    { kind := .op [.relu] [0], label := some "rectified" }, { kind := .any }]

/-- A parameter added to its own rectified form without the first dimension. -/
def rectifiedSumGraph : Graph Unit :=
  ((((Graph.empty.push { op := .parameter, outputs := [.planar (.ofLengths [1, 4]) .f32] }).push
    { op := .constant, outputs := [.planar (.ofLengths [1]) .i64] }).push
    { op := .relu, inputs := [⟨0, 0⟩], outputs := [.planar (.ofLengths [1, 4]) .f32] }).push
    { op := .squeeze, inputs := [⟨2, 0⟩, ⟨1, 0⟩], outputs := [.planar (.ofLengths [4]) .f32] }).push
    { op := .add, inputs := [⟨3, 0⟩, ⟨0, 0⟩], outputs := [.planar (.ofLengths [1, 4]) .f32] }

theorem rectifiedSum_wellFormed : rectifiedSum.WellFormed :=
  .of_refersBack (List.cons_ne_nil _ _) rfl

/-- The pattern matches at the sum, which takes in the node that drops a dimension and the
rectifier, and it does not embed at the first operand of the sum. -/
theorem matchValue_rectifiedSum : rectifiedSum.WellFormed ∧
    (rectifiedSum.matchValue rectifiedSumGraph ⟨4, 0⟩).map (·.nodes) = some [4, 3, 2] ∧
      rectifiedSum.IsEmbedding rectifiedSumGraph (rectifiedSum.Reaches rectifiedSumGraph 3 ⟨4, 0⟩) ∧
        ¬ rectifiedSum.IsEmbedding rectifiedSumGraph
          (rectifiedSum.Reaches rectifiedSumGraph 3 ⟨3, 0⟩) := by
  have hp := rectifiedSum_wellFormed
  refine ⟨hp, by decide, ?_, fun h => ?_⟩
  · exact (matchValue_iff_isEmbedding hp rectifiedSumGraph ⟨4, 0⟩).1.1 (by decide)
  · exact absurd ((matchValue_iff_isEmbedding hp rectifiedSumGraph ⟨3, 0⟩).1.2 h) (by decide)

end Pattern

end Dataflow
