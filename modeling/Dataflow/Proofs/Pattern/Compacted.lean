import Dataflow.Pattern.Match
import Dataflow.Proofs.Graph.Compaction

/-!
# Matching in a compacted graph

Between its elimination and the next compaction a node is still stored, and some questions about
the graph still see it.  A pattern with the usual conditions does not.  It asks only about values of
live nodes, and about the inputs of live nodes, which are values of live nodes as well if no
reference leads nowhere.

## Main definitions

* `Condition.Usual`, `Pattern.Usual` : the conditions that this library offers, and the patterns
  with such conditions.

## Main statements

* `Condition.Usual.eq_compact` : a usual condition on a value of a live node does not tell a graph
  from the compacted one.
* `Pattern.matchValue_compact` : no more does a pattern with usual conditions.
-/

namespace Dataflow

variable {β : Type} {g : Graph β}

/-! ### Questions about values of live nodes -/

namespace Graph

theorem source?_compact (g : Graph β) (v : Value) : g.compact.2.source? v = g.source? v := by
  rw [source?, live?_compact, source?]

theorem producer?_compact_of_live {v : Value} {n : Node β} (h : g.live? v.node = some n) :
    g.compact.2.producer? v = g.producer? v := by
  rw [producer?, node?_compact, h, producer?, node?_of_live? h]

theorem isConstant_compact_of_live {v : Value} {n : Node β} (h : g.live? v.node = some n) :
    g.compact.2.isConstant v = g.isConstant v := by
  rw [isConstant, op?, producer?_compact_of_live h, isConstant, op?]

theorem layout?_compact_of_live {v : Value} {n : Node β} (h : g.live? v.node = some n) :
    g.compact.2.layout? v = g.layout? v := by
  rw [layout?, producer?_compact_of_live h, layout?]

/-- The inputs of a live node are values of live nodes, so compaction takes none of them away. -/
theorem passesThrough_compact (hd : g.NoDangling) {id : Nat} {n : Node β}
    (hn : g.live? id = some n) : g.compact.2.passesThrough n = g.passesThrough n := by
  have hinputs : ∀ v ∈ n.inputs, g.compact.2.isConstant v = g.isConstant v := by
    intro v hv
    obtain ⟨u, hu, -⟩ := reads_of_mem hn hv
    obtain ⟨m, hm, -⟩ := hasValue_iff.1 (hd.reads hu)
    exact isConstant_compact_of_live hm
  have hcount : n.inputs.countP (!g.compact.2.isConstant ·) = n.inputs.countP (!g.isConstant ·) :=
    List.countP_congr fun v hv => by rw [hinputs v hv]
  rw [passesThrough, passesThrough]
  cases hin : n.inputs with
  | nil => rfl
  | cons first rest =>
    dsimp only
    rw [← hin, hcount, hinputs first (hin ▸ List.mem_cons_self)]

end Graph

/-! ### Conditions -/

/-- The conditions that this library offers: none at all, those on the uses, the layout and the
producer of a value, and several of them together. -/
inductive Condition.Usual : Condition β → Prop
  | none : Usual fun _ _ => true
  | useCount (n : Nat) : Usual (.useCount n)
  | rank (n : Nat) : Usual (.rank n)
  | knownShape : Usual .knownShape
  | knownRank : Usual .knownRank
  | elementType (t : ElementType) : Usual (.elementType t)
  | constant : Usual .constant
  | all {conditions : List (Condition β)} :
      (∀ c ∈ conditions, Usual c) → Usual (.all conditions)

/-- Compaction lists the uses of a value in another order at most, and keeps the producer of a value
that is live. -/
theorem Condition.Usual.eq_compact (hn : g.Numbered) (hi : g.Indexed) {c : Condition β}
    (hc : c.Usual) {v : Value} {n : Node β} (hv : g.live? v.node = some n) :
    c g.compact.2 v = c g v := by
  induction hc with
  | none => rfl
  | useCount k =>
    have huses := (Graph.compaction_compact hn hi).uses v
    rw [Condition.useCount, huses.length_eq, Condition.useCount]
  | rank k => rw [Condition.rank, Graph.layout?_compact_of_live hv, Condition.rank]
  | knownShape =>
    rw [Condition.knownShape, Graph.layout?_compact_of_live hv, Condition.knownShape]
  | knownRank => rw [Condition.knownRank, Graph.layout?_compact_of_live hv, Condition.knownRank]
  | elementType t =>
    simp only [Condition.elementType, Graph.elementType?, Graph.layout?_compact_of_live hv]
  | constant => exact Graph.isConstant_compact_of_live hv
  | @all conditions _ ih =>
    rw [Condition.all, Condition.all, Bool.eq_iff_iff, List.all_eq_true, List.all_eq_true]
    exact forall₂_congr fun c hc => by rw [ih c hc]

/-! ### The search -/

/-- Every node of the pattern has a usual condition. -/
def Pattern.Usual (p : Pattern β) : Prop :=
  ∀ e ∈ p.nodes, e.accepts.Usual

theorem embedKind_compact (hd : g.NoDangling) {e : PatternNode β} {v : Value} {n : Node β}
    (hv : g.live? v.node = some n) (f : Nat → Value → MatchState → Option MatchState) (i : Nat)
    (s : MatchState) : embedKind g.compact.2 f e i v n s = embedKind g f e i v n s := by
  rw [embedKind, embedKind]
  cases e.kind with
  | any => rfl
  | op ops inputs => rfl
  | optional ops input => simp only [Graph.passesThrough_compact hd hv]

/-- The search goes through the pattern nodes by number; each one looks at the graph only through
the live producer of its value. -/
theorem embed_compact (hn : g.Numbered) (hi : g.Indexed) (hd : g.NoDangling)
    {nodes : List (PatternNode β)} (hnodes : ∀ e ∈ nodes, e.accepts.Usual) :
    embed g.compact.2 nodes = embed g nodes := by
  induction nodes with
  | nil => rfl
  | cons e rest ih =>
    obtain ⟨he, hrest⟩ := List.forall_mem_cons.1 hnodes
    funext i v s
    rw [embed, embed, ih hrest, Graph.source?_compact]
    cases hsource : g.source? v with
    | none => rfl
    | some n =>
      have hlive : g.live? v.node = some n := (Graph.source?_eq_some.1 hsource).1
      simp only [he.eq_compact hn hi hlive, embedKind_compact hd hlive]

namespace Pattern

/-- **Eliminated nodes are invisible to patterns.**  Let the index of uses of a graph be exact, and
let everything that is read be a value of a live node.  Then a pattern with usual conditions matches
a value in the compacted graph exactly if it does so in the graph itself, where eliminated nodes are
still stored, and the match is the same. -/
theorem matchValue_compact (hn : g.Numbered) (hi : g.Indexed) (hd : g.NoDangling) {p : Pattern β}
    (hp : p.Usual) (v : Value) : p.matchValue g.compact.2 v = p.matchValue g v := by
  rw [matchValue, embed_compact hn hi hd hp, matchValue]

/-- A value added to its own rectified form, from which a dimension may have been dropped.  The value
is of rank two and is read twice, and its rectified form is read once. -/
def rectifiedTwice : Pattern Unit where
  nodes := [{ kind := .op [.add] [2, 0], accepts := .elementType .f32 },
    { kind := .optional [.squeeze] 1, accepts := .knownRank },
    { kind := .op [.relu] [0], accepts := .all [.knownShape, .useCount 1],
      label := some "rectified" },
    { kind := .any, accepts := .all [.rank 2, .useCount 2] }]

/-- A parameter added to its own rectified form without the first dimension.  A second rectifier,
which reads the parameter as well, has been eliminated. -/
def spareRectifier : Graph Unit :=
  ((Graph.ofSpecs
    [{ op := .parameter, outputs := [.planar (.ofLengths [1, 4]) .f32] },
      { op := .constant, outputs := [.planar (.ofLengths [1]) .i64] },
      { op := .relu, inputs := [⟨0, 0⟩], outputs := [.planar (.ofLengths [1, 4]) .f32] },
      { op := .squeeze, inputs := [⟨2, 0⟩, ⟨1, 0⟩], outputs := [.planar (.ofLengths [4]) .f32] },
      { op := .relu, inputs := [⟨0, 0⟩], outputs := [.planar (.ofLengths [1, 4]) .f32] },
      { op := .add, inputs := [⟨3, 0⟩, ⟨0, 0⟩], outputs := [.planar (.ofLengths [1, 4]) .f32] }]
    [⟨5, 0⟩]).markEliminated 4).2

theorem usual_rectifiedTwice : rectifiedTwice.Usual := by
  have hrectified : ∀ c ∈ [Condition.knownShape, .useCount 1], c.Usual (β := Unit) :=
    List.forall_mem_cons.2 ⟨.knownShape, List.forall_mem_singleton.2 (.useCount 1)⟩
  have hvalue : ∀ c ∈ [Condition.rank 2, .useCount 2], c.Usual (β := Unit) :=
    List.forall_mem_cons.2 ⟨.rank 2, List.forall_mem_singleton.2 (.useCount 2)⟩
  refine List.forall_mem_cons.2 ⟨.elementType _, List.forall_mem_cons.2 ⟨.knownRank, ?_⟩⟩
  exact List.forall_mem_cons.2 ⟨.all hrectified, List.forall_mem_singleton.2 (.all hvalue)⟩

/-- The eliminated rectifier is still stored, and keeps neither graph from being matched. -/
theorem matchValue_compact_spareRectifier :
    (spareRectifier.Numbered ∧ spareRectifier.Indexed ∧ spareRectifier.NoDangling ∧
        rectifiedTwice.Usual) ∧
      (spareRectifier.hasNode 4 = true ∧ spareRectifier.compact.2.hasNode 4 = false) ∧
        (rectifiedTwice.matchValue spareRectifier ⟨5, 0⟩).map (·.nodes) = some [5, 3, 2] ∧
          rectifiedTwice.matchValue spareRectifier.compact.2 ⟨5, 0⟩ =
            rectifiedTwice.matchValue spareRectifier ⟨5, 0⟩ := by
  have hk : spareRectifier.WellKept :=
    (Graph.ofSpecs_sound _ _ (by decide +kernel) (by decide +kernel)).1.markEliminated 4
  have hd : spareRectifier.NoDangling :=
    Graph.noDangling_of_all (by decide +kernel) (by decide +kernel)
  exact ⟨⟨hk.numbered, hk.indexed, hd, usual_rectifiedTwice⟩, by decide +kernel, by decide +kernel,
    matchValue_compact hk.numbered hk.indexed hd usual_rectifiedTwice ⟨5, 0⟩⟩

end Pattern

end Dataflow
