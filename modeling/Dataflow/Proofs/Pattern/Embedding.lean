import Dataflow.Proofs.Pattern.Search

/-!
# Embeddings of a pattern

What a match is, described without the search that finds it.  The value of the last pattern node
fixes those of all others: following the inputs of the pattern nodes and those of the graph nodes
side by side relates every pattern node to the values that it has to stand for.

## Main definitions

* `PatternNode.childSteps`, `Pattern.Reaches` : the values that the inputs of a pattern node have to
  stand for, and those that all nodes behind it have to.
* `PatternNode.FitsNode`, `PatternNode.Fits` : what a pattern node asks of a single value.
* `PatternNode.owns` : whether a value is found through its operation.
* `Pattern.IsEmbedding` : the embeddings.
* `Pattern.Below` : the nodes of a pattern that its last node refers to.

## Main statements

* `embed_eq_some` : one step of the search, in these terms.
-/

namespace Dataflow

variable {β : Type}

/-! ### Embeddings -/

namespace PatternNode

/-- The inputs of a pattern node that stands for a value of the graph node, each with the value that
it has to stand for: the inputs of an operation go with those of the graph node, and the input of an
operation that may be absent goes with the first one, or with the value itself. -/
def childSteps (e : PatternNode β) (v : Value) (n : Node β) : List (Nat × Value) :=
  match e.kind with
  | .any => []
  | .op _ inputs => inputs.zip n.inputs
  | .optional ops input =>
    if n.op ∈ ops then (n.inputs.take 1).map (input, ·) else [(input, v)]

/-- What a pattern node asks of the graph node whose value it stands for: an operation is one of
those listed, with as many inputs as are listed, if any are; an operation that may be absent passes
its first input through when it is there, all others being constant. -/
def FitsNode (e : PatternNode β) (g : Graph β) (n : Node β) : Prop :=
  match e.kind with
  | .any => True
  | .op ops inputs => n.op ∈ ops ∧ (inputs = [] ∨ inputs.length = n.inputs.length)
  | .optional ops _ =>
    n.op ∈ ops → n.outputs.length = 1 ∧ ∃ first rest, n.inputs = first :: rest ∧
      g.isConstant first = false ∧ ∀ w ∈ rest, g.isConstant w = true

/-- What a pattern node asks of a value: it exists, the pattern node accepts it, and its node
fits. -/
def Fits (e : PatternNode β) (g : Graph β) (v : Value) : Prop :=
  ∃ n, g.source? v = some n ∧ e.accepts g v = true ∧ e.FitsNode g n

/-- Whether a value of the graph node is found through the operation of the graph node. -/
def owns (e : PatternNode β) (n : Node β) : Bool :=
  match e.kind with
  | .any => false
  | .op _ _ => true
  | .optional ops _ => ops.contains n.op

end PatternNode

namespace Pattern

/-- The pattern node with a number owns a value: it stands for it, and finds it through its
operation. -/
def Owns (p : Pattern β) (g : Graph β) (i : Nat) (v : Value) : Prop :=
  ∃ e n, p.node? i = some e ∧ g.source? v = some n ∧ e.owns n = true

/-- The values that the pattern nodes have to stand for when one of them stands for a value. -/
inductive Reaches (p : Pattern β) (g : Graph β) (i : Nat) (v : Value) : Nat → Value → Prop
  | refl : Reaches p g i v i v
  | step {j k : Nat} {w u : Value} {e : PatternNode β} {n : Node β} (h : Reaches p g i v j w)
      (he : p.node? j = some e) (hn : g.source? w = some n) (hu : (k, u) ∈ e.childSteps w n) :
      Reaches p g i v k u

/-- A relation between the nodes of a pattern and values is an embedding when it gives no pattern
node two values, every value fits its pattern node, and none is owned twice. -/
structure IsEmbedding (p : Pattern β) (g : Graph β) (R : Nat → Value → Prop) : Prop where
  functional : ∀ ⦃i v w⦄, R i v → R i w → v = w
  fits : ∀ ⦃i v⦄, R i v → ∃ e, p.node? i = some e ∧ e.Fits g v
  owned_once : ∀ ⦃i j v⦄, R i v → R j v → p.Owns g i v → p.Owns g j v → i = j

/-- The pattern nodes that the last one refers to, directly or through others. -/
inductive Below (p : Pattern β) : Nat → Prop
  | root : Below p p.root
  | input {i j : Nat} {e : PatternNode β} (h : Below p i) (he : p.node? i = some e)
      (hj : j ∈ e.kind.inputs) : Below p j

variable {p : Pattern β} {g : Graph β} {i j k : Nat} {v w u : Value}

theorem Reaches.trans (h : p.Reaches g i v j w) (h' : p.Reaches g j w k u) :
    p.Reaches g i v k u := by
  induction h' with
  | refl => exact h
  | step _ he hn hu ih => exact .step ih he hn hu

theorem mem_inputs_of_mem_childSteps {e : PatternNode β} {n : Node β}
    (h : (k, u) ∈ e.childSteps v n) : k ∈ e.kind.inputs := by
  obtain ⟨kind, accepts, label⟩ := e
  cases kind with
  | any => simp [PatternNode.childSteps] at h
  | op ops inputs => exact (List.of_mem_zip h).1
  | optional ops input =>
    dsimp only [PatternNode.childSteps] at h
    split at h
    · obtain ⟨_, -, he⟩ := List.mem_map.1 h
      simp [PatternKind.inputs, (Prod.mk.inj he).1]
    · simp [PatternKind.inputs, (Prod.mk.inj (List.mem_singleton.1 h)).1]

/-- Each input of a pattern node that fits has a value to stand for. -/
theorem exists_mem_childSteps {e : PatternNode β} {n : Node β} (h : e.FitsNode g n)
    (hj : j ∈ e.kind.inputs) (v : Value) : ∃ w, (j, w) ∈ e.childSteps v n := by
  obtain ⟨kind, accepts, label⟩ := e
  cases kind with
  | any => simp [PatternKind.inputs] at hj
  | op ops inputs =>
    obtain ⟨a, ha, hja⟩ := List.mem_iff_getElem.1 hj
    change a < inputs.length at ha
    obtain ⟨-, hnil | hlen⟩ := h
    · simp [hnil] at ha
    · have hlt : a < (inputs.zip n.inputs).length := by
        rw [List.length_zip, ← hlen, Nat.min_self]
        exact ha
      refine ⟨n.inputs[a], List.mem_iff_getElem.2 ⟨a, hlt, ?_⟩⟩
      have hzip : (inputs.zip n.inputs)[a] = (j, n.inputs[a]) := by
        rw [List.getElem_zip]
        exact congrArg (·, n.inputs[a]) hja
      exact hzip
  | optional ops input =>
    obtain rfl : j = input := by simpa [PatternKind.inputs] using hj
    dsimp only [PatternNode.childSteps]
    split
    · next hop =>
      obtain ⟨-, first, rest, hin, -⟩ := h hop
      exact ⟨first, by simp [hin]⟩
    · exact ⟨v, List.mem_singleton.2 rfl⟩

end Pattern

/-! ### One pattern node -/

theorem Graph.passesThrough_iff {g : Graph β} {n : Node β} :
    g.passesThrough n = true ↔ n.outputs.length = 1 ∧ ∃ first rest, n.inputs = first :: rest ∧
      g.isConstant first = false ∧ ∀ w ∈ rest, g.isConstant w = true := by
  unfold Graph.passesThrough
  cases n.inputs with
  | nil => simp
  | cons first rest =>
    cases hfirst : g.isConstant first with
    | true => simp [hfirst]
    | false => simp [hfirst, List.countP_eq_zero]

/-- The state in which a pattern node stands for a value of a graph node. -/
def MatchState.assign (s : MatchState) (e : PatternNode β) (i : Nat) (v : Value) (n : Node β) :
    MatchState :=
  (if e.owns n then s.own i v else s).bind i e.label v

/-- The search at a pattern node without a value: the graph node has to fit, the value must not be
owned already, and the inputs are searched in turn. -/
theorem embedKind_eq_some {g : Graph β} {f : Nat → Value → MatchState → Option MatchState}
    {e : PatternNode β} {i : Nat} {v : Value} {n : Node β} {s s' : MatchState}
    (hi : s.owners.lookup v ≠ some i) :
    embedKind g f e i v n s = some s' ↔
      e.FitsNode g n ∧ (e.owns n = true → s.owners.lookup v = none) ∧
        embedAll f (e.childSteps v n) (s.assign e i v n) = some s' := by
  have hone (j : Nat) (w : Value) (t : MatchState) : embedAll f [(j, w)] t = f j w t := by
    cases h : f j w t <;> simp [embedAll, h]
  obtain ⟨kind, accepts, label⟩ := e
  unfold embedKind PatternNode.FitsNode PatternNode.childSteps MatchState.assign PatternNode.owns
  cases kind with
  | any => simp [embedAll]
  | op ops inputs =>
    by_cases hop : n.op ∈ ops
    · dsimp only
      rw [if_pos (List.contains_iff_mem.2 hop), MatchState.bind_claim_eq_some hi]
      cases inputs with
      | nil => simp [hop, embedAll]
      | cons j rest =>
        by_cases hlen : (j :: rest).length = n.inputs.length
        · simp [hop, ← hlen]
        · simp only [List.length_cons] at hlen
          simp [hlen]
    · simp [hop]
  | optional ops input =>
    by_cases hop : n.op ∈ ops
    · dsimp only
      rw [if_pos (List.contains_iff_mem.2 hop), ← Graph.passesThrough_iff]
      cases hin : n.inputs with
      | nil => simp [hop, hin, Graph.passesThrough]
      | cons first rest =>
        by_cases hp : g.passesThrough n = true
        · simp only [hp, if_true]
          rw [MatchState.bind_claim_eq_some hi]
          simp [hop, hone]
        · simp [hop, hp]
    · simp [hop, hone]

/-- The search at a pattern node without a value, including its condition on the value. -/
theorem embed_eq_some {p : Pattern β} (hp : p.WellFormed) {g : Graph β} {i : Nat}
    {e : PatternNode β} (he : p.node? i = some e) {v : Value} {s s' : MatchState}
    (hget : s.get? i = none) (hi : s.owners.lookup v ≠ some i) :
    embed g p.nodes i v s = some s' ↔
      ∃ n, g.source? v = some n ∧ e.accepts g v = true ∧ e.FitsNode g n ∧
        (e.owns n = true → s.owners.lookup v = none) ∧
          embedAll (embed g p.nodes) (e.childSteps v n) (s.assign e i v n) = some s' := by
  rw [embed_eq hp g he, hget]
  cases hn : g.source? v with
  | none => simp
  | some n =>
    by_cases ha : e.accepts g v = true
    · simp [ha, embedKind_eq_some hi]
    · simp [ha]

end Dataflow
