import Dataflow.Proofs.Graph.References
import Dataflow.Proofs.Pattern.Matching

/-!
# Reading nodes off a match

A pass looks up the nodes of a match in the graph again.  What it finds are the nodes that the
pattern asks for.

## Main definitions

* `Pattern.IsOperation` : the node of a value that a pattern node for an operation stands for.

## Main statements

* `Pattern.IsEmbedding.isOperation` : the node that is looked up is that node.
* `Pattern.get?_eq_of_matchValue` : the matches at the outputs of one node.
* `Condition.reader_of_useCount` : a value with a single use.
-/

namespace Dataflow

variable {β : Type} {g : Graph β}

/-- A value with a single use has a single reader. -/
theorem Condition.reader_of_useCount (hk : g.WellKept) {v : Value}
    (hcount : Condition.useCount 1 g v = true) {u : Use} (hu : g.Reads u v) :
    ∀ u', g.Reads u' v → u'.node = u.node := by
  intro u' hu'
  have hlen : (g.uses v).length = 1 := by simpa [Condition.useCount] using hcount
  obtain ⟨x, hx⟩ := List.length_eq_one_iff.1 hlen
  have hmem : ∀ w, g.Reads w v → w = x := fun w hw =>
    List.mem_singleton.1 (hx ▸ (hk.indexed.mem_uses v w).2 hw)
  rw [hmem u hu, hmem u' hu']

namespace Pattern

variable {p : Pattern β} {R : Nat → Value → Prop}

/-- A pattern node for one of the operations, with the given inputs, stands for the value, and the
node computes it. -/
structure IsOperation (g : Graph β) (R : Nat → Value → Prop) (ops : List Op) (inputs : List Nat)
    (v : Value) (n : Node β) : Prop where
  live : g.live? v.node = some n
  id : n.id = v.node
  lt : v.index < n.outputs.length
  op : n.op ∈ ops
  length : inputs ≠ [] → n.inputs.length = inputs.length
  input : ∀ ⦃k j : Nat⦄ ⦃w : Value⦄, inputs[k]? = some j → n.inputs[k]? = some w → R j w

/-- The node with the number of the value is the one that the pattern asks for. -/
theorem IsEmbedding.isOperation (hR : p.IsEmbedding g R) (hstep : p.StepsClosed g R)
    (hg : g.Numbered) {i : Nat} {e : PatternNode β} (he : p.node? i = some e) {ops : List Op}
    {inputs : List Nat} (hkind : e.kind = .op ops inputs) {v : Value} (hv : R i v) {n : Node β}
    (hn : g.node? v.node = some n) :
    IsOperation g R ops inputs v n ∧ e.accepts g v = true := by
  obtain ⟨m, hm, ha, hop, hlen, hin⟩ := hR.op hstep he hkind hv
  obtain ⟨hlive, hlt⟩ := Graph.source?_eq_some.1 hm
  obtain rfl := Option.some.inj ((Graph.node?_of_live? hlive).symm.trans hn)
  exact ⟨⟨hlive, hg.live hlive, hlt, hop, fun hne => (hlen hne).symm,
    fun k j w => hin k j w⟩, ha⟩

/-- A node with a value that a pattern node for an operation stands for has as many inputs as are
given. -/
theorem IsEmbedding.length_inputs (hR : p.IsEmbedding g R) {i : Nat} {e : PatternNode β}
    (he : p.node? i = some e) {ops : List Op} {inputs : List Nat} (hkind : e.kind = .op ops inputs)
    (hne : inputs ≠ []) {v : Value} (hv : R i v) {n : Node β} (hn : g.node? v.node = some n) :
    n.inputs.length = inputs.length := by
  obtain ⟨f, hf, m, hm, -, hfit⟩ := hR.fits hv
  obtain rfl := Option.some.inj (he.symm.trans hf)
  obtain rfl := Option.some.inj
    ((Graph.node?_of_live? (Graph.source?_eq_some.1 hm).1).symm.trans hn)
  rw [PatternNode.FitsNode, hkind] at hfit
  exact (hfit.2.resolve_left hne).symm

private theorem reaches_of_sibling {e : PatternNode β} {ops : List Op} {inputs : List Nat}
    (he : p.node? p.root = some e) (hkind : e.kind = .op ops inputs) {id i j k : Nat} {w : Value}
    (hR : p.IsEmbedding g (p.Reaches g p.root ⟨id, i⟩))
    (hR' : p.IsEmbedding g (p.Reaches g p.root ⟨id, j⟩)) (hne : k ≠ p.root)
    (h : p.Reaches g p.root ⟨id, i⟩ k w) : p.Reaches g p.root ⟨id, j⟩ k w := by
  induction h with
  | refl => exact absurd rfl hne
  | @step k' _ w' _ e' n h' he' hn hu ih =>
    by_cases hroot : k' = p.root
    · subst hroot
      obtain rfl := hR.functional h' .refl
      obtain rfl := Option.some.inj (he.symm.trans he')
      obtain ⟨_, -, n', hn', -⟩ := hR'.fits .refl
      obtain rfl : n = n' := Option.some.inj
        ((Graph.source?_eq_some.1 hn).1.symm.trans (Graph.source?_eq_some.1 hn').1)
      refine .step .refl he hn' ?_
      rwa [PatternNode.childSteps, hkind] at hu ⊢
    · exact (ih hroot).step he' hn hu

/-- Two matches of the same operation at outputs of one node differ in these outputs only. -/
theorem get?_eq_of_matchValue (hp : p.WellFormed) {e : PatternNode β} {ops : List Op}
    {inputs : List Nat} (he : p.node? p.root = some e) (hkind : e.kind = .op ops inputs)
    {id i j k : Nat} {m m' : Match} (hm : p.matchValue g ⟨id, i⟩ = some m)
    (hm' : p.matchValue g ⟨id, j⟩ = some m') (hne : k ≠ p.root) : m.get? k = m'.get? k := by
  have hR := isEmbedding_of_matchValue hp hm
  have hR' := isEmbedding_of_matchValue hp hm'
  refine Option.ext fun w => ?_
  rw [(agrees_of_matchValue hp hm).2.get?, (agrees_of_matchValue hp hm').2.get?]
  exact ⟨reaches_of_sibling he hkind hR hR' hne, reaches_of_sibling he hkind hR' hR hne⟩

end Pattern

end Dataflow
