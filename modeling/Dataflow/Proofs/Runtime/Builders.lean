import Dataflow.Proofs.Graph.Substitution
import Dataflow.Proofs.Runtime.Computing
import Dataflow.Proofs.Runtime.Layouts
import Dataflow.Proofs.Runtime.Operations

/-!
# What the builders compute

The nodes that a builder adds compute the result that the builder is named for, in the graph that
the builder leaves and at any later stage of the replacement of a node.

## Main statements

* `Graph.Substituted.computes_pushed` : one new node.
* `Edit.computes_unsqueeze`, `Edit.computes_squeeze`, `Edit.computes_transpose` : the new value.
* `Edit.computes_sequenceLengths` : the lengths of the sequences of a batch.
-/

namespace Dataflow

theorem normalizeAxis_of_lt {axis rank : Nat} (h : axis < rank) (hrank : rank < 2 ^ 63) :
    (normalizeAxis axis rank).toOption = some axis := by
  have hneg : ¬ (axis : Int) < 0 := by omega
  have hin : ¬ ((axis : Int) < 0 ∨ (rank : Int) ≤ axis) := by omega
  simp only [normalizeAxis, Word.signed_of_lt hrank, if_neg hneg, if_neg hin]
  rfl

namespace Graph

variable {g h : Graph Body} {I : Interpretation} {ρ : Environment} {old : Nat → Prop}
  {σ : Value → Value} {spec : NodeSpec Body} {v : Value} {t u : Grid}

theorem Substituted.of_pushed (hk : g.Listed) (hs : (g.push spec).Substituted old σ h) :
    g.Substituted old σ h :=
  (Substituted.of_push hk old spec).trans hs

theorem not_old_of_le {i : Nat} (hid : ∀ i, old i → i < g.slots.length)
    (hi : g.slots.length ≤ i) : ¬ old i :=
  fun hold => Nat.not_le_of_lt (hid i hold) hi

theorem lt_of_old {m : Nat} (hid : ∀ i, old i → i < g.slots.length) (hm : g.slots.length ≤ m) :
    ∀ i, old i → i < m :=
  fun i hi => Nat.lt_of_lt_of_le (hid i hi) hm

/-- A new node computes what its operation makes of its operands. -/
theorem Substituted.computes_pushed (hs : (g.push spec).Substituted old σ h)
    (hid : ∀ i, old i → i < g.slots.length) (hop : spec.op.isOrdinary = true)
    (hfree : ∀ x ∈ spec.inputs, ¬ old x.node) {operands results : List Grid}
    (hoperands : List.Forall₂ (h.Computes I ρ) spec.inputs operands)
    (hI : I spec.op spec.attributes operands = some results) {i : Nat} {l : Layout}
    (hl : spec.outputs[i]? = some l) (hadmits : l.admits u = true) (hu : results[i]? = some u) :
    h.Computes I ρ ⟨g.slots.length, i⟩ u := by
  have hlive := hs.live?_of_free (i := g.slots.length) (n := spec.build g.slots.length)
    (not_old_of_le hid (Nat.le_refl _)) (by simp [live?_push]) hfree
  exact (computes_iff_of_ordinary (v := ⟨g.slots.length, i⟩) hlive hop).2
    ⟨l, operands, results, hl, hadmits, hoperands, hI, hu⟩

/-- A new node with a single output. -/
theorem Substituted.computes_single (hs : (g.push spec).Substituted old σ h)
    (hid : ∀ i, old i → i < g.slots.length) (hop : spec.op.isOrdinary = true)
    (hfree : ∀ x ∈ spec.inputs, ¬ old x.node) {operands : List Grid}
    (hoperands : List.Forall₂ (h.Computes I ρ) spec.inputs operands)
    (hI : I spec.op spec.attributes operands = some [u]) {l : Layout} (hl : spec.outputs = [l])
    (hadmits : l.admits u = true) : h.Computes I ρ ⟨g.slots.length, 0⟩ u :=
  hs.computes_pushed hid hop hfree hoperands hI (by rw [hl]; rfl) hadmits rfl

theorem Substituted.computes_constant {name : String} {c : Tensor}
    (hs : (g.push (constantSpec name c)).Substituted old σ h) (hid : ∀ i, old i → i < g.slots.length)
    (hc : ∀ n ∈ c.shape, n < 2 ^ 63) : h.Computes I ρ ⟨g.slots.length, 0⟩ c.grid := by
  have hlive := hs.live?_of_free (i := g.slots.length)
    (n := (constantSpec name c).build g.slots.length) (not_old_of_le hid (Nat.le_refl _))
    (by simp [live?_push]) (by simp [constantSpec, NodeSpec.build])
  refine (computes_constant_iff (v := ⟨g.slots.length, 0⟩) hlive rfl).2
    ⟨rfl, ?_, _, rfl, Layout.admits_grid hc _⟩
  rw [constant?_constantSpec, Option.map_some]

theorem Substituted.computes_ints {name : String} {words : List Int}
    (hs : (g.push (constantSpec name (.vector words))).Substituted old σ h)
    (hid : ∀ i, old i → i < g.slots.length) (hwords : words.length < 2 ^ 63) :
    h.Computes I ρ ⟨g.slots.length, 0⟩ (.vector words) :=
  hs.computes_constant hid (by simpa [Tensor.vector] using hwords)

/-- The declared layout of an existing value is true of its tensor at a later stage. -/
theorem Substituted.admits (hs : g.Substituted old σ h) (hv : ¬ old v.node)
    (hval : g.hasValue v = true) (ht : h.Computes I ρ v t) {l : Layout} (hl : g.layout? v = some l) :
    l.admits t = true := by
  obtain ⟨n, hn, -⟩ := hasValue_iff.1 hval
  exact ht.admits ((hs.layout?_eq hv hn).trans hl)

theorem Substituted.constant?_eq (hs : g.Substituted old σ h) (hv : ¬ old v.node)
    (hval : g.hasValue v = true) : h.constant? v = g.constant? v := by
  obtain ⟨n, hn, -⟩ := hasValue_iff.1 hval
  rw [constant?, constant?, producer?, producer?, node?_of_live? hn, node?_of_live? (hs.live hv hn)]
  rfl

theorem Computes.lt_of_mem (ht : g.Computes I ρ v t) {n : Nat} (hn : n ∈ t.shape) : n < 2 ^ 63 := by
  obtain ⟨_, _, -, -, hadmits, -⟩ := computes_iff.1 ht
  exact Layout.lt_of_admits hadmits hn

theorem Substituted.computes_pushWithInts {op : Op} {name suffix : String} {words : List Int}
    {layout : Layout} (hk : g.Listed)
    (hs : (g.pushWithInts op name suffix v words layout).Substituted old σ h)
    (hid : ∀ i, old i → i < g.slots.length) (hv : ¬ old v.node) (hop : op.isOrdinary = true)
    (hwords : words.length < 2 ^ 63) (ht : h.Computes I ρ v t)
    (hI : I op .empty [t, .vector words] = some [u]) (hu : layout.admits u = true) :
    h.Computes I ρ ⟨g.slots.length + 1, 0⟩ u := by
  have hs' := Substituted.of_pushed (hk.push _) hs
  have hconst := hs'.computes_ints (I := I) (ρ := ρ) hid hwords
  have hlen := length_slots_push g (constantSpec (name ++ "/" ++ suffix) (.vector words))
  have hnew := hs.computes_single (Graph.lt_of_old hid (by omega)) hop
    (by simpa using ⟨hv, not_old_of_le hid (Nat.le_refl _)⟩) (.cons ht (.cons hconst .nil)) hI rfl hu
  rwa [hlen] at hnew

end Graph

namespace Edit

theorem listed_of_entry {g g' : Graph Body} {v w : Value} {name suffix : String} {p : Int}
    (happly : (entry name suffix v p).apply g = (.ok w, g')) (hk : g.Listed) : g'.Listed := by
  rw [(apply_entry_ok happly).2]
  exact (hk.push _).push _

theorem substituted_of_entry {g g' h : Graph Body} {old : Nat → Prop} {σ : Value → Value}
    {v w : Value} {name suffix : String} {p : Int}
    (happly : (entry name suffix v p).apply g = (.ok w, g')) (hk : g.Listed)
    (hs : g'.Substituted old σ h) : g.Substituted old σ h := by
  rw [(apply_entry_ok happly).2] at hs
  exact .of_pushed hk (.of_pushed (hk.push _) hs)

variable {g g' h : Graph Body} {I : Interpretation} {F : StepFunction} {ρ : Environment}
  {old : Nat → Prop} {σ : Value → Value} {v w : Value} {t u : Grid} {name : String} {axis : Nat}
  (hk : g.Listed) (hs : g'.Substituted old σ h) (hid : ∀ i, old i → i < g.slots.length)
  (hv : ¬ old v.node)
include hk hs hid hv

theorem computes_unsqueeze (hI : I.Unsqueezes)
    (happly : (unsqueeze name v axis).apply g = (.ok w, g'))
    (ht : h.Computes I ρ v t) (hrank : t.shape.length + 1 < 2 ^ 63) :
    h.Computes I ρ w (t.insertAxis axis) := by
  obtain ⟨l, l', hl, hl', hval, rfl, rfl⟩ := apply_unsqueeze_ok_iff.1 happly
  have hg : g.Substituted old σ h := .of_pushed hk (.of_pushed (hk.push _) hs)
  obtain ⟨hle, hadmits⟩ := Layout.admits_insertAxis hl' (hg.admits hv hval ht hl)
  refine hs.computes_pushWithInts hk hid hv rfl (by simp) ht ?_ hadmits
  have haxis := normalizeAxis_of_lt (Nat.lt_succ_of_le hle) hrank
  rw [hI, Grid.ints?_vector, Option.bind_eq_bind, Option.bind_some,
    Grid.unsqueeze?_one haxis]
  rfl

theorem computes_squeeze (hI : I.Squeezes)
    (happly : (squeeze name v axis).apply g = (.ok w, g'))
    (ht : h.Computes I ρ v (t.insertAxis axis)) (hle : axis ≤ t.shape.length)
    (hrank : t.shape.length + 1 < 2 ^ 63) : h.Computes I ρ w t := by
  obtain ⟨l, l', hl, hl', hval, rfl, rfl⟩ := apply_squeeze_ok_iff.1 happly
  have hg : g.Substituted old σ h := .of_pushed hk (.of_pushed (hk.push _) hs)
  have hadmits := Layout.admits_of_insertAxis hl' (hg.admits hv hval ht hl)
  refine hs.computes_pushWithInts hk hid hv rfl (by simp) ht ?_ hadmits
  have hlen : (t.insertAxis axis).shape.length = t.shape.length + 1 := by
    rw [Grid.shape_insertAxis, List.length_insertIdx_of_le_length hle]
  have haxis := @normalizeAxis_of_lt axis (t.insertAxis axis).shape.length
    (by rw [hlen]; omega) (by rwa [hlen])
  rw [hI, Grid.ints?_vector, Option.bind_eq_bind, Option.bind_some,
    Grid.squeeze?_one haxis, Grid.dropAxis?_insertAxis hle]
  rfl

/-- The axes are put into another order. -/
theorem computes_transpose {order : List Nat} (hI : I.Transposes)
    (happly : (transpose name v order).apply g = (.ok w, g'))
    (horder : order.length < 2 ^ 63) (ht : h.Computes I ρ v t)
    (hu : t.permute? order = some u) : h.Computes I ρ w u := by
  obtain ⟨l, l', hl, hl', hval, rfl, rfl⟩ := apply_transpose_ok_iff.1 happly
  have hg : g.Substituted old σ h := .of_pushed hk (.of_pushed (hk.push _) hs)
  have hadmits := Layout.admits_permute hl' (hg.admits hv hval ht hl) hu
  refine hs.computes_pushWithInts hk hid hv rfl (by rwa [List.length_map]) ht ?_ hadmits
  have htranspose : t.transpose? (order.map Int.ofNat) = some u := by
    rw [Grid.transpose?, Grid.naturals?_map, Option.bind_eq_bind, Option.bind_some, hu]
  rw [hI, Grid.ints?_vector, Option.bind_eq_bind, Option.bind_some, htranspose]
  rfl

theorem computes_entry (hI : I.Follows F) {suffix : String} {p : Nat}
    (happly : (entry name suffix v p).apply g = (.ok w, g')) {words : List Int} {n : Int}
    (ht : h.Computes I ρ v (.vector words)) (hp : words[p]? = some n) :
    h.Computes I ρ w (.vector [n]) := by
  obtain ⟨rfl, rfl⟩ := apply_entry_ok happly
  have hs' := Graph.Substituted.of_pushed (hk.push _) hs
  have hconst := hs'.computes_ints (I := I) (ρ := ρ) hid (by simp)
  have hlen := Graph.length_slots_push g
    (Graph.constantSpec (name ++ "/" ++ suffix ++ "_index") (.vector [(p : Int)]))
  have hnew := hs.computes_single (Graph.lt_of_old hid (by omega)) rfl
    (by simpa [entrySpec] using ⟨hv, Graph.not_old_of_le hid (Nat.le_refl _)⟩)
    (.cons ht (.cons hconst .nil)) (hI.readsLengths.gather_vector hp) rfl
    (Layout.admits_vector (by rfl) _)
  rwa [hlen] at hnew

/-- Every entry of the batch has as many positions as the sequence has. -/
theorem computes_sequenceLengths (hI : I.Follows F)
    (happly : (sequenceLengths name v).apply g = (.ok w, g'))
    (ht : h.Computes I ρ v t) {batch time width : Nat} (hshape : t.shape = [batch, time, width])
    (hval : g.hasValue v = true) :
    g.Substituted old σ h ∧ h.Computes I ρ w (.vector (List.replicate batch (time : Int))) := by
  obtain ⟨l, hl, hcases⟩ := apply_sequenceLengths_ok happly
  -- The declared layout fits at any stage, so the known dimensions are the lengths.
  have hlayout : g.Substituted old σ h → ∃ d e f, l.shape.dims = [d, e, f] ∧
      d.admits batch = true ∧ e.admits time = true := by
    intro hg
    have hall := Layout.admits_iff.1 (hg.admits hv hval ht hl)
    rw [hshape] at hall
    simp only [List.forall₂_cons_right_iff, List.forall₂_nil_right_iff] at hall
    obtain ⟨d, -, hd, ⟨e, -, he, ⟨f, -, -, rfl, rfl⟩, rfl⟩, hdims⟩ := hall
    exact ⟨d, e, f, hdims, hd, he⟩
  obtain ⟨b, k, hb, hk', rfl, rfl⟩ | ⟨b, g₁, g₂, time', count', hb, -, htime, hcount, rfl, rfl⟩ :=
    hcases
  · have hg := Graph.Substituted.of_pushed hk hs
    obtain ⟨d, e, f, hdims, hd, he⟩ := hlayout hg
    rw [Shape.dim?, hdims] at hb hk'
    obtain rfl := (Dim.admits_iff.1 hd).2 b (Option.some.inj hb)
    obtain rfl := (Dim.admits_iff.1 he).2 k (Option.some.inj hk')
    rw [Word.signed_of_lt (Dim.admits_iff.1 he).1] at hs
    exact ⟨hg, hs.computes_ints hid (by rw [List.length_replicate]; exact (Dim.admits_iff.1 hd).1)⟩
  · set shape : NodeSpec Body := shapeSpec name v l.shape.rank with hshapeSpec
    have hlen := Graph.length_slots_push g shape
    have hk₀ := hk.push shape
    have hk₁ := listed_of_entry htime hk₀
    have hk₂ := listed_of_entry hcount hk₁
    have hs₂ := Graph.Substituted.of_pushed hk₂ hs
    have hs₁ := substituted_of_entry hcount hk₁ hs₂
    have hs₀ := substituted_of_entry htime hk₀ hs₁
    have hg := Graph.Substituted.of_pushed hk hs₀
    obtain ⟨d, e, f, hdims, hd, he⟩ := hlayout hg
    have hlengths : h.Computes I ρ ⟨g.slots.length, 0⟩
        (.vector [(batch : Int), (time : Int), (width : Int)]) := by
      refine hs₀.computes_single hid rfl ?_ (.cons ht .nil) ?_ rfl ?_
      · simpa [hshapeSpec, shapeSpec] using hv
      · rw [hshapeSpec, shapeSpec, hI.shapeOf, hshape]
        rfl
      · rw [Shape.rank, hdims]
        exact Layout.admits_vector (by rfl) _
    have hnew : ¬ old (⟨g.slots.length, 0⟩ : Value).node :=
      Graph.not_old_of_le hid (Nat.le_refl _)
    have hlen₁ := length_of_entry htime
    have hlen₂ := length_of_entry hcount
    have htime' := computes_entry hk₀ hs₁ (Graph.lt_of_old hid (by omega)) hnew hI htime
      hlengths (p := 1) rfl
    have hcount' := computes_entry hk₁ hs₂ (Graph.lt_of_old hid (by omega)) hnew hI hcount
      hlengths (p := 0) rfl
    have htimeNode : ¬ old time'.node := by
      rw [(apply_entry_ok htime).1]
      exact Graph.not_old_of_le hid (by show _ ≤ (g.push shape).slots.length + 1; omega)
    have hcountNode : ¬ old count'.node := by
      rw [(apply_entry_ok hcount).1]
      exact Graph.not_old_of_le hid (by show _ ≤ g₁.slots.length + 1; omega)
    refine ⟨hg, hs.computes_single (Graph.lt_of_old hid (by omega)) rfl ?_
      (.cons htime' (.cons hcount' .nil)) (hI.readsLengths.broadcast_vector _ _ _) rfl ?_⟩
    · simpa [repeatSpec] using ⟨htimeNode, hcountNode⟩
    · rw [Shape.dim?, hdims] at hb
      obtain rfl := Option.some.inj hb
      exact Layout.admits_vector (by rwa [List.length_replicate]) _

end Edit

end Dataflow
