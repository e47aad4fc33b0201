import Dataflow.Proofs.Graph.Changes
import Dataflow.Proofs.Graph.ListedReaders

/-!
# Constants that lose their readers

A replacement takes nodes out whose operands may be constants, and it adds constants of its own.  At
the end, the constants among the operands of what has been taken out are removed unless something
else reads them.  No constant is left over: each of those that were there before has another reader or
is among the operands looked through, and each new one is read by a new node.

## Main definitions

* `Graph.BareConstants` : constants read nothing.
* `Graph.Furnished` : a stage of a replacement at which new constants are read, a few of them apart.
* `Graph.Tidied` : a graph in which no constant has lost its last reader or has gone before it has.

## Main statements

* `Graph.Furnished.push`, `Graph.Furnished.redirect` : the steps from one stage to the next.
* `Graph.isUnusedNode_of_live_eliminateUnusedConstants` : no constant that is looked at is left over.
* `Graph.Furnished.tidied` : the end of a replacement.
-/

namespace Dataflow

namespace Graph

variable {β : Type} {g h k : Graph β} {D ids : List Nat} {P P' values : List Value} {u : Use}
  {v w : Value} {id : Nat} {n : Node β}

/-- Live constants read nothing. -/
def BareConstants (g : Graph β) : Prop :=
  ∀ id n, g.live? id = some n → n.op = .constant → n.inputs = []

instance (g : Graph β) : Decidable g.BareConstants :=
  decidable_of_iff (∀ id < g.slots.length, ∀ n ∈ g.live? id, n.op = .constant → n.inputs = [])
    ⟨fun h id n hn => h id (lt_length_of_live? hn) n hn, fun h id _ n hn => h id n hn⟩

/-- What reads a value is no constant. -/
theorem BareConstants.op_ne (hb : g.BareConstants) (hu : g.Reads u v) (hn : g.live? u.node = some n) :
    n.op ≠ .constant := by
  intro hop
  obtain ⟨m, hm, hv⟩ := hu
  obtain rfl := Option.some.inj (hm.symm.trans hn)
  simp [hb _ _ hn hop] at hv

theorem BareConstants.without (hb : g.BareConstants) (hw : g.Without ids h) : h.BareConstants := by
  intro id n hn
  exact hb id n (hw.live?_eq_some.1 hn).2

/-- The graph `h` is what a change has made of `g`.  A constant that nothing reads in it has been there
before, and nothing has read it then either; and a constant that is still read, or still an output, is
still there. -/
structure Tidied (g h : Graph β) : Prop where
  unused : ∀ id n, h.live? id = some n → n.op = .constant → h.isUnusedNode id = true →
    g.live? id = some n ∧ g.isUnusedNode id = true
  kept : ∀ v n, g.live? v.node = some n → n.op = .constant → g.hasValue v = true →
    ((∃ u, h.Reads u v) ∨ v ∈ h.outputs) → h.live? v.node = some n

/-! ### Stages of a replacement -/

/-- The graph `h` is a later stage, as `Carries` says, with nothing old added.  New constants are read
by new nodes, apart from those that produce the values `P`. -/
structure Furnished (D : List Nat) (P : List Value) (g h : Graph β) : Prop
    extends Carries D g h where
  wellKept : h.WellKept
  bare : h.BareConstants
  length_le : g.slots.length ≤ h.slots.length
  old : ∀ id, id < g.slots.length → (h.live? id).isSome = true → (g.live? id).isSome = true
  new : ∀ id n, g.slots.length ≤ id → h.live? id = some n → n.op = .constant →
    h.hasValue ⟨id, 0⟩ = true ∧
      (⟨id, 0⟩ ∈ P ∨ ∃ u, g.slots.length ≤ u.node ∧ h.Reads u ⟨id, 0⟩)

namespace Furnished

theorem refl (D : List Nat) (hk : g.WellKept) (hb : g.BareConstants) : Furnished D [] g g where
  toCarries := .refl hk.traceable
  wellKept := hk
  bare := hb
  length_le := Nat.le_refl _
  old _ _ hsome := hsome
  new _ _ hid hn := absurd (lt_length_of_live? hn) (Nat.not_lt.2 hid)

theorem mono (hf : Furnished D P g h) (hP : P ⊆ P') : Furnished D P' g h :=
  { hf with new := fun id n hid hn hop => (hf.new id n hid hn hop).imp_right (.imp_left (hP ·)) }

/-- A new constant is pending, and a new node that is none may read some of the pending ones. -/
theorem push (hf : Furnished D P g h) {spec : NodeSpec β}
    (hspec : spec.op = .constant →
      spec.inputs = [] ∧ 0 < spec.outputs.length ∧ ⟨h.slots.length, 0⟩ ∈ P')
    (hP : ∀ v ∈ P, v ∈ P' ∨ v ∈ spec.inputs) : Furnished D P' g (h.push spec) where
  toCarries := hf.toCarries.push spec
  wellKept := hf.wellKept.push spec
  bare id n hn hop := by
    rw [live?_push] at hn
    split at hn
    · obtain rfl := Option.some.inj hn
      exact (hspec hop).1
    · exact hf.bare id n hn hop
  length_le := by
    rw [length_slots_push]
    exact Nat.le_succ_of_le hf.length_le
  old id hid hsome := by
    rw [live?_push, if_neg (Nat.ne_of_lt (Nat.lt_of_lt_of_le hid hf.length_le))] at hsome
    exact hf.old id hid hsome
  new id n hid hn hop := by
    rw [live?_push] at hn
    split at hn
    · next heq =>
      obtain rfl := Option.some.inj hn
      obtain ⟨-, houts, hmem⟩ := hspec hop
      exact heq ▸ ⟨hasValue_push_new houts, .inl hmem⟩
    · obtain ⟨hval, hread⟩ := hf.new id n hid hn hop
      refine ⟨hasValue_push spec hval, ?_⟩
      obtain hmem | ⟨u, hu, hread⟩ := hread
      · refine (hP _ hmem).imp_right fun hin => ?_
        obtain ⟨i, hi⟩ := List.getElem?_of_mem hin
        exact ⟨⟨h.slots.length, i⟩, hf.length_le, (reads_push h spec).2 (.inr ⟨rfl, hi⟩)⟩
      · exact .inr ⟨u, hu, (reads_push h spec).2 (.inl hread)⟩

theorem push_of_ne (hf : Furnished D P g h) {spec : NodeSpec β} (hop : spec.op ≠ .constant) :
    Furnished D P g (h.push spec) :=
  hf.push (fun heq => absurd heq hop) fun _ hv => .inl hv

theorem addConstant (hf : Furnished D P g h) (name : String) (t : Tensor) :
    Furnished D (⟨h.slots.length, 0⟩ :: P) g (h.push (constantSpec name t)) :=
  hf.push (fun _ => ⟨rfl, Nat.one_pos, List.mem_cons_self⟩) fun _ hv => .inl (List.mem_cons_of_mem _ hv)

/-- A constant is added together with a node that reads it. -/
theorem push_addConstant (hf : Furnished D P g h) (name : String) (t : Tensor) {spec : NodeSpec β}
    (hop : spec.op ≠ .constant) (hin : ⟨h.slots.length, 0⟩ ∈ spec.inputs) :
    Furnished D P g ((h.push (constantSpec name t)).push spec) := by
  refine (hf.addConstant name t).push (fun heq => absurd heq hop) fun x hx => ?_
  obtain rfl | hx := List.mem_cons.1 hx
  · exact .inr hin
  · exact .inl hx

/-- Readers are taken from a value of an old node. -/
theorem redirect (hf : Furnished D P g h) (hv : v.node ∈ D) (hlt : v.node < g.slots.length)
    (w : Value) : Furnished D P g (h.redirect v w).2 where
  toCarries := hf.toCarries.redirect hv w
  wellKept := hf.wellKept.redirect v w
  bare id n hn hop := by
    rw [live?_redirect hf.wellKept.indexed.live] at hn
    obtain ⟨m, hm, rfl⟩ := Option.map_eq_some_iff.1 hn
    split at hop
    · next heq => rw [if_pos heq, hf.bare id m hm hop]
    · next hne => rw [if_neg hne, Node.mapInputs, hf.bare id m hm hop, List.map_nil]
  length_le := by
    rw [length_slots_redirect]
    exact hf.length_le
  old id hid hsome := by
    rw [live?_redirect hf.wellKept.indexed.live, Option.isSome_map] at hsome
    exact hf.old id hid hsome
  new id n hid hn hop := by
    rw [live?_redirect hf.wellKept.indexed.live] at hn
    obtain ⟨m, hm, rfl⟩ := Option.map_eq_some_iff.1 hn
    have hop : m.op = .constant := by
      split at hop <;> exact hop
    obtain ⟨hval, hread⟩ := hf.new id m hid hm hop
    rw [hasValue_redirect hf.wellKept.indexed.live]
    refine ⟨hval, ?_⟩
    obtain hmem | ⟨u, hu, hread⟩ := hread
    · exact .inl hmem
    · refine .inr ⟨u, hu, ?_⟩
      -- A new constant is not what is replaced.
      have hne : (⟨id, 0⟩ : Value) ≠ v := fun heq => Nat.not_le_of_lt hlt (heq ▸ hid)
      rw [reads_redirect hf.wellKept.indexed.live]
      split
      · exact hread
      · exact ⟨_, hread, Value.subst_of_ne w hne⟩

end Furnished

/-! ### The end of a replacement -/

theorem WellKept.eliminateUnusedConstants (hk : g.WellKept) (values : List Value) :
    (eliminateUnusedConstants values g).2.WellKept :=
  eliminateUnusedConstants_induction (fun _ id h => h.markEliminated id) values hk

/-- What has been read is still read, because what is taken out reads nothing. -/
theorem Pruned.reads_iff (hp : Pruned values g ids h) (hb : g.BareConstants) :
    h.Reads u v ↔ g.Reads u v := by
  rw [hp.without.reads, and_iff_right_iff_imp]
  intro hu
  obtain ⟨n, hn, -⟩ := id hu
  exact hp.notMem_of_live hn (hb.op_ne hu hn)

/-- Nothing that is left has lost a reader. -/
theorem Pruned.isUnusedNode_eq (hp : Pruned values g ids h) (hb : g.BareConstants)
    (hk : g.WellKept) (hk' : h.WellKept) (hn : h.live? id = some n) :
    h.isUnusedNode id = g.isUnusedNode id := by
  obtain ⟨hid, hlive⟩ := hp.without.live?_eq_some.1 hn
  have hval : ∀ v, v.node = id → (h.hasValue v = true ↔ g.hasValue v = true) := by
    rintro v rfl
    rw [hp.without.hasValue, and_iff_right hid]
  rw [Bool.eq_iff_iff, hk'.isUnusedNode_iff hn, hk.isUnusedNode_iff hlive, hp.without.outputs]
  simp only [hp.reads_iff hb]
  exact ⟨fun hfree v hv hnode => hfree v ((hval v hnode).2 hv) hnode,
    fun hfree v hv hnode => hfree v ((hval v hnode).1 hv) hnode⟩

/-- A constant among the producers of the listed values that is left over has had a reader. -/
theorem isUnusedNode_of_live_eliminateUnusedConstants (hk : g.WellKept) (hb : g.BareConstants)
    (hv : v ∈ values) (hn : (eliminateUnusedConstants values g).2.live? v.node = some n)
    (hop : n.op = .constant) : g.isUnusedNode v.node = false := by
  induction values generalizing g with
  | nil => simp at hv
  | cons x rest ih =>
    rw [eliminateUnusedConstants_cons] at hn
    split at hn
    · next hgone =>
      -- The constant that is marked is another one.
      have hk₁ := hk.markEliminated x.node
      have hp : Pruned [x] g [x.node] (g.markEliminated x.node).2 :=
        (Pruned.refl [] _).cons hk.traceable hgone.1 hgone.2
      obtain ⟨ids, hrest⟩ := exists_pruned_eliminateUnusedConstants rest hk₁.traceable
      obtain ⟨-, hlive⟩ := hrest.without.live?_eq_some.1 hn
      obtain ⟨hne, -⟩ := hp.without.live?_eq_some.1 hlive
      obtain rfl | hv := List.mem_cons.1 hv
      · simp at hne
      · rw [← hp.isUnusedNode_eq hb hk hk₁ hlive]
        exact ih hk₁ (hb.without hp.without) hv hn
    · next hstays =>
      obtain rfl | hv := List.mem_cons.1 hv
      · obtain ⟨ids, hp⟩ := exists_pruned_eliminateUnusedConstants rest hk.traceable
        obtain ⟨-, hlive⟩ := hp.without.live?_eq_some.1 hn
        have hconstant : g.op? v = some .constant := by
          rw [op?, producer?, node?_of_live? hlive, Option.map_some, hop]
        simpa [hconstant] using hstays
      · exact ih hk hb hv hn

/-! ### The whole replacement -/

namespace Furnished

variable (hf : Furnished D [] g h) (hb : g.BareConstants)
include hf hb

/-- An old constant is what it has been. -/
theorem live?_eq_some_iff (hid : id < g.slots.length) (hop : n.op = .constant) :
    h.live? id = some n ↔ g.live? id = some n := by
  have hforth : ∀ {m}, g.live? id = some m → m.op = .constant → h.live? id = some m := by
    intro m hm hop
    obtain ⟨inputs, hm'⟩ := hf.keeps id m hm
    obtain rfl : inputs = [] := hf.bare id _ hm' hop
    rw [hm', ← hb id m hm hop]
  refine ⟨fun hn => ?_, fun hn => hforth hn hop⟩
  obtain ⟨m, hm⟩ := Option.isSome_iff_exists.1 (hf.old id hid (by rw [hn]; rfl))
  obtain ⟨inputs, hm'⟩ := hf.keeps id m hm
  obtain rfl := Option.some.inj (hm'.symm.trans hn)
  exact hm.trans (hm'.symm.trans (hforth hm hop)).symm

omit hb in
/-- A node that is left, and that nothing reads any more, has been read by the nodes taken out only. -/
theorem readers_of_isUnusedNode (hp : Pruned values (eliminateAll D h).2 ids k)
    (hn : k.live? id = some n) (hk' : k.WellKept) (hunused : k.isUnusedNode id = true) (v : Value)
    (hv : h.hasValue v = true) (hnode : v.node = id) :
    v ∉ h.outputs ∧ ∀ u, h.Reads u v → u.node ∈ D := by
  subst hnode
  have hwithout := hp.without_eliminateAll
  obtain ⟨hid, -⟩ := hwithout.live?_eq_some.1 hn
  obtain ⟨hout, hread⟩ := (hk'.isUnusedNode_iff hn).1 hunused v (hwithout.hasValue.2 ⟨hid, hv⟩) rfl
  have hmark := Without.of_eliminateAll D h
  refine ⟨hwithout.outputs ▸ hout, fun u hu => Decidable.byContradiction fun huD => hread u ?_⟩
  exact (hp.reads_iff (hf.bare.without hmark)).2 (hmark.reads.2 ⟨huD, hu⟩)

/-- An old constant that something reads, or that is an output, is not removed. -/
theorem live?_of_reads (hp : Pruned values (eliminateAll D h).2 ids k) (hvD : v.node ∉ D)
    (hn : g.live? v.node = some n) (hop : n.op = .constant) (hv : g.hasValue v = true)
    (hstill : (∃ u, k.Reads u v) ∨ v ∈ k.outputs) : k.live? v.node = some n := by
  have hmark := Without.of_eliminateAll D h
  have hnh := (hf.live?_eq_some_iff hb (lt_length_of_live? hn) hop).2 hn
  have hn₁ := hmark.live?_eq_some.2 ⟨hvD, hnh⟩
  refine hp.without.live?_eq_some.2 ⟨fun hid => ?_, hn₁⟩
  obtain ⟨hout, huses⟩ := hp.unread v.node hid v
    ((hasValue_iff_of_live? hn₁).2 ((hasValue_iff_of_live? hn).1 hv)) rfl
  obtain ⟨u, hu⟩ | hmem := hstill
  · obtain ⟨hne, hu⟩ := hp.without.reads.1 hu
    exact hne (huses u (((hf.wellKept.eliminateAll D).indexed.mem_uses v u).2 hu))
  · exact hout (hp.without.outputs ▸ hmem)

/-- **No constant is left over.**  The nodes `D` are taken out, which are no constants, and then the
constants that nothing reads among the producers of the listed values.  These include all old
constants that the nodes `D` have read and still do. -/
theorem tidied (hk : g.WellKept) (hD : ∀ id ∈ D, ∃ n, g.live? id = some n ∧ n.op ≠ .constant)
    (hvalues : ∀ u v n, g.Reads u v → h.Reads u v → u.node ∈ D → g.live? v.node = some n →
      n.op = .constant → v ∈ values) :
    Tidied g (eliminateUnusedConstants values (eliminateAll D h).2).2 := by
  have hk₁ := hf.wellKept.eliminateAll D
  have hb₁ := hf.bare.without (.of_eliminateAll D h)
  have hk₂ := hk₁.eliminateUnusedConstants values
  obtain ⟨ids, hp⟩ := exists_pruned_eliminateUnusedConstants values hk₁.traceable
  constructor
  case unused =>
    intro id n hn hop hunused
    obtain ⟨hid, hnh⟩ := hp.without_eliminateAll.live?_eq_some.1 hn
    have hidD : id ∉ D := fun hmem => hid (List.mem_append_left _ hmem)
    have hreaders := hf.readers_of_isUnusedNode hp hn hk₂ hunused
    by_cases hold : id < g.slots.length
    · have hng := (hf.live?_eq_some_iff hb hold hop).1 hnh
      refine ⟨hng, (hk.isUnusedNode_iff hng).2 ?_⟩
      rintro v hv rfl
      obtain ⟨hout, hread⟩ := hreaders v
        ((hasValue_iff_of_live? hnh).2 ((hasValue_iff_of_live? hng).1 hv)) rfl
      refine ⟨fun hmem => hout (hf.outputs v hidD hmem), fun u hu => ?_⟩
      have huh : h.Reads u v := (hf.wellKept.indexed.mem_uses v u).1
        (hf.uses v hidD u ((hk.indexed.mem_uses v u).2 hu))
      -- The reader has been taken out, so the constant has been looked at, and had other readers.
      have hused := isUnusedNode_of_live_eliminateUnusedConstants hk₁ hb₁
        (hvalues u v n hu huh (hread u huh) hng hop) hn hop
      rw [← hp.isUnusedNode_eq hb₁ hk₁ hk₂ hn, hunused] at hused
      simp at hused
    · obtain ⟨hval, hmem | ⟨u, hu, hread⟩⟩ := hf.new id n (Nat.le_of_not_lt hold) hnh hop
      · simp at hmem
      · obtain ⟨m, hm, -⟩ := hD _ ((hreaders _ hval rfl).2 u hread)
        exact absurd (lt_length_of_live? hm) (Nat.not_lt.2 hu)
  case kept =>
    intro v n hn hop hv hstill
    refine hf.live?_of_reads hb hp (fun hvD => ?_) hn hop hv hstill
    obtain ⟨m, hm, hne⟩ := hD _ hvD
    exact hne (Option.some.inj (hm.symm.trans hn) ▸ hop)

end Furnished

end Graph

end Dataflow
