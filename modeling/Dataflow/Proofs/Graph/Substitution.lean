import Dataflow.Proofs.Graph.Rerouting

/-!
# Substituting for the values of some nodes

While some nodes are being replaced, everything that reads their values is made to read other
values, and further nodes are added.  Seen from any stage of the replacement, the later graph has
the same live nodes, with their inputs substituted.  At the end constants that nothing reads are
taken out; a node that is no constant keeps its operands.

## Main definitions

* `Graph.Substituted` : a later stage of the replacement of some nodes.
* `Graph.redirectAll`, `Value.substAll` : several values redirected one after the other.
* `Graph.Wanted`, `Graph.Lasting` : the nodes that outlive the removal of unused constants.

## Main statements

* `Graph.Substituted.trans` : stages follow each other.
* `Graph.Lasting.live?_eliminateUnusedConstants` : lasting nodes stay.
-/

namespace Dataflow

/-- Another value in the place of each of some values. -/
def Value.substAll (pairs : List (Value × Value)) (v : Value) : Value :=
  (pairs.lookup v).getD v

namespace Graph

/-- The readers of each of some values read another value instead. -/
def redirectAll {β : Type} : List (Value × Value) → Graph β → Graph β
  | [], g => g
  | p :: rest, g => redirectAll rest (g.redirect p.1 p.2).2

variable {β : Type} {g h k : Graph β} {id i : Nat} {old : Nat → Prop} {σ τ : Value → Value}
  {v w : Value} {u : Use} {n : Node β}

/-- The graph `h` has the live nodes of `g` other than the old ones, with their inputs substituted,
and possibly more.  Only values of old nodes have others put in their place. -/
structure Substituted (g : Graph β) (old : Nat → Prop) (σ : Value → Value) (h : Graph β) :
    Prop where
  listed : h.Listed
  length_le : g.slots.length ≤ h.slots.length
  fixes : ∀ v, ¬ old v.node → σ v = v
  live : ∀ ⦃i n⦄, ¬ old i → g.live? i = some n → h.live? i = some (n.mapInputs σ)
  outputs : h.outputs = g.outputs.map σ

/-- A node that reads no value of an old node is not changed. -/
theorem mapInputs_of_free (hn : ∀ x ∈ n.inputs, ¬ old x.node)
    (hσ : ∀ v, ¬ old v.node → σ v = v) : n.mapInputs σ = n :=
  Node.mapInputs_eq_self fun x hx => hσ x (hn x hx)

namespace Substituted

theorem refl (hk : g.Listed) (old : Nat → Prop) : g.Substituted old (fun v => v) g where
  listed := hk
  length_le := Nat.le_refl _
  fixes _ _ := rfl
  live i n _ hn := by rw [hn, Node.mapInputs_id]
  outputs := (List.map_id' _).symm

theorem trans (hgh : g.Substituted old σ h) (hhk : h.Substituted old τ k) :
    g.Substituted old (fun v => τ (σ v)) k where
  listed := hhk.listed
  length_le := Nat.le_trans hgh.length_le hhk.length_le
  fixes v hv := by rw [hgh.fixes v hv, hhk.fixes v hv]
  live i n hi hn := by
    rw [hhk.live hi (hgh.live hi hn)]
    simp [Node.mapInputs]
  outputs := by
    rw [hhk.outputs, hgh.outputs, List.map_map]
    rfl

theorem of_push (hk : g.Listed) (old : Nat → Prop) (spec : NodeSpec β) :
    g.Substituted old (fun v => v) (g.push spec) where
  listed := hk.push spec
  length_le := by
    rw [length_slots_push]
    exact Nat.le_succ _
  fixes _ _ := rfl
  live i n _ hn := by
    rw [live?_push, if_neg (Nat.ne_of_lt (lt_length_of_live? hn)), hn, Node.mapInputs_id]
  outputs := (List.map_id' _).symm

theorem of_grows {S : Value → Prop} (hk : g.Listed) (old : Nat → Prop) (hg : g.Grows S h) :
    g.Substituted old (fun v => v) h := by
  induction hg with
  | refl => exact refl hk old
  | push spec _ _ ih => exact ih.trans (of_push ih.listed old spec)

theorem of_redirect (hk : g.Listed) (hv : old v.node)
    (hw : ∀ n, g.live? w.node = some n → ∀ x ∈ n.inputs, ¬ old x.node) :
    g.Substituted old (Value.subst v w) (g.redirect v w).2 where
  listed := hk.redirect v w
  length_le := Nat.le_of_eq (length_slots_redirect g v w).symm
  fixes x hx := Value.subst_of_ne w fun heq => hx (heq ▸ hv)
  live i n _ hn := by
    rw [live?_redirect hk.live, hn, Option.map_some]
    split
    · next hi =>
      subst hi
      rw [mapInputs_of_free (hw n hn) fun x hx => Value.subst_of_ne w fun heq => hx (heq ▸ hv)]
    · rfl
  outputs := outputs_redirect g v w

theorem of_markEliminated (hk : g.Listed) (hid : old id) :
    g.Substituted old (fun v => v) (g.markEliminated id).2 where
  listed := hk.markEliminated id
  length_le := Nat.le_of_eq (length_slots_markEliminated g id).symm
  fixes _ _ := rfl
  live i n hi hn := by
    have hne : i ≠ id := fun heq => hi (heq ▸ hid)
    rw [live?_markEliminated, if_neg hne, hn, Node.mapInputs_id]
  outputs := by rw [outputs_markEliminated, List.map_id']

theorem of_eliminateAll (hk : g.Listed) {ids : List Nat} (hids : ∀ id ∈ ids, old id) :
    g.Substituted old (fun v => v) (eliminateAll ids g).2 := by
  induction ids generalizing g with
  | nil => exact refl hk old
  | cons id ids ih =>
    have hfirst : g.Substituted old (fun v => v) (g.markEliminated id).2 :=
      of_markEliminated hk (hids id List.mem_cons_self)
    exact hfirst.trans (ih hfirst.listed fun id hid => hids id (List.mem_cons_of_mem _ hid))

variable (hs : g.Substituted old σ h)
include hs

theorem live?_of_free (hi : ¬ old i) (hn : g.live? i = some n)
    (hfree : ∀ x ∈ n.inputs, ¬ old x.node) : h.live? i = some n := by
  rw [hs.live hi hn, mapInputs_of_free hfree hs.fixes]

theorem reads (hu : ¬ old u.node) (hread : g.Reads u v) : h.Reads u (σ v) := by
  obtain ⟨n, hn, hin⟩ := hread
  exact ⟨_, hs.live hu hn, by simp [Node.mapInputs, hin]⟩

theorem layout?_eq (hv : ¬ old v.node) (hn : g.live? v.node = some n) :
    h.layout? v = g.layout? v := by
  rw [layout?, layout?, producer?, producer?, node?_of_live? hn, node?_of_live? (hs.live hv hn)]
  rfl

end Substituted

/-! ### Several values at once -/

/-- The node of a value is live and not old, and reads no value of an old node. -/
structure Free (g : Graph β) (old : Nat → Prop) (v : Value) : Prop where
  notOld : ¬ old v.node
  inputs : ∃ n, g.live? v.node = some n ∧ ∀ x ∈ n.inputs, ¬ old x.node

theorem Substituted.free (hs : g.Substituted old σ h) (hv : g.Free old v) : h.Free old v := by
  obtain ⟨n, hn, hfree⟩ := hv.inputs
  exact ⟨hv.notOld, n, hs.live?_of_free hv.notOld hn hfree, hfree⟩

theorem substAll_cons {pairs : List (Value × Value)} (hw : w ∉ pairs.map Prod.fst) :
    Value.substAll ((v, w) :: pairs) = fun x => Value.substAll pairs (Value.subst v w x) := by
  funext x
  by_cases hx : x = v
  · have hnone : pairs.lookup w = none :=
      List.lookup_eq_none_iff.2 fun p hp => bne_iff_ne.2 fun heq =>
        hw (heq ▸ List.mem_map_of_mem hp)
    simp [Value.substAll, Value.subst, hx, hnone]
  · have hne : (x == v) = false := by simpa using hx
    rw [Value.subst_of_ne w hx, Value.substAll, List.lookup_cons, hne, Value.substAll]

/-- Values of old nodes may be redirected one after the other to values that are free of them. -/
theorem Substituted.of_redirectAll (hk : g.Listed) {pairs : List (Value × Value)}
    (hkeys : ∀ p ∈ pairs, old p.1.node) (hfree : ∀ p ∈ pairs, g.Free old p.2) :
    g.Substituted old (Value.substAll pairs) (redirectAll pairs g) := by
  induction pairs generalizing g with
  | nil => exact refl hk old
  | cons p rest ih =>
    obtain ⟨v, w⟩ := p
    have hw := hfree (v, w) List.mem_cons_self
    obtain ⟨n, hn, hin⟩ := hw.inputs
    have hfirst : g.Substituted old (Value.subst v w) (g.redirect v w).2 :=
      of_redirect hk (hkeys (v, w) List.mem_cons_self) fun m hm =>
        Option.some.inj (hn.symm.trans hm) ▸ hin
    have hrest := ih hfirst.listed (fun p hp => hkeys p (List.mem_cons_of_mem _ hp))
      fun p hp => hfirst.free (hfree p (List.mem_cons_of_mem _ hp))
    rw [substAll_cons]
    · exact hfirst.trans hrest
    · intro hmem
      obtain ⟨p, hp, rfl⟩ := List.mem_map.1 hmem
      exact hw.notOld (hkeys p (List.mem_cons_of_mem _ hp))

/-- Values may be redirected one after the other to new values, and lose their readers. -/
theorem Rerouted.redirectAll {D : List Nat} {moved : List Value} (hr : Rerouted g D moved h)
    (hD : ∀ id ∈ D, id < g.slots.length) {pairs : List (Value × Value)}
    (hpairs : ∀ p ∈ pairs, h.hasValue p.2 = true ∧ g.slots.length ≤ p.2.node) :
    Rerouted g D ((pairs.map Prod.fst).reverse ++ moved) (redirectAll pairs h) := by
  induction pairs generalizing h moved with
  | nil => exact hr
  | cons p rest ih =>
    obtain ⟨hval, hnew⟩ := hpairs p List.mem_cons_self
    have hrest := ih (hr.redirect (v := p.1) hD hval hnew) fun q hq => by
      rw [hasValue_redirect hr.listed.live]
      exact hpairs q (List.mem_cons_of_mem _ hq)
    simpa [Graph.redirectAll] using hrest

/-! ### Unused constants -/

/-- The value is an output, or a node that is no constant reads it. -/
def Wanted (g : Graph β) (v : Value) : Prop :=
  v ∈ g.outputs ∨ ∃ u m, g.Reads u v ∧ g.live? u.node = some m ∧ m.op ≠ .constant

/-- The nodes that outlive the removal of unused constants: those that are none, and those with a
wanted value. -/
def Lasting (g : Graph β) (id : Nat) : Prop :=
  ∃ n, g.live? id = some n ∧
    (n.op ≠ .constant ∨ ∃ v, g.Wanted v ∧ g.hasValue v = true ∧ v.node = id)

theorem Wanted.lasting (h : g.Wanted v) (hv : g.hasValue v = true) : g.Lasting v.node := by
  obtain ⟨n, hn, -⟩ := hasValue_iff.1 hv
  exact ⟨n, hn, .inr ⟨v, h, hv, rfl⟩⟩

/-- A node with a wanted value is in use. -/
theorem Wanted.isUnusedNode (h : g.Wanted v) (hk : g.Listed) (hv : g.hasValue v = true) :
    g.isUnusedNode v.node = false := by
  refine Bool.eq_false_iff.2 fun hunused => ?_
  obtain ⟨hout, hreads⟩ := hk.not_reads_of_isUnusedNode hunused hv rfl
  obtain h | ⟨u, -, hread, -⟩ := h
  · exact hout h
  · exact hreads u hread

theorem Wanted.markEliminated (h : g.Wanted v) (hi : g.op? ⟨i, 0⟩ = some .constant) :
    (g.markEliminated i).2.Wanted v := by
  obtain h | ⟨u, m, hread, hm, hop⟩ := h
  · exact .inl (by rwa [outputs_markEliminated])
  · have hu : u.node ≠ i := by
      rintro rfl
      rw [op?, producer?, node?_of_live? hm] at hi
      exact hop (Option.some.inj hi)
    refine .inr ⟨u, m, (reads_markEliminated g i).2 ⟨hu, hread⟩, ?_, hop⟩
    rw [live?_markEliminated, if_neg hu, hm]

theorem Lasting.eliminateIfUnused (hl : g.Lasting id) (hk : g.Listed)
    (hi : g.op? ⟨i, 0⟩ = some .constant) :
    (g.eliminateIfUnused i).2.live? id = g.live? id ∧ (g.eliminateIfUnused i).2.Lasting id := by
  obtain ⟨n, hn, hlast⟩ := hl
  unfold Graph.eliminateIfUnused
  split
  · next hunused =>
    have hid : id ≠ i := by
      rintro rfl
      obtain hop | ⟨v, hwanted, hv, rfl⟩ := hlast
      · rw [op?, producer?, node?_of_live? hn] at hi
        exact hop (Option.some.inj hi)
      · rw [hwanted.isUnusedNode hk hv] at hunused
        exact Bool.false_ne_true hunused
    have hlive : (g.markEliminated i).2.live? id = some n := by
      rw [live?_markEliminated, if_neg hid, hn]
    refine ⟨hlive.trans hn.symm, n, hlive, hlast.imp_right ?_⟩
    rintro ⟨v, hwanted, hv, rfl⟩
    exact ⟨v, hwanted.markEliminated hi, (hasValue_markEliminated g i v).2 ⟨hid, hv⟩, rfl⟩
  · exact ⟨rfl, n, hn, hlast⟩

/-- Lasting nodes stay when unused constants are taken out. -/
theorem Lasting.live?_eliminateUnusedConstants (hl : g.Lasting id) (hk : g.Listed)
    (values : List Value) : (eliminateUnusedConstants values g).2.live? id = g.live? id := by
  induction values generalizing g with
  | nil => rfl
  | cons v rest ih =>
    rw [Graph.eliminateUnusedConstants]
    split
    · next hop =>
      obtain ⟨hlive, hlast⟩ := hl.eliminateIfUnused hk (i := v.node) hop
      exact (ih hlast (hk.eliminateIfUnused v.node)).trans hlive
    · exact ih hl hk

end Graph

end Dataflow
