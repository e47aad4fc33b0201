import Dataflow.Proofs.Graph.Rerouting
import Dataflow.Proofs.Success

/-!
# Replacements seen from the index

A replacement adds nodes, and redirects the readers of some values to new ones.  What it does to the
readers that the index lists can be told from the index alone, even if it lists stray uses of nodes
that have been marked as eliminated: every listed reader of a value holds the new value in its
place.  Nodes stay the same meanwhile, their inputs apart, unless they are taken out.

## Main definitions

* `Graph.KeepsNode` : a node is there afterwards, and only its inputs may differ.
* `Graph.Relisted` : the listed readers of every value have been moved to the value in its place.
* `Graph.Pruned` : some nodes have been taken out that nothing else reads.

## Main statements

* `Graph.Relisted.redirect`, `Graph.Relisted.grows` : redirecting to new values, and adding nodes.
* `Graph.exists_pruned_eliminateUnusedConstants` : removing unused constants takes out some of them.
* `Graph.Relisted.input?` : what the listed readers hold at the end.
-/

namespace Dataflow

namespace Graph

variable {β : Type} {g h k : Graph β} {S : Value → Prop} {σ : Value → Value} {v w : Value}
  {u : Use} {l : Layout} {spec : NodeSpec β} {ids : List Nat} {id : Nat}

/-! ### Nodes that stay -/

/-- A live node with the number is still live in the second graph, and only its inputs may differ. -/
def KeepsNode (g h : Graph β) (id : Nat) : Prop :=
  ∀ n, g.live? id = some n → ∃ inputs, h.live? id = some { n with inputs }

namespace KeepsNode

theorem refl (g : Graph β) (id : Nat) : g.KeepsNode g id :=
  fun n hn => ⟨n.inputs, hn⟩

theorem trans (hgh : g.KeepsNode h id) (hhk : h.KeepsNode k id) : g.KeepsNode k id := by
  intro n hn
  obtain ⟨inputs, hn⟩ := hgh n hn
  obtain ⟨inputs', hn⟩ := hhk _ hn
  exact ⟨inputs', hn⟩

theorem of_push (g : Graph β) (spec : NodeSpec β) (id : Nat) : g.KeepsNode (g.push spec) id :=
  fun n hn => ⟨n.inputs, by rw [live?_push, if_neg (Nat.ne_of_lt (lt_length_of_live? hn)), hn]⟩

theorem of_grows (hg : g.Grows S h) (id : Nat) : g.KeepsNode h id := by
  induction hg with
  | refl => exact refl g id
  | push spec _ _ ih => exact ih.trans (of_push _ spec id)

/-- Redirecting changes nothing but inputs, whatever the index lists. -/
theorem of_redirect (g : Graph β) (v w : Value) (id : Nat) : g.KeepsNode (g.redirect v w).2 id := by
  by_cases hvw : v = w
  · simpa [redirect, hvw] using refl g id
  · intro n hn
    obtain ⟨s, hs, he, rfl⟩ := live?_eq_some.1 hn
    have hslot := slot?_redirect_eq v w hvw g id
    rw [slot?_redirectUses, hs] at hslot
    exact ⟨_, live?_eq_some.2 ⟨_, hslot, he, rfl⟩⟩

theorem of_without (hw : g.Without ids h) (hid : id ∉ ids) : g.KeepsNode h id :=
  fun n hn => ⟨n.inputs, by rw [hw.live?, if_neg hid, hn]⟩

theorem declares (hg : g.KeepsNode h v.node) (hv : g.Declares v l) : h.Declares v l := by
  obtain ⟨n, hn, hl⟩ := hv
  obtain ⟨inputs, hn⟩ := hg n hn
  exact ⟨_, hn, hl⟩

theorem holdsConstant {t : Tensor} (hg : g.KeepsNode h v.node) (hv : g.HoldsConstant v t) :
    h.HoldsConstant v t where
  constant?_eq := by
    obtain ⟨n, hn, -⟩ := hv.declares
    obtain ⟨inputs, hn'⟩ := hg n hn
    rw [← hv.constant?_eq, constant?, constant?, producer?, producer?, node?_of_live? hn,
      node?_of_live? hn']
    rfl
  declares := hg.declares hv.declares

end KeepsNode

/-- A constant stays one when further nodes are added. -/
theorem HoldsConstant.push {t : Tensor} (hv : g.HoldsConstant v t) (spec : NodeSpec β) :
    (g.push spec).HoldsConstant v t :=
  (KeepsNode.of_push g spec v.node).holdsConstant hv

/-! ### Uses that are listed -/

namespace Traceable

theorem grows (ht : g.Traceable) (hg : g.Grows S h) : h.Traceable := by
  induction hg with
  | refl => exact ht
  | push spec _ _ ih => exact ih.push spec

theorem eliminateAll (ht : g.Traceable) (ids : List Nat) :
    (Graph.eliminateAll ids g).2.Traceable := by
  induction ids generalizing g with
  | nil => exact ht
  | cons id rest ih => exact ih (ht.markEliminated id)

/-- Marking nodes takes no use by another node out of the index. -/
theorem mem_uses_eliminateAll (ht : g.Traceable) (hu : u ∈ g.uses v) (hne : u.node ∉ ids) :
    u ∈ (Graph.eliminateAll ids g).2.uses v := by
  induction ids generalizing g with
  | nil => exact hu
  | cons id rest ih =>
    obtain ⟨hfirst, hrest⟩ := not_or.1 (List.mem_cons.not.1 hne)
    exact ih (ht.markEliminated id) (ht.mem_uses_markEliminated hu hfirst) hrest

/-- A live node is unused when none of its values has a listed reader or is an output. -/
theorem isUnusedNode_iff (ht : g.Traceable) {n : Node β} (hn : g.live? id = some n) :
    g.isUnusedNode id = true ↔
      ∀ v, g.hasValue v = true → v.node = id → v ∉ g.outputs ∧ g.uses v = [] := by
  have hunused : ∀ v, g.isUnused v = true ↔ v ∉ g.outputs ∧ g.uses v = [] := fun v => by
    simp [isUnused, isOutputValue]
  simp only [isUnusedNode, node?_of_live? hn, List.all_eq_true, Node.values, List.mem_map,
    List.mem_range, Node.output, ht.numbered.live hn, hunused]
  constructor
  · rintro hall v hv rfl
    obtain ⟨m, hm, hlt⟩ := hasValue_iff.1 hv
    obtain rfl : m = n := Option.some.inj (hm.symm.trans hn)
    exact hall v ⟨v.index, hlt, rfl⟩
  · rintro hfree _ ⟨i, hi, rfl⟩
    exact hfree ⟨id, i⟩ (hasValue_iff.2 ⟨n, hn, hi⟩) rfl

end Traceable

/-- The graph `h` is a later stage of a replacement in `g`: whoever is listed in `g` as a reader of a
value is listed as a reader of the value in its place, and so are the outputs.  No node has been taken
out yet. -/
structure Relisted (g : Graph β) (σ : Value → Value) (h : Graph β) : Prop where
  base : g.Traceable
  traceable : h.Traceable
  length_le : g.slots.length ≤ h.slots.length
  keeps : ∀ id, g.KeepsNode h id
  outputs : h.outputs = g.outputs.map σ
  uses : ∀ v, ∀ u ∈ g.uses v, u ∈ h.uses (σ v)

namespace Relisted

theorem refl (ht : g.Traceable) : g.Relisted (fun v => v) g :=
  ⟨ht, ht, Nat.le_refl _, .refl g, (List.map_id' _).symm, fun _ _ hu => hu⟩

theorem push (hr : g.Relisted σ h) (spec : NodeSpec β) : g.Relisted σ (h.push spec) where
  base := hr.base
  traceable := hr.traceable.push spec
  length_le := by
    rw [length_slots_push]
    exact Nat.le_succ_of_le hr.length_le
  keeps id := (hr.keeps id).trans (.of_push h spec id)
  outputs := hr.outputs
  uses v u hu := by
    rw [uses_push]
    exact List.mem_append_left _ (hr.uses v u hu)

theorem grows (hr : g.Relisted σ h) (hg : h.Grows S k) : g.Relisted σ k := by
  induction hg with
  | refl => exact hr
  | push spec _ _ ih => exact ih.push spec

/-- Readers are redirected to a value of a new node, which is no listed reader of `g`. -/
theorem redirect (hr : g.Relisted σ h) (v : Value) (hw : g.slots.length ≤ w.node) :
    g.Relisted (fun x => Value.subst v w (σ x)) (h.redirect v w).2 where
  base := hr.base
  traceable := hr.traceable.redirect v w
  length_le := by
    rw [length_slots_redirect]
    exact hr.length_le
  keeps id := (hr.keeps id).trans (.of_redirect h v w id)
  outputs := by
    rw [outputs_redirect, hr.outputs, List.map_map]
    rfl
  uses x u hu := by
    have huse := hr.traceable.mem_uses_redirect (v := v) (w := w) (hr.uses x u hu)
    have hne : u.node ≠ w.node := fun heq => Nat.not_le_of_lt (hr.base.lt_length hu) (heq ▸ hw)
    rwa [if_neg hne] at huse

/-- What the listed readers hold, also after some nodes have been marked. -/
theorem input? (hr : g.Relisted σ h) (hw : h.Without ids k) (hu : u ∈ g.uses v) :
    k.input? u = some (σ v) := by
  obtain ⟨s, hs, hin⟩ := input?_eq_some.1 (hr.traceable.input? (σ v) u (hr.uses v u hu))
  refine input?_eq_some.2 ⟨_, (hw.slot? u.node).trans (congrArg _ hs), ?_⟩
  split <;> exact hin

end Relisted

/-- The graph `h` is a later stage, in which nothing has been taken out, and readers have been taken
from no values but those of the nodes `D`. -/
structure Carries (D : List Nat) (g h : Graph β) : Prop where
  traceable : h.Traceable
  keeps : ∀ id, g.KeepsNode h id
  uses : ∀ v, v.node ∉ D → ∀ u ∈ g.uses v, u ∈ h.uses v
  outputs : ∀ v, v.node ∉ D → v ∈ g.outputs → v ∈ h.outputs

namespace Carries

variable {D : List Nat}

theorem refl (ht : g.Traceable) : Carries D g g :=
  ⟨ht, .refl g, fun _ _ _ hu => hu, fun _ _ hv => hv⟩

theorem push (hc : Carries D g h) (spec : NodeSpec β) : Carries D g (h.push spec) where
  traceable := hc.traceable.push spec
  keeps id := (hc.keeps id).trans (.of_push h spec id)
  uses v hv u hu := by
    rw [uses_push]
    exact List.mem_append_left _ (hc.uses v hv u hu)
  outputs := hc.outputs

theorem redirect (hc : Carries D g h) (hv : v.node ∈ D) (w : Value) :
    Carries D g (h.redirect v w).2 := by
  have hfix : ∀ x : Value, x.node ∉ D → Value.subst v w x = x := fun x hx =>
    Value.subst_of_ne w fun heq => hx (heq ▸ hv)
  refine ⟨hc.traceable.redirect v w, fun id => (hc.keeps id).trans (.of_redirect h v w id),
    fun x hx u hu => ?_, fun x hx hout => ?_⟩
  · have huse := hc.traceable.mem_uses_redirect (v := v) (w := w) (hc.uses x hx u hu)
    rwa [hfix x hx, ite_self] at huse
  · rw [outputs_redirect, ← hfix x hx]
    exact List.mem_map_of_mem (hc.outputs x hx hout)

end Carries

/-! ### Nodes that are taken out -/

theorem Without.op? (hw : g.Without ids h) (v : Value) : h.op? v = g.op? v := by
  simp only [Graph.op?, producer?, node?, hw.slot?, Option.map_map]
  refine Option.map_congr fun s _ => ?_
  simp only [Function.comp_apply]
  split <;> rfl

/-- Some nodes that produce listed values have been taken out.  They are constants, and nothing but
other ones of these nodes has read them. -/
structure Pruned (values : List Value) (g : Graph β) (ids : List Nat) (h : Graph β) : Prop where
  without : g.Without ids h
  constant : ∀ id ∈ ids, ∃ v ∈ values, v.node = id ∧ g.op? v = some .constant
  unread : ∀ id ∈ ids, ∀ v, g.hasValue v = true → v.node = id →
    v ∉ g.outputs ∧ ∀ u ∈ g.uses v, u.node ∈ ids

namespace Pruned

variable {values : List Value}

theorem refl (values : List Value) (g : Graph β) : Pruned values g [] g :=
  ⟨.refl g, by simp, by simp⟩

/-- One node more, which nothing reads, is taken out first. -/
theorem cons (ht : g.Traceable) (hp : Pruned values (g.markEliminated v.node).2 ids h)
    (hop : g.op? v = some .constant) (hunused : g.isUnusedNode v.node = true) :
    Pruned (v :: values) g (v.node :: ids) h where
  without := (Without.of_markEliminated g v.node).trans hp.without
  constant id hid := by
    obtain rfl | hid := List.mem_cons.1 hid
    · exact ⟨v, List.mem_cons_self, rfl, hop⟩
    · obtain ⟨x, hx, hnode, hconstant⟩ := hp.constant id hid
      exact ⟨x, List.mem_cons_of_mem v hx, hnode,
        (Without.of_markEliminated g v.node).op? x ▸ hconstant⟩
  unread id hid x hx hnode := by
    by_cases hxv : x.node = v.node
    · obtain ⟨n, hn, -⟩ := hasValue_iff.1 hx
      obtain ⟨hout, huses⟩ := (ht.isUnusedNode_iff (hxv ▸ hn)).1 hunused x hx hxv
      exact ⟨hout, by simp [huses]⟩
    · have hid : id ∈ ids := (List.mem_cons.1 hid).resolve_left (hnode ▸ hxv)
      obtain ⟨hout, huses⟩ := hp.unread id hid x
        ((hasValue_markEliminated g v.node x).2 ⟨hxv, hx⟩) hnode
      refine ⟨outputs_markEliminated g v.node ▸ hout, fun u hu => ?_⟩
      by_cases huv : u.node = v.node
      · exact List.mem_cons.2 (.inl huv)
      · exact List.mem_cons_of_mem _ (huses u (ht.mem_uses_markEliminated hu huv))

/-- A value of a live node that has a reader which stays is not taken out. -/
theorem notMem_of_uses (hp : Pruned values g ids h) (hv : g.hasValue v = true) (hu : u ∈ g.uses v)
    (hne : u.node ∉ ids) : v.node ∉ ids :=
  fun hmem => hne ((hp.unread v.node hmem v hv rfl).2 u hu)

/-- A node that is no constant is not taken out. -/
theorem notMem_of_live (hp : Pruned values g ids h) {n : Node β} (hn : g.live? id = some n)
    (hop : n.op ≠ .constant) : id ∉ ids := by
  intro hmem
  obtain ⟨v, -, rfl, hconstant⟩ := hp.constant id hmem
  rw [Graph.op?, producer?, node?_of_live? hn] at hconstant
  exact hop (Option.some.inj hconstant)

section Eliminated

variable {D : List Nat} (hp : Pruned values (Graph.eliminateAll D g).2 ids h)
include hp

/-- Some nodes have been marked before. -/
theorem without_eliminateAll : g.Without (D ++ ids) h :=
  (Without.of_eliminateAll D g).trans hp.without

/-- A node that is no constant stays, unless it has been marked before. -/
theorem keepsNode_of_live {n : Node β} (hn : g.live? id = some n) (hop : n.op ≠ .constant)
    (hne : id ∉ D) : id ∉ ids ∧ g.KeepsNode h id := by
  have hmark := Without.of_eliminateAll D g
  have hid := hp.notMem_of_live (hmark.live?_eq_some.2 ⟨hne, hn⟩) hop
  exact ⟨hid, .of_without hp.without_eliminateAll (by simp [hne, hid])⟩

/-- A constant stays if it has a reader that stays. -/
theorem holdsConstant_of_uses {t : Tensor} (ht : g.Traceable) (hv : g.HoldsConstant v t)
    (hvD : v.node ∉ D) (hu : u ∈ g.uses v) (huD : u.node ∉ D) (hne : u.node ∉ ids) :
    h.HoldsConstant v t := by
  have hmark := Without.of_eliminateAll D g
  have hid := hp.notMem_of_uses (hmark.hasValue.2 ⟨hvD, hv.declares.hasValue⟩)
    (ht.mem_uses_eliminateAll hu huD) hne
  exact (KeepsNode.of_without hp.without_eliminateAll (by simp [hvD, hid])).holdsConstant hv

end Eliminated

end Pruned

/-- One constant is looked at after the other. -/
theorem eliminateUnusedConstants_cons (v : Value) (rest : List Value) (g : Graph β) :
    (eliminateUnusedConstants (v :: rest) g).2 =
      (eliminateUnusedConstants rest (if g.op? v = some .constant ∧ g.isUnusedNode v.node = true then
        (g.markEliminated v.node).2 else g)).2 := by
  simp only [eliminateUnusedConstants, eliminateIfUnused]
  by_cases hop : g.op? v = some .constant <;> by_cases hunused : g.isUnusedNode v.node = true <;>
    simp [hop, hunused]

/-- Removing unused constants takes out some of them. -/
theorem exists_pruned_eliminateUnusedConstants (values : List Value) (ht : g.Traceable) :
    ∃ ids, Pruned values g ids (eliminateUnusedConstants values g).2 := by
  induction values generalizing g with
  | nil => exact ⟨[], .refl [] g⟩
  | cons v rest ih =>
    rw [eliminateUnusedConstants_cons]
    split
    · next hgone =>
      obtain ⟨ids, hp⟩ := ih (ht.markEliminated v.node)
      exact ⟨v.node :: ids, hp.cons ht hgone.1 hgone.2⟩
    · obtain ⟨ids, hp⟩ := ih ht
      refine ⟨ids, hp.without, fun id hid => ?_, hp.unread⟩
      obtain ⟨x, hx, hconstant⟩ := hp.constant id hid
      exact ⟨x, List.mem_cons_of_mem v hx, hconstant⟩

end Graph

end Dataflow
