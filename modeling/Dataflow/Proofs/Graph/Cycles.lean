import Dataflow.Proofs.Graph.Redirect
import Dataflow.Proofs.Graph.Specs
import Dataflow.Proofs.Graph.Walk

/-!
# Cycles that a redirection closes

When `v` is redirected to `w`, the node of `w` comes to feed the readers of `v`.  In a graph without
cycles these new references close one exactly when a chain of references leads from some reader of
`v` that is moved to the node of `w`.  Such a chain never passes through the node of `v`, so all its
references are still there afterwards; and what lies between the last and the first new reference of
a new cycle is such a chain.

## Main statements

* `Graph.feeds_of_redirect`, `Graph.Feeds.redirect` : the references after a redirection.
* `Graph.acyclic_redirect_iff` : when a redirection leaves a graph without cycles.
* `Graph.not_acyclic_redirect_iff` : the same, in terms of a search for a path.
-/

namespace Dataflow

namespace Graph

open Relation

variable {β : Type} {g h : Graph β} {v w : Value} {u : Use} {a b p : Nat} {M : Nat → Prop}

/-! ### References after a change -/

theorem Acyclic.markEliminated (ha : g.Acyclic) (id : Nat) : (g.markEliminated id).2.Acyclic :=
  ha.mono fun _ _ ⟨u, v, hu, hb, hv⟩ => ⟨u, v, ((reads_markEliminated g id).1 hu).2, hb, hv⟩

/-- A reference after a redirection is an old one, or leads from the node of `w` to a reader of `v`
that has been moved. -/
theorem feeds_of_redirect (hi : g.Indexed) (hab : (g.redirect v w).2.Feeds a b) :
    g.Feeds a b ∨ a = w.node ∧ ∃ u, g.Reads u v ∧ u.node ≠ w.node ∧ u.node = b := by
  obtain ⟨u, x, hu, rfl, rfl⟩ := hab
  rw [reads_redirect hi.live] at hu
  split at hu
  · exact .inl hu.feeds
  · next hne =>
    obtain ⟨y, hy, rfl⟩ := hu
    by_cases hyv : y = v
    · subst hyv
      exact .inr ⟨by rw [Value.subst, if_pos rfl], u, hy, hne, rfl⟩
    · rw [Value.subst_of_ne w hyv]
      exact .inl hy.feeds

/-- A reference to another node than that of `v` stays. -/
theorem Feeds.redirect (hi : g.Indexed) (hab : g.Feeds a b) (hav : a ≠ v.node) (w : Value) :
    (g.redirect v w).2.Feeds a b := by
  obtain ⟨u, x, hu, rfl, rfl⟩ := hab
  refine Reads.feeds ((reads_redirect hi.live v w).2 ?_)
  split
  · exact hu
  · exact ⟨x, hu, Value.subst_of_ne w fun hxv => hav (hxv ▸ rfl)⟩

/-- A reader of `v` that has been moved reads from the node of `w`. -/
theorem Reads.feeds_redirect (hi : g.Indexed) (hu : g.Reads u v) (hne : u.node ≠ w.node) :
    (g.redirect v w).2.Feeds w.node u.node := by
  refine Reads.feeds ((reads_redirect hi.live v w).2 ?_)
  rw [if_neg hne]
  exact ⟨v, hu, if_pos rfl⟩

/-! ### New references from one node -/

/-- All new references of a graph lead from one node to some targets. -/
def NewFrom (g : Graph β) (p : Nat) (M : Nat → Prop) (h : Graph β) : Prop :=
  ∀ ⦃a b⦄, h.Feeds a b → g.Feeds a b ∨ a = p ∧ M b

/-- What follows the last new reference of a chain is an old chain. -/
theorem NewFrom.of_last (hn : g.NewFrom p M h) (hab : TransGen h.Feeds a b) :
    TransGen g.Feeds a b ∨ ∃ m, M m ∧ ReflTransGen g.Feeds m b := by
  induction hab with
  | single hab =>
    obtain hab | ⟨-, hb⟩ := hn hab
    · exact .inl (.single hab)
    · exact .inr ⟨_, hb, .refl⟩
  | tail _ hbc ih =>
    obtain hbc | ⟨-, hc⟩ := hn hbc
    · obtain hab | ⟨m, hm, hmb⟩ := ih
      · exact .inl (hab.tail hbc)
      · exact .inr ⟨m, hm, hmb.tail hbc⟩
    · exact .inr ⟨_, hc, .refl⟩

/-- What precedes the first new reference of a chain is an old chain. -/
theorem NewFrom.of_first (hn : g.NewFrom p M h) (hab : TransGen h.Feeds a b) :
    TransGen g.Feeds a b ∨ ReflTransGen g.Feeds a p := by
  induction hab using TransGen.head_induction_on with
  | single hab =>
    obtain hab | ⟨rfl, -⟩ := hn hab
    · exact .inl (.single hab)
    · exact .inr .refl
  | head hac _ ih =>
    obtain hac | ⟨rfl, -⟩ := hn hac
    · exact ih.imp (TransGen.head hac) (ReflTransGen.head hac)
    · exact .inr .refl

/-- A cycle that new references have closed runs along an old chain from a target back to the node
that they start from. -/
theorem NewFrom.acyclic (hn : g.NewFrom p M h) (ha : g.Acyclic)
    (hM : ∀ m, M m → ¬ ReflTransGen g.Feeds m p) : h.Acyclic := by
  intro id hid
  obtain hold | ⟨m, hm, hback⟩ := hn.of_last hid
  · exact ha id hold
  · obtain hold | hforth := hn.of_first hid
    · exact ha id hold
    · exact hM m hm (hback.trans hforth)

/-! ### The cycles of a redirection -/

/-- A chain from a reader of `v` does not come back to the node of `v`, and is kept. -/
theorem Acyclic.chain_redirect (ha : g.Acyclic) (hi : g.Indexed) (hu : g.Reads u v) (w : Value)
    (hchain : ReflTransGen g.Feeds u.node b) :
    ReflTransGen (g.redirect v w).2.Feeds u.node b := by
  induction hchain with
  | refl => exact .refl
  | @tail b c hub hbc ih =>
    refine ih.tail (hbc.redirect hi (fun hb => ?_) w)
    exact ha b (.head' (hb ▸ hu.feeds) hub)

/-- A redirection closes no cycle exactly when no reader that is moved leads to the new producer. -/
theorem acyclic_redirect_iff (hi : g.Indexed) (ha : g.Acyclic) (v w : Value) :
    (g.redirect v w).2.Acyclic ↔
      ∀ u, g.Reads u v → u.node ≠ w.node → ¬ ReflTransGen g.Feeds u.node w.node := by
  constructor
  · intro hacyclic u hu hne hchain
    exact hacyclic w.node (.head' (hu.feeds_redirect hi hne) (ha.chain_redirect hi hu w hchain))
  · intro hfree
    have hnew : g.NewFrom w.node (fun b => ∃ u, g.Reads u v ∧ u.node ≠ w.node ∧ u.node = b)
        (g.redirect v w).2 := fun a b => feeds_of_redirect hi
    refine hnew.acyclic ha ?_
    rintro _ ⟨u, hu, hne, rfl⟩
    exact hfree u hu hne

/-- **When a redirection closes a cycle.**  In a graph without cycles and dangling references,
redirecting `v` to `w` makes a cycle exactly when there is a path from a reader of `v`, other than
the node of `w`, to the node of `w`. -/
theorem not_acyclic_redirect_iff (hnum : g.Numbered) (hi : g.Indexed) (hd : g.NoDangling)
    (ha : g.Acyclic) (v w : Value) :
    ¬ (g.redirect v w).2.Acyclic ↔
      ∃ u ∈ g.uses v, u.node ≠ w.node ∧ g.hasPath u.node w.node = true := by
  simp only [acyclic_redirect_iff hi ha, hasPath_iff hnum hi hd, hi.mem_uses]
  push Not
  rfl

/-- A sum of a value and its rectified value, and the rectified sum. -/
def rectifiedSumSpecs : List (NodeSpec Unit) :=
  [{ op := .parameter, outputs := [.planar (.ofLengths [2]) .f32] },
    { op := .relu, inputs := [⟨0, 0⟩], outputs := [.planar (.ofLengths [2]) .f32] },
    { op := .add, inputs := [⟨1, 0⟩, ⟨0, 0⟩], outputs := [.planar (.ofLengths [2]) .f32] },
    { op := .relu, inputs := [⟨2, 0⟩], outputs := [.planar (.ofLengths [2]) .f32] }]

/-- The rectifier may take the place of its argument in the sum, but the sum may not: it would come
to feed the rectifier, whose value it adds. -/
theorem not_acyclic_redirect_rectifiedSum :
    let g := ofSpecs rectifiedSumSpecs [⟨3, 0⟩]
    g.Numbered ∧ g.Indexed ∧ g.NoDangling ∧ g.Acyclic ∧
      (g.redirect ⟨0, 0⟩ ⟨1, 0⟩).2.Acyclic ∧ ¬ (g.redirect ⟨0, 0⟩ ⟨2, 0⟩).2.Acyclic := by
  obtain ⟨hk, ha, hd⟩ := ofSpecs_sound rectifiedSumSpecs [⟨3, 0⟩] (by decide +kernel)
    (by decide +kernel)
  have hcycle := not_acyclic_redirect_iff hk.numbered hk.indexed hd ha ⟨0, 0⟩
  refine ⟨hk.numbered, hk.indexed, hd, ha, ?_, ?_⟩
  · exact not_not.1 ((hcycle ⟨1, 0⟩).not.2 (by decide +kernel))
  · exact (hcycle ⟨2, 0⟩).2 (by decide +kernel)

end Graph

end Dataflow
