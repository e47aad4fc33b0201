import Dataflow.Pattern.Match
import Dataflow.Proofs.Graph.Slots

/-!
# The search for an embedding

The search for the values of a pattern's nodes recurs on the list of the nodes.  Here it gets an
equation of its own, in which a node is found by its number and its inputs are searched with the
whole pattern: a node refers only to nodes before it, so those behind it in the list do not matter.

## Main statements

* `Pattern.node?_cons` : the node with a number, by recursion on the list.
* `embed_eq` : the equation of the search.
* `MatchState.get?_bind`, `MatchState.bind_claim_eq_some` : what an assignment and a claim do.
-/

namespace Dataflow

variable {β : Type}

namespace Pattern

/-- The node with a number is the first of the list, or one of the rest. -/
theorem node?_cons (e : PatternNode β) (rest : List (PatternNode β)) (i : Nat) :
    (⟨e :: rest⟩ : Pattern β).node? i =
      if i = rest.length then some e else (⟨rest⟩ : Pattern β).node? i := by
  simp only [node?, List.length_cons]
  rcases Nat.lt_trichotomy i rest.length with h | h | h
  · have hne : rest.length + 1 - 1 - i = rest.length - 1 - i + 1 := by omega
    rw [if_pos (by omega), if_neg (Nat.ne_of_lt h), if_pos h, hne, List.getElem?_cons_succ]
  · subst h
    simp
  · rw [if_neg (by omega), if_neg (Nat.ne_of_gt h), if_neg (by omega)]

theorem node?_isSome {p : Pattern β} {i : Nat} : (p.node? i).isSome ↔ i < p.nodes.length := by
  unfold node?
  split
  · next h => simp [h]; omega
  · next h => simp [h]

theorem root_lt_length {p : Pattern β} (hp : p.WellFormed) : p.root < p.nodes.length :=
  Nat.sub_lt (List.length_pos_of_ne_nil hp.1) Nat.one_pos

/-- Whether every node refers only to nodes before it. -/
def refersBack : List (PatternNode β) → Bool
  | [] => true
  | e :: rest => e.kind.inputs.all (· < rest.length) && refersBack rest

theorem WellFormed.of_refersBack {nodes : List (PatternNode β)} (hne : nodes ≠ [])
    (h : refersBack nodes = true) : (⟨nodes⟩ : Pattern β).WellFormed := by
  refine ⟨hne, ?_⟩
  clear hne
  induction nodes with
  | nil => simp [node?]
  | cons e nodes ih =>
    rw [refersBack, Bool.and_eq_true, List.all_eq_true] at h
    intro i f hf j hj
    rw [node?_cons] at hf
    split at hf
    · next hi =>
      obtain rfl := Option.some.inj hf
      exact hi ▸ of_decide_eq_true (h.1 j hj)
    · exact ih h.2 i f hf j hj

end Pattern

/-! ### The equation of the search -/

/-- The search at a node depends only on the searches at its inputs. -/
theorem embedKind_congr {g : Graph β} {f f' : Nat → Value → MatchState → Option MatchState}
    {e : PatternNode β} (h : ∀ j ∈ e.kind.inputs, f j = f' j) (i : Nat) (v : Value) (n : Node β)
    (s : MatchState) : embedKind g f e i v n s = embedKind g f' e i v n s := by
  have hall : ∀ (l : List (Nat × Value)), (∀ q ∈ l, q.1 ∈ e.kind.inputs) →
      ∀ s, embedAll f l s = embedAll f' l s := by
    intro l hl
    induction l with
    | nil => exact fun _ => rfl
    | cons q l ih =>
      intro s
      have htail : embedAll f l = embedAll f' l :=
        funext fun s => ih (fun r hr => hl r (List.mem_cons_of_mem _ hr)) s
      simp only [embedAll, h q.1 (hl q List.mem_cons_self), htail]
  unfold embedKind
  cases hkind : e.kind with
  | any => rfl
  | op ops inputs =>
    have hzip := hall (inputs.zip n.inputs) fun q hq => by
      rw [hkind]
      exact (List.of_mem_zip hq).1
    simp only [hzip]
  | optional ops input =>
    have hin : f input = f' input := h input (by simp [hkind, PatternKind.inputs])
    simp only [hin]

private theorem embed_cons_of_ne {g : Graph β} {e : PatternNode β} {rest : List (PatternNode β)}
    {i : Nat} (h : i ≠ rest.length) : embed g (e :: rest) i = embed g rest i := by
  funext v s
  rw [embed, if_neg h]

private theorem embed_eq_of_nodes (g : Graph β) (nodes : List (PatternNode β))
    (hw : ∀ i e, (⟨nodes⟩ : Pattern β).node? i = some e → ∀ j ∈ e.kind.inputs, j < i) {i : Nat}
    {e : PatternNode β} (he : (⟨nodes⟩ : Pattern β).node? i = some e) (v : Value)
    (s : MatchState) :
    embed g nodes i v s =
      match s.get? i with
      | some w => if w = v then some s else none
      | none =>
        match g.source? v with
        | none => none
        | some n =>
          if e.accepts g v then embedKind g (embed g nodes) e i v n s else none := by
  induction nodes generalizing i e v s with
  | nil => simp [Pattern.node?] at he
  | cons e' rest ih =>
    have hchild : ∀ j ∈ e.kind.inputs, j < i := hw i e he
    rw [Pattern.node?_cons] at he
    split at he
    · next hi =>
      obtain rfl := Option.some.inj he
      have hcongr : ∀ n, embedKind g (embed g rest) e' i v n s =
          embedKind g (embed g (e' :: rest)) e' i v n s := fun n =>
        embedKind_congr (fun j hj =>
          (embed_cons_of_ne (Nat.ne_of_lt (hi ▸ hchild j hj))).symm) i v n s
      rw [embed, if_pos hi]
      cases s.get? i with
      | some w => rfl
      | none =>
        cases g.source? v with
        | none => rfl
        | some n => simp only [hcongr]
    · next hi =>
      have hlt : i < rest.length := by
        unfold Pattern.node? at he
        split at he
        · assumption
        · simp at he
      have hw' : ∀ i e, (⟨rest⟩ : Pattern β).node? i = some e → ∀ j ∈ e.kind.inputs, j < i := by
        intro k f hf
        refine hw k f ?_
        rw [Pattern.node?_cons, if_neg ?_, hf]
        rintro rfl
        simp [Pattern.node?] at hf
      have hcongr : ∀ n, embedKind g (embed g rest) e i v n s =
          embedKind g (embed g (e' :: rest)) e i v n s := fun n =>
        embedKind_congr (fun j hj =>
          (embed_cons_of_ne (Nat.ne_of_lt (Nat.lt_trans (hchild j hj) hlt))).symm) i v n s
      rw [embed_cons_of_ne hi, ih hw' he]
      simp only [hcongr]

/-- The search at a node of the pattern: a node that has a value keeps it; any other node needs an
output of a live node that it accepts, and then its inputs are searched. -/
theorem embed_eq {p : Pattern β} (hp : p.WellFormed) (g : Graph β) {i : Nat} {e : PatternNode β}
    (he : p.node? i = some e) (v : Value) (s : MatchState) :
    embed g p.nodes i v s =
      match s.get? i with
      | some w => if w = v then some s else none
      | none =>
        match g.source? v with
        | none => none
        | some n =>
          if e.accepts g v then embedKind g (embed g p.nodes) e i v n s else none :=
  embed_eq_of_nodes g p.nodes hp.2 he v s

/-! ### Assignments and claims -/

namespace MatchState

theorem get?_bind (s : MatchState) (i : Nat) (label : Option String) (v : Value) (k : Nat) :
    (s.bind i label v).get? k = if k = i then some v else s.get? k := by
  simp only [get?, bind, List.lookup_cons]
  split <;> simp_all

@[simp] theorem owners_bind (s : MatchState) (i : Nat) (label : Option String) (v : Value) :
    (s.bind i label v).owners = s.owners :=
  rfl

@[simp] theorem nodes_bind (s : MatchState) (i : Nat) (label : Option String) (v : Value) :
    (s.bind i label v).nodes = s.nodes :=
  rfl

/-- A claim on a value that nothing owns. -/
def own (s : MatchState) (i : Nat) (v : Value) : MatchState :=
  { s with
    owners := (v, i) :: s.owners
    nodes := if s.nodes.contains v.node then s.nodes else s.nodes ++ [v.node] }

theorem claim_of_not_owned {s : MatchState} {v : Value} (h : s.owners.lookup v = none) (i : Nat) :
    s.claim i v = some (s.own i v) := by
  simp only [claim, h, own]

/-- A pattern node that owns nothing yet can claim a value only if nothing owns it. -/
theorem bind_claim_eq_some {s s' : MatchState} {i : Nat} {v : Value}
    {f : MatchState → Option MatchState} (hi : s.owners.lookup v ≠ some i) :
    (s.claim i v).bind f = some s' ↔ s.owners.lookup v = none ∧ f (s.own i v) = some s' := by
  cases h : s.owners.lookup v with
  | none => simp only [claim_of_not_owned h, Option.bind_some, true_and]
  | some k =>
    have hk : k ≠ i := fun e => hi (h.trans (congrArg some e))
    simp [claim, h, hk]

theorem lookup_own (s : MatchState) (i : Nat) (v w : Value) :
    (s.own i v).owners.lookup w = if w = v then some i else s.owners.lookup w := by
  simp only [own, List.lookup_cons]
  split <;> simp_all

@[simp] theorem get?_own (s : MatchState) (i : Nat) (v : Value) : (s.own i v).get? = s.get? :=
  rfl

theorem nodup_own {s : MatchState} (h : s.nodes.Nodup) (i : Nat) (v : Value) :
    (s.own i v).nodes.Nodup := by
  unfold own
  dsimp only
  split
  · exact h
  · next hc =>
    refine List.nodup_append.2 ⟨h, List.nodup_singleton _, ?_⟩
    rintro a ha b hb rfl
    exact hc (List.contains_iff_mem.2 (List.mem_singleton.1 hb ▸ ha))

theorem mem_own {s : MatchState} {i : Nat} {v : Value} {id : Nat} :
    id ∈ (s.own i v).nodes ↔ id ∈ s.nodes ∨ id = v.node := by
  unfold own
  dsimp only
  split
  · next hc =>
    refine ⟨.inl, ?_⟩
    rintro (h | rfl)
    · exact h
    · exact List.contains_iff_mem.1 hc
  · simp

end MatchState

end Dataflow
