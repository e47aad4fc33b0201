import Dataflow.Proofs.Reads.Builders
import Dataflow.Proofs.Rule

/-!
# Matching with direct reads

A pattern node for an operation that may be absent reads the first input of the graph node directly,
after it has found that there is one.  So the search for a match never reads past the end of a list,
whatever the graph and the pattern are.

## Main definitions

* `Pattern.matchValueDirect` : the match at a value, with direct reads.
* `Rule.attemptDirect` : a rule tried at a node, with direct reads.

## Main statements

* `Pattern.finds_matchValue`, `Pattern.finds_findAll` : the matches are the same.
* `Rule.apply_attemptDirect` : so is what comes of trying a rule whose action does the same.
* `Rule.inRange_attempt_iff` : when trying a rule reads past the end of a list.
-/

namespace Dataflow

variable {β : Type}

/-! ### The search -/

/-- Whether a node passes the value of its first input through.  The input is read last. -/
def Graph.passesThroughDirect (g : Graph β) (n : Node β) : Direct Bool := do
  if n.outputs.length = 1 ∧ n.inputs ≠ [] ∧ n.inputs.countP (!g.isConstant ·) = 1 then
    return !g.isConstant (← .entry n.inputs 0)
  else return false

/-- The assignment of several pattern nodes in turn. -/
def embedAllDirect (embed : Nat → Value → MatchState → Direct MatchState) :
    List (Nat × Value) → MatchState → Direct MatchState
  | [], s => return s
  | (i, v) :: rest, s => do embedAllDirect embed rest (← embed i v s)

/-- The assignment of a pattern node that has no value yet, by its kind. -/
def embedKindDirect (g : Graph β) (embed : Nat → Value → MatchState → Direct MatchState)
    (e : PatternNode β) (i : Nat) (v : Value) (n : Node β) (s : MatchState) : Direct MatchState :=
  match e.kind with
  | .any => return s.bind i e.label v
  | .op ops inputs =>
    if ops.contains n.op then do
      let s ← .ofOption (s.claim i v)
      let s := s.bind i e.label v
      if inputs.isEmpty then return s
      else if inputs.length = n.inputs.length then embedAllDirect embed (inputs.zip n.inputs) s
      else failure
    else failure
  | .optional ops input =>
    if ops.contains n.op then do
      guard (← g.passesThroughDirect n)
      let s ← .ofOption (s.claim i v)
      embed input (← .entry n.inputs 0) (s.bind i e.label v)
    else embed input v (s.bind i e.label v)

/-- The assignment of the pattern node number `i`. -/
def embedDirect (g : Graph β) : List (PatternNode β) → Nat → Value → MatchState → Direct MatchState
  | [], _, _, _ => failure
  | e :: rest, i, v, s =>
    if i = rest.length then
      match s.get? i with
      | some w => if w = v then return s else failure
      | none => do
        let n ← .ofOption (g.source? v)
        if e.accepts g v then embedKindDirect g (embedDirect g rest) e i v n s else failure
    else embedDirect g rest i v s

theorem Graph.finds_passesThrough (g : Graph β) (n : Node β) :
    (g.passesThroughDirect n).Finds (some (g.passesThrough n)) := by
  unfold passesThroughDirect passesThrough
  cases n.inputs with
  | nil => simpa using Direct.Finds.pure
  | cons first rest =>
    split
    · next h =>
      refine .entry_bind rfl ?_
      simpa only [h.1, h.2.2, beq_self_eq_true, Bool.true_and] using Direct.Finds.pure
    · next h =>
      have hfalse : (n.outputs.length == 1 &&
          (first :: rest).countP (!g.isConstant ·) == 1) = false := by
        simpa using h
      simpa only [hfalse, Bool.false_and] using Direct.Finds.pure

section Embed

variable {g : Graph β} {f : Nat → Value → MatchState → Direct MatchState}
  {k : Nat → Value → MatchState → Option MatchState}

theorem finds_embedAll (hf : ∀ i v s, (f i v s).Finds (k i v s)) (l : List (Nat × Value))
    (s : MatchState) : (embedAllDirect f l s).Finds (embedAll k l s) := by
  induction l generalizing s with
  | nil => exact .pure
  | cons q l ih => exact (hf q.1 q.2 s).bind fun s _ => ih s

theorem finds_embedKind (hf : ∀ i v s, (f i v s).Finds (k i v s)) (e : PatternNode β) (i : Nat)
    (v : Value) (n : Node β) (s : MatchState) :
    (embedKindDirect g f e i v n s).Finds (embedKind g k e i v n s) := by
  unfold embedKindDirect embedKind
  cases e.kind with
  | any => exact .pure
  | op ops inputs =>
    refine .ite (fun _ => .bind .ofOption fun s _ => ?_) fun _ => .failure
    exact .ite (fun _ => .pure) fun _ => .ite (fun _ => finds_embedAll hf _ _) fun _ => .failure
  | optional ops input =>
    refine .ite (fun _ => .bind_some (g.finds_passesThrough n) ?_) fun _ => hf _ _ _
    cases hin : n.inputs with
    | nil =>
      have hpass : g.passesThrough n = false := by rw [Graph.passesThrough, hin]
      exact .bind_none (.refuse (by simp [hpass]))
    | cons first rest =>
      dsimp only
      split
      · next hpass =>
        exact .bind_some (.require hpass) (.bind .ofOption fun s _ => .entry_bind rfl (hf _ _ _))
      · next hpass => exact .bind_none (.refuse hpass)

end Embed

theorem finds_embed (g : Graph β) (nodes : List (PatternNode β)) (i : Nat) (v : Value)
    (s : MatchState) : (embedDirect g nodes i v s).Finds (embed g nodes i v s) := by
  induction nodes generalizing i v s with
  | nil => exact .failure
  | cons e rest ih =>
    unfold embedDirect embed
    refine .ite (fun _ => ?_) fun _ => ih i v s
    cases s.get? i with
    | some w => exact .ite (fun _ => .pure) fun _ => .failure
    | none =>
      cases g.source? v with
      | none => exact .bind_none .ofOption
      | some n =>
        exact .bind_some .ofOption (.ite (fun _ => finds_embedKind ih e i v n s) fun _ => .failure)

namespace Pattern

/-- The match at a value. -/
def matchValueDirect (p : Pattern β) (g : Graph β) (v : Value) : Direct Match := do
  let s ← embedDirect g p.nodes p.root v {}
  return ⟨v, s.bindings, s.labels, s.nodes⟩

/-- The match at the first output of a stored node that has one. -/
def matchNodeDirect (p : Pattern β) (g : Graph β) (id : Nat) : Direct Match := do
  let n ← .ofOption (g.node? id)
  n.values.firstM (p.matchValueDirect g)

/-- The matches at the live nodes, in processing order. -/
def findAllDirect (p : Pattern β) (g : Graph β) : Direct (List Match) := do
  let found ← g.liveNodes.mapM fun n => (p.matchNodeDirect g n.id).toOption
  return found.filterMap id

variable (p : Pattern β) (g : Graph β)

theorem finds_matchValue (v : Value) : (p.matchValueDirect g v).Finds (p.matchValue g v) := by
  rw [matchValue, Option.map_eq_bind]
  exact (finds_embed g p.nodes p.root v {}).bind fun _ _ => .pure

theorem finds_matchNode (id : Nat) : (p.matchNodeDirect g id).Finds (p.matchNode g id) :=
  .bind .ofOption fun _ _ => .firstM fun v _ => p.finds_matchValue g v

theorem finds_findAll : (p.findAllDirect g).Finds (some (p.findAll g)) := by
  have hfound := Direct.Finds.mapM (l := g.liveNodes) fun n _ => (p.finds_matchNode g n.id).toOption
  refine hfound.bind_some ?_
  rw [findAll, List.filterMap_map]
  exact .pure

end Pattern

/-! ### Rules -/

/-- A search with direct reads as a step of an edit. -/
def Edit.askDirect {α : Type} (r : Graph β → Direct α) : Edit β (Option α) :=
  ask fun g => (r g).run

theorem Edit.apply_askDirect {α : Type} {r : Graph β → Direct α} {g : Graph β} {o : Option α}
    (h : (r g).Finds o) : (askDirect r).apply g = (.ok o, g) := by
  rw [askDirect, apply_ask, h]

namespace Rule

variable {rule direct : Rule β} {g : Graph β} {id : Nat}

/-- The rule tried at some outputs of a node in turn, as `Rule.attemptAt` does. -/
def attemptAtDirect (rule : Rule β) (id : Nat) : List Nat → (sofar : Outcome) → Edit β Outcome
  | [], sofar => return sofar
  | i :: rest, sofar => do
    match ← Edit.askDirect (rule.pattern.matchValueDirect · ⟨id, i⟩) with
    | none => attemptAtDirect rule id rest sofar
    | some m =>
      if ← rule.action m then return .applied m.nodes
      else attemptAtDirect rule id rest .declined

/-- The rule tried at the outputs that a live node has at the start. -/
def attemptDirect (rule : Rule β) (id : Nat) : Edit β Outcome := do
  match (← get).live? id with
  | none => return .noMatch
  | some n => rule.attemptAtDirect id (List.range n.outputs.length) .noMatch

private theorem apply_attemptAtDirect (hpattern : direct.pattern = rule.pattern)
    (hrule : rule.Declines) (indices : List Nat)
    (hact : ∀ i ∈ indices, ∀ m, rule.pattern.matchValue g ⟨id, i⟩ = some m →
      (direct.action m).apply g = (rule.action m).apply g) (sofar : Outcome) :
    (direct.attemptAtDirect id indices sofar).apply g =
      (rule.attemptAt id indices sofar).apply g := by
  induction indices generalizing sofar with
  | nil => rfl
  | cons i rest ih =>
    have hrest := ih fun j hj => hact j (List.mem_cons_of_mem i hj)
    have hfound := rule.pattern.finds_matchValue g ⟨id, i⟩
    unfold attemptAtDirect attemptAt
    rw [hpattern, Edit.apply_bind_of_ok (Edit.apply_askDirect hfound),
      Edit.apply_bind_of_ok (Edit.apply_get g)]
    cases hm : rule.pattern.matchValue g ⟨id, i⟩ with
    | none => exact hrest sofar
    | some m =>
      dsimp only
      rw [Edit.apply_bind, Edit.apply_bind, hact i List.mem_cons_self m hm]
      rcases hout : (rule.action m).apply g with ⟨e | applied, g'⟩
      · rfl
      · cases applied with
        | true => rfl
        | false =>
          -- The match is declined, so that the graph is still the same.
          obtain rfl := hrule m g g' hout
          exact hrest .declined

/-- Trying a rule with direct reads comes to the same, if its action does the same at all matches. -/
theorem apply_attemptDirect (hpattern : direct.pattern = rule.pattern) (hrule : rule.Declines)
    (hact : ∀ m, rule.MatchesAt g id m → (direct.action m).apply g = (rule.action m).apply g) :
    (direct.attemptDirect id).apply g = (rule.attempt id).apply g := by
  unfold attemptDirect attempt
  rw [Edit.apply_bind_of_ok (Edit.apply_get g), Edit.apply_bind_of_ok (Edit.apply_get g)]
  cases hn : g.live? id with
  | none => rfl
  | some n =>
    refine apply_attemptAtDirect hpattern hrule _ (fun i hi m hm => ?_) _
    exact hact m ⟨n, i, hn, List.mem_range.1 hi, hm⟩

/-- Trying a rule does not read past the end of a list if its action does so at no match. -/
theorem inRange_attempt (hrule : rule.Declines)
    (h : ∀ m, rule.MatchesAt g id m → (rule.action m).InRange g) : (rule.attempt id).InRange g := by
  obtain ⟨⟨_, hattempt, -⟩, -⟩ | ⟨m, hm, -, hattempt⟩ := attempt_cases hrule g id
  · simp [Edit.InRange, hattempt]
  · have hact := h m hm
    unfold Edit.InRange at hact ⊢
    rw [hattempt]
    cases hout : ((rule.action m).apply g).1 with
    | error e => simpa [hout, Except.map] using hact
    | ok applied => simp [Except.map]

/-- If the action comes to the same at all matches, this is the only way. -/
theorem inRange_attempt_iff (hrule : rule.Declines)
    (hsame : ∀ m m', rule.MatchesAt g id m → rule.MatchesAt g id m' →
      (rule.action m).apply g = (rule.action m').apply g) :
    (rule.attempt id).InRange g ↔ ∀ m, rule.MatchesAt g id m → (rule.action m).InRange g := by
  refine ⟨fun h m hm => ?_, inRange_attempt hrule⟩
  obtain ⟨-, hdeclined⟩ | ⟨m', hm', -, hattempt⟩ := attempt_cases hrule g id
  · simp [Edit.InRange, hdeclined m hm]
  · unfold Edit.InRange at h ⊢
    rw [hattempt, hsame m' m hm' hm] at h
    cases hout : ((rule.action m).apply g).1 with
    | error e => simpa [hout, Except.map] using h
    | ok applied => simp

end Rule

end Dataflow
