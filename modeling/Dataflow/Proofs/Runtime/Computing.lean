import Dataflow.Proofs.Graph.Slots
import Dataflow.Proofs.Lists
import Dataflow.Proofs.Runtime.Evaluation

/-!
# Tensors of values

What an evaluation finds does not depend on its bound, so every value has at most one tensor.  The
tensor of a value is described node by node here, and it stays the same in any graph that has the
same nodes for it.

## Main definitions

* `Finds` : one evaluation finds what another one finds.
* `Op.isOrdinary` : the operations that work on their operands alone.

## Main statements

* `Graph.Computes.unique` : a value has one tensor.
* `Graph.computes_iff_of_ordinary` : the tensor that an operation computes.
* `Graph.Computes.transfer` : a value has the same tensor in a graph that has the same nodes for it.
-/

namespace Dataflow

/-! ### More steps -/

/-- Whatever `x` finds, `y` finds as well. -/
def Finds {α : Type} (x y : Option α) : Prop :=
  ∀ a, x = some a → y = some a

section Finds

variable {α γ : Type} {x y : Option α} {h k : α → Option γ}

theorem Finds.refl (x : Option α) : Finds x x :=
  fun _ h => h

theorem Finds.bind (hxy : Finds x y) (hhk : ∀ a, Finds (h a) (k a)) :
    Finds (x >>= h) (y >>= k) := by
  intro c hc
  obtain ⟨a, ha, hc⟩ := Option.bind_eq_some_iff.1 hc
  exact Option.bind_eq_some_iff.2 ⟨a, hxy a ha, hhk a c hc⟩

theorem Finds.mapM (hhk : ∀ a, Finds (h a) (k a)) (l : List α) : Finds (l.mapM h) (l.mapM k) :=
  fun _ hcs => mapM_eq_some_iff.2 ((mapM_eq_some_iff.1 hcs).imp fun a c => hhk a c)

end Finds

section Monotone

variable {f f' : Evaluator} (hf : ∀ g ρ v, Finds (f g ρ v) (f' g ρ v))
include hf

theorem Body.finds_iterate? (body : Body) (counter : Option Value) (operands : List Grid)
    (k : Nat) : Finds (body.iterate? f counter operands k) (body.iterate? f' counter operands k) := by
  induction k with
  | zero => exact .mapM (hf _ _) _
  | succ k ih => exact ih.bind fun _ => .mapM (hf _ _) _

theorem Body.finds_stepsFrom? (body : Body) (counter : Option Value) (condition : Nat)
    (operands : List Grid) (limit : Option Nat) {bound bound' : Nat} (hbound : bound ≤ bound')
    (k : Nat) : Finds (body.stepsFrom? f counter condition operands limit bound k)
      (body.stepsFrom? f' counter condition operands limit bound' k) := by
  induction bound generalizing bound' k with
  | zero => exact fun n hn => by simp [stepsFrom?] at hn
  | succ bound ih =>
    obtain ⟨bound', rfl⟩ := Nat.exists_eq_add_of_lt hbound
    rw [stepsFrom?, stepsFrom?]
    split
    · exact .refl _
    · refine (body.finds_iterate? hf counter operands k).bind fun results => ?_
      refine (Finds.refl _).bind fun t => (Finds.refl _).bind fun l => (Finds.refl _).bind fun n => ?_
      split
      · exact .refl _
      · exact ih (by omega) (k + 1)

theorem Body.finds_outputValue? (body : Body) (counter : Option Value) (operands : List Grid)
    (steps : Nat) (d : OutputMap) : Finds (body.outputValue? f counter operands steps d)
      (body.outputValue? f' counter operands steps d) := by
  cases d with
  | last result output =>
    exact (Finds.refl _).bind fun _ =>
      (body.finds_iterate? hf counter operands _).bind fun _ => .refl _
  | concat result output w =>
    refine Finds.bind (.mapM (fun k => ?_) _) fun _ => .refl _
    exact (body.finds_iterate? hf counter operands k).bind fun _ => .refl _

theorem Node.finds_loopValue? (n : Node Body) (operands : List Grid) (output : Nat)
    {bound bound' : Nat} (hbound : bound ≤ bound') :
    Finds (n.loopValue? f bound operands output) (n.loopValue? f' bound' operands output) := by
  refine (Finds.refl _).bind fun body => (Finds.refl _).bind fun d => ?_
  split
  · refine (Finds.refl _).bind fun control => (Finds.refl _).bind fun limit => ?_
    exact (body.finds_stepsFrom? hf _ _ operands limit hbound 0).bind fun steps =>
      body.finds_outputValue? hf _ operands steps d
  · exact (Finds.refl _).bind fun steps => body.finds_outputValue? hf _ operands steps d

theorem Node.finds_result? (I : Interpretation) (n : Node Body) (operands : List Grid)
    (output : Nat) {bound bound' : Nat} (hbound : bound ≤ bound') :
    Finds (n.result? I f bound operands output) (n.result? I f' bound' operands output) := by
  unfold result?
  split
  · exact .refl _
  · split
    · exact n.finds_loopValue? hf operands output hbound
    · exact .refl _

theorem Graph.finds_nodeValue? (I : Interpretation) (g : Graph Body) (ρ : Environment) (id : Nat)
    (n : Node Body) (output : Nat) {bound bound' : Nat} (hbound : bound ≤ bound') :
    Finds (g.nodeValue? I f bound ρ id n output) (g.nodeValue? I f' bound' ρ id n output) := by
  unfold nodeValue?
  split
  · exact .refl _
  · split
    · exact .refl _
    · exact Finds.bind (.mapM (hf g ρ) n.inputs) fun operands =>
        n.finds_result? hf I operands output hbound

end Monotone

namespace Graph

variable {g h : Graph Body} {I : Interpretation} {ρ : Environment} {v : Value} {t u : Grid}
  {n : Node Body} {l : Layout}

theorem finds_eval (I : Interpretation) {bound bound' : Nat} (hbound : bound ≤ bound')
    (g : Graph Body) (ρ : Environment) (v : Value) :
    Finds (g.eval I bound ρ v) (g.eval I bound' ρ v) := by
  induction bound generalizing bound' g ρ v with
  | zero => exact fun t ht => by simp [eval] at ht
  | succ bound ih =>
    obtain ⟨more, rfl⟩ := Nat.exists_eq_add_of_lt hbound
    have hle : bound ≤ bound + more := Nat.le_add_right _ _
    refine (Finds.refl _).bind fun n => (Finds.refl _).bind fun l => ?_
    exact (finds_nodeValue? (ih hle) I g ρ v.node n v.index hle).bind fun _ => .refl _

/-- A value has one tensor. -/
theorem Computes.unique (ht : g.Computes I ρ v t) (hu : g.Computes I ρ v u) : t = u := by
  obtain ⟨bound, ht⟩ := ht
  obtain ⟨bound', hu⟩ := hu
  have ht := finds_eval I (Nat.le_max_left bound bound') g ρ v t ht
  have hu := finds_eval I (Nat.le_max_right bound bound') g ρ v u hu
  exact Option.some.inj (ht.symm.trans hu)

/-- A value that is computed is an output of a live node, and its declared layout is true. -/
theorem computes_iff : g.Computes I ρ v t ↔ ∃ n l, g.live? v.node = some n ∧
    n.outputs[v.index]? = some l ∧ l.admits t = true ∧
      ∃ bound, g.nodeValue? I (eval I bound) bound ρ v.node n v.index = some t := by
  constructor
  · rintro ⟨bound, h⟩
    cases bound with
    | zero => simp [eval] at h
    | succ bound =>
      simp only [eval, Option.bind_eq_bind, Option.bind_eq_some_iff, Option.guard_eq_some',
        Option.pure_def, Option.some.injEq, exists_const] at h
      obtain ⟨n, hn, l, hl, u, hu, hadmits, rfl⟩ := h
      exact ⟨n, l, hn, hl, hadmits, bound, hu⟩
  · rintro ⟨n, l, hn, hl, hadmits, bound, h⟩
    refine ⟨bound + 1, ?_⟩
    simp only [eval, hn, hl, h, hadmits, Option.bind_eq_bind, Option.bind_some, guard_true,
      Option.pure_def]

theorem computes_iff_of_live (hn : g.live? v.node = some n) :
    g.Computes I ρ v t ↔ ∃ l, n.outputs[v.index]? = some l ∧ l.admits t = true ∧
      ∃ bound, g.nodeValue? I (eval I bound) bound ρ v.node n v.index = some t := by
  rw [computes_iff]
  constructor
  · rintro ⟨m, l, hm, h⟩
    obtain rfl := Option.some.inj (hn.symm.trans hm)
    exact ⟨l, h⟩
  · rintro ⟨l, h⟩
    exact ⟨n, l, hn, h⟩

/-- Tensors of several values. -/
theorem exists_eval_of_forall₂ {l : List Value} {ts : List Grid}
    (h : List.Forall₂ (g.Computes I ρ) l ts) : ∃ bound, l.mapM (g.eval I bound ρ) = some ts := by
  simp only [mapM_eq_some_iff]
  induction h with
  | nil => exact ⟨0, .nil⟩
  | cons hv _ ih =>
    obtain ⟨bound, hv⟩ := hv
    obtain ⟨bound', hrest⟩ := ih
    refine ⟨max bound bound', .cons (finds_eval I (Nat.le_max_left _ _) g ρ _ _ hv) ?_⟩
    exact hrest.imp fun v t => finds_eval I (Nat.le_max_right _ _) g ρ v t

theorem forall₂_of_mapM_eval {l : List Value} {ts : List Grid} {bound : Nat}
    (h : l.mapM (g.eval I bound ρ) = some ts) : List.Forall₂ (g.Computes I ρ) l ts :=
  (mapM_eq_some_iff.1 h).imp fun _ _ h => ⟨bound, h⟩

/-! ### One node -/

theorem computes_parameter_iff (hn : g.live? v.node = some n) (hop : n.op = .parameter) :
    g.Computes I ρ v t ↔ v.index = 0 ∧ ρ v.node = some t ∧
      ∃ l, n.outputs[0]? = some l ∧ l.admits t = true := by
  simp only [computes_iff_of_live hn, nodeValue?, hop, if_true]
  constructor
  · rintro ⟨l, hl, hadmits, -, h⟩
    split at h
    · next hzero => exact ⟨hzero, h, l, hzero ▸ hl, hadmits⟩
    · simp at h
  · rintro ⟨hzero, h, l, hl, hadmits⟩
    exact ⟨l, hzero ▸ hl, hadmits, 0, by rw [if_pos hzero, h]⟩

theorem computes_constant_iff (hn : g.live? v.node = some n) (hop : n.op.isConstant = true) :
    g.Computes I ρ v t ↔ v.index = 0 ∧ n.constant?.map Tensor.grid = some t ∧
      ∃ l, n.outputs[0]? = some l ∧ l.admits t = true := by
  have hne : n.op ≠ .parameter := by
    intro heq
    rw [heq] at hop
    exact absurd hop (by decide)
  simp only [computes_iff_of_live hn, nodeValue?, if_neg hne, hop, if_true]
  constructor
  · rintro ⟨l, hl, hadmits, -, h⟩
    split at h
    · next hzero => exact ⟨hzero, h, l, hzero ▸ hl, hadmits⟩
    · simp at h
  · rintro ⟨hzero, h, l, hl, hadmits⟩
    exact ⟨l, hzero ▸ hl, hadmits, 0, by rw [if_pos hzero, h]⟩

/-- The declared layout of a value is true of its tensor. -/
theorem Computes.admits (h : g.Computes I ρ v t) {l : Layout} (hl : g.layout? v = some l) :
    l.admits t = true := by
  obtain ⟨n, l', hn, hl', hadmits, -⟩ := computes_iff.1 h
  rw [layout?, producer?, node?_of_live? hn, Option.bind_some, hl'] at hl
  rwa [← Option.some.inj hl]

/-- The tensor of a constant value. -/
theorem Computes.eq_grid (h : g.Computes I ρ v t) {c : Tensor} (hc : g.constant? v = some c) :
    t = c.grid := by
  obtain ⟨n, l, hn, -⟩ := computes_iff.1 h
  unfold constant? at hc
  split at hc
  · rw [producer?, node?_of_live? hn, Option.bind_some] at hc
    have hop : n.op.isConstant = true := by
      unfold Node.constant? at hc
      split at hc
      · assumption
      · simp at hc
    obtain ⟨-, ht, -⟩ := (computes_constant_iff hn hop).1 h
    rw [hc, Option.map_some, Option.some.injEq] at ht
    exact ht.symm
  · simp at hc

end Graph

/-- A constant has the same whole numbers when the graph runs. -/
theorem Tensor.ints?_grid {c : Tensor} {words : List Int} (h : c.toInts.toOption = some words) :
    c.grid.ints? = some words := by
  obtain ⟨shape, elements, hlen⟩ := c
  cases elements with
  | i64 data =>
    obtain rfl := Option.some.inj h
    exact Grid.ints?_vector data
  | f32 data =>
    obtain ⟨ws, hws, h⟩ : ∃ ws, (Tensor.mk shape (.f32 data) hlen).toInts = .ok ws ∧ ws = words := by
      cases hints : (Tensor.mk shape (.f32 data) hlen).toInts with
      | error e => simp [hints, Except.toOption] at h
      | ok ws => exact ⟨ws, rfl, by simpa [hints, Except.toOption] using h⟩
    subst h
    refine mapM_eq_some_iff.2 ?_
    rw [show (Tensor.mk shape (.f32 data) hlen).grid.entries = data.map .single from rfl,
      List.forall₂_map_left_iff]
    refine (forall₂_of_mapM_ok hws).imp fun x n hx => ?_
    split at hx
    · next hwhole =>
      rw [Scalar.toInt?, if_pos hwhole, Except.ok.inj hx]
    · simp at hx

theorem Graph.Computes.ints?_eq {g : Graph Body} {I : Interpretation} {ρ : Environment} {v : Value}
    {t : Grid} {words : List Int} (h : g.Computes I ρ v t) (hc : g.constantInts? v = some words) :
    t.ints? = some words := by
  obtain ⟨c, hconst, hints⟩ := Option.bind_eq_some_iff.1 hc
  rw [h.eq_grid hconst]
  exact Tensor.ints?_grid hints

/-- Whether the operation works on the tensors of its operands alone. -/
def Op.isOrdinary : Op → Bool
  | parameter | constant | data | tensorIterator | loop => false
  | _ => true

theorem Op.isOrdinary_iff {op : Op} : op.isOrdinary = true ↔
    op ≠ .parameter ∧ op.isConstant = false ∧ ¬ (op = .tensorIterator ∨ op = .loop) := by
  cases op <;> decide

theorem Node.result?_eq_some {I : Interpretation} {f : Evaluator} {bound : Nat} {n : Node Body}
    (hop : n.op.isOrdinary = true) {operands : List Grid} {i : Nat} {t : Grid} :
    n.result? I f bound operands i = some t ↔
      ∃ results, I n.op n.attributes operands = some results ∧ results[i]? = some t := by
  unfold result?
  rw [if_neg (Op.isOrdinary_iff.1 hop).2.2]
  cases I n.op n.attributes operands <;> simp

namespace Graph

variable {g h : Graph Body} {I : Interpretation} {ρ : Environment} {v : Value} {t u : Grid}
  {n : Node Body}

theorem computes_iff_of_ordinary (hn : g.live? v.node = some n) (hop : n.op.isOrdinary = true) :
    g.Computes I ρ v t ↔ ∃ l operands results, n.outputs[v.index]? = some l ∧ l.admits t = true ∧
      List.Forall₂ (g.Computes I ρ) n.inputs operands ∧
        I n.op n.attributes operands = some results ∧ results[v.index]? = some t := by
  obtain ⟨hparam, hconst, -⟩ := Op.isOrdinary_iff.1 hop
  simp only [computes_iff_of_live hn, nodeValue?, if_neg hparam, hconst, Bool.false_eq_true, if_false,
    Option.bind_eq_bind, Option.bind_eq_some_iff, Node.result?_eq_some hop]
  constructor
  · rintro ⟨l, hl, hadmits, bound, operands, hoperands, results, hresults, ht⟩
    exact ⟨l, operands, results, hl, hadmits, forall₂_of_mapM_eval hoperands, hresults, ht⟩
  · rintro ⟨l, operands, results, hl, hadmits, hoperands, hresults, ht⟩
    obtain ⟨bound, hbound⟩ := exists_eval_of_forall₂ hoperands
    exact ⟨l, hl, hadmits, bound, operands, hbound, results, hresults, ht⟩

theorem Computes.exists_loopValue? (h : g.Computes I ρ v t) (hn : g.live? v.node = some n)
    (hop : n.op = .tensorIterator ∨ n.op = .loop) (hI : ∀ ts, I n.op n.attributes ts = none) :
    ∃ operands bound, List.Forall₂ (g.Computes I ρ) n.inputs operands ∧
      n.loopValue? (eval I bound) bound operands v.index = some t := by
  obtain ⟨m, l, hm, -, -, bound, h⟩ := computes_iff.1 h
  obtain rfl := Option.some.inj (hn.symm.trans hm)
  have hne : n.op ≠ .parameter ∧ n.op.isConstant = false := by
    obtain hop | hop := hop <;> rw [hop] <;> decide
  simp only [nodeValue?, if_neg hne.1, hne.2, Bool.false_eq_true, if_false, Node.result?, hI,
    if_pos hop, Option.bind_eq_bind, Option.bind_eq_some_iff] at h
  obtain ⟨operands, hoperands, ht⟩ := h
  exact ⟨operands, bound, forall₂_of_mapM_eval hoperands, ht⟩

theorem Computes.hasValue (h : g.Computes I ρ v t) : g.hasValue v = true := by
  obtain ⟨n, l, hn, hl, -⟩ := computes_iff.1 h
  exact hasValue_iff.2 ⟨n, hn, (List.getElem?_eq_some_iff.1 hl).1⟩

/-- A value has the same tensor in another graph that has the same nodes for it.  The inputs of a
parameter or of a constant do not matter. -/
theorem Computes.transfer {P : Nat → Prop}
    (hP : ∀ id n, P id → g.live? id = some n → h.live? id = some n)
    (hclosed : ∀ id n, P id → g.live? id = some n → n.op ≠ .parameter → n.op.isConstant = false →
      ∀ w ∈ n.inputs, g.hasValue w = true → P w.node)
    (hv : P v.node) (hcomp : g.Computes I ρ v t) : h.Computes I ρ v t := by
  have heval : ∀ bound v t, P v.node → g.eval I bound ρ v = some t → h.eval I bound ρ v = some t := by
    intro bound
    induction bound with
    | zero => intro v t _ ht; simp [eval] at ht
    | succ bound ih =>
      intro v t hv ht
      simp only [eval, Option.bind_eq_bind, Option.bind_eq_some_iff] at ht ⊢
      obtain ⟨n, hn, l, hl, u, hu, ht⟩ := ht
      refine ⟨n, hP _ _ hv hn, l, hl, u, ?_, ht⟩
      unfold nodeValue? at hu ⊢
      split
      · next hparam => rwa [if_pos hparam] at hu
      · next hparam =>
        rw [if_neg hparam] at hu
        split
        · next hconst => rwa [if_pos hconst] at hu
        · next hconst =>
          rw [if_neg hconst] at hu
          obtain ⟨operands, hoperands, hu⟩ := Option.bind_eq_some_iff.1 hu
          refine Option.bind_eq_some_iff.2 ⟨operands, ?_, hu⟩
          have hinputs := mapM_eq_some_iff.1 hoperands
          refine mapM_eq_some_iff.2 (List.forall₂_iff_zip.2 ⟨hinputs.length_eq, fun {w s} hws => ?_⟩)
          have hw := List.forall₂_zip hinputs hws
          refine ih w s (hclosed _ _ hv hn hparam (by simpa using hconst) w ?_ ?_) hw
          · exact (List.of_mem_zip hws).1
          · exact Computes.hasValue ⟨bound, hw⟩
  obtain ⟨bound, ht⟩ := hcomp
  exact ⟨bound, heval bound v t hv ht⟩

end Graph

end Dataflow
