import Dataflow.Proofs.Runtime.Operations
import Dataflow.Proofs.Runtime.Shapes
import Dataflow.Proofs.Success

/-!
# Lengths of the sequences of a batch

The nodes that list the length of every sequence of a batch are run one after the other, from any
tensors of the values that were there before.  Whether the list is a constant or is read off the
value when the graph runs, it holds the number of positions of the value once for every entry of the
batch.

## Main definitions

* `Graph.runFrom?` : the tensors of values after the nodes from a number on have run.

## Main statements

* `Graph.runFrom?_push` : a further node.
* `Edit.exists_sequenceLengths_iff` : when the lengths can be listed.
* `Edit.lengths_of_sequences` : what the list holds, and how it is declared.
-/

namespace Dataflow

variable {β : Type}

/-! ### Running nodes in order -/

/-- The tensors of values, as far as they are known. -/
abbrev Tensors : Type :=
  Value → Option Grid

/-- The tensors after a node has been given results. -/
def Tensors.assign (T : Tensors) (id : Nat) (results : List Grid) : Tensors := fun v =>
  if v.node = id then results[v.index]? else T v

/-- The results of a node. -/
def Node.run? (I : Interpretation) (n : Node β) (T : Tensors) : Option (List Grid) :=
  if n.op.isConstant then n.constant?.map fun c => [c.grid]
  else do I n.op n.attributes (← n.inputs.mapM T)

namespace Graph

variable {g : Graph β} {I : Interpretation} {T T' : Tensors} {start count : Nat} {spec : NodeSpec β}
  {results : List Grid}

/-- The tensors after a number of nodes have run in order, beginning with the given one. -/
def runNodes? (I : Interpretation) (g : Graph β) (start : Nat) (T : Tensors) :
    (count : Nat) → Option Tensors
  | 0 => some T
  | count + 1 => do
    let T' ← runNodes? I g start T count
    let n ← g.live? (start + count)
    return T'.assign (start + count) (← n.run? I T')

/-- The tensors after all nodes from a number on have run in order. -/
def runFrom? (I : Interpretation) (g : Graph β) (start : Nat) (T : Tensors) : Option Tensors :=
  g.runNodes? I start T (g.slots.length - start)

theorem runFrom?_length (I : Interpretation) (g : Graph β) (T : Tensors) :
    g.runFrom? I g.slots.length T = some T := by
  rw [runFrom?, Nat.sub_self]
  rfl

/-- A further node does not matter to the nodes before it. -/
theorem runNodes?_push (spec : NodeSpec β) (h : start + count ≤ g.slots.length) :
    (g.push spec).runNodes? I start T count = g.runNodes? I start T count := by
  induction count with
  | zero => rfl
  | succ count ih => rw [runNodes?, runNodes?, ih (by omega), live?_push, if_neg (by omega)]

/-- A further node runs after all the other ones. -/
theorem runFrom?_push (hrun : g.runFrom? I start T = some T') (hstart : start ≤ g.slots.length)
    (hnode : (spec.build g.slots.length).run? I T' = some results) :
    (g.push spec).runFrom? I start T = some (T'.assign g.slots.length results) := by
  have hcount : (g.push spec).slots.length - start = g.slots.length - start + 1 := by
    rw [length_slots_push]
    omega
  have hlast : start + (g.slots.length - start) = g.slots.length := by omega
  rw [runFrom?] at hrun
  rw [runFrom?, hcount, runNodes?, runNodes?_push spec (by omega), hrun, hlast, live?_push,
    if_pos rfl]
  simp only [Option.bind_eq_bind, Option.bind_some, hnode, Option.pure_def]

end Graph

theorem Tensors.assign_new (T : Tensors) (id : Nat) (results : List Grid) (i : Nat) :
    T.assign id results ⟨id, i⟩ = results[i]? :=
  if_pos rfl

theorem Tensors.assign_of_lt (T : Tensors) {id : Nat} (results : List Grid) {v : Value}
    (h : v.node < id) : T.assign id results v = T v :=
  if_neg (Nat.ne_of_lt h)

/-- A node has as results what its operation makes of its operands. -/
theorem Node.run?_of_operands {I : Interpretation} {n : Node β} {T : Tensors}
    {operands results : List Grid} (hop : n.op.isConstant = false)
    (hoperands : List.Forall₂ (fun v t => T v = some t) n.inputs operands)
    (hI : I n.op n.attributes operands = some results) : n.run? I T = some results := by
  rw [run?, hop, if_neg Bool.false_ne_true, mapM_eq_some_iff.2 hoperands, Option.bind_eq_bind,
    Option.bind_some, hI]

/-- A constant has its entries as its result. -/
theorem Graph.run?_constantSpec {I : Interpretation} {T : Tensors} (name : String) (c : Tensor)
    (id : Nat) : ((constantSpec name c : NodeSpec β).build id).run? I T = some [c.grid] := by
  rw [Node.run?, constant?_constantSpec]
  rfl

namespace Edit

variable {g g' : Graph β} {I : Interpretation} {T T' : Tensors} {start : Nat} {name suffix : String}
  {v w x : Value} {l : Layout}

/-! ### One entry of a list of lengths -/

theorem exists_entry (name suffix : String) (p : Int) (hv : g.hasValue v = true) :
    ∃ w g', (entry name suffix v p).apply g = (.ok w, g') := by
  refine ⟨_, _, apply_bind_ok_iff.2 ⟨_, _, apply_addConstant _ _ g, apply_bind_ok_iff.2
    ⟨_, _, apply_addNode_ok_iff.2 ⟨?_, rfl, rfl⟩, rfl⟩⟩⟩
  refine List.forall_mem_cons.2 ⟨Graph.hasValue_push _ hv, List.forall_mem_singleton.2 ?_⟩
  exact Graph.hasValue_push_new Nat.one_pos

/-- What was there before an entry was taken is still there, and so is the entry. -/
theorem hasValue_of_entry {p : Int} (happly : (entry name suffix v p).apply g = (.ok w, g')) :
    g'.hasValue w = true ∧ ∀ u, g.hasValue u = true → g'.hasValue u = true := by
  obtain ⟨rfl, rfl⟩ := apply_entry_ok happly
  exact ⟨(Graph.declares_push_push (i := 0) rfl).hasValue,
    fun u hu => Graph.hasValue_push _ (Graph.hasValue_push _ hu)⟩

/-- The two nodes of an entry take it off the list, and leave the tensors of other values alone. -/
theorem runFrom?_entry (hI : I.ReadsLengths) {p : Nat} {words : List Int} {n : Int}
    (happly : (entry name suffix v p).apply g = (.ok w, g')) (hrun : g.runFrom? I start T = some T')
    (hstart : start ≤ g.slots.length) (hv : T' v = some (.vector words))
    (hlt : v.node < g.slots.length) (hp : words[p]? = some n) :
    ∃ T'', g'.runFrom? I start T = some T'' ∧ T'' w = some (.vector [n]) ∧
      ∀ u : Value, u.node < g.slots.length → T'' u = T' u := by
  obtain ⟨rfl, rfl⟩ := apply_entry_ok happly
  have hindex := Graph.runFrom?_push hrun hstart (Graph.run?_constantSpec
    (name ++ "/" ++ suffix ++ "_index") (.vector [(p : Int)]) g.slots.length)
  have hlen := Graph.length_slots_push g
    (Graph.constantSpec (name ++ "/" ++ suffix ++ "_index") (.vector [(p : Int)]))
  have hgather : ((entrySpec name suffix v ⟨g.slots.length, 0⟩ : NodeSpec β).build
      (g.slots.length + 1)).run? I (T'.assign g.slots.length [.vector [(p : Int)]]) =
        some [.vector [n]] :=
    Node.run?_of_operands rfl (.cons ((T'.assign_of_lt _ hlt).trans hv)
      (.cons (T'.assign_new _ _ 0) .nil)) (hI.gather_vector hp)
  rw [← hlen] at hgather
  refine ⟨_, Graph.runFrom?_push hindex (by omega) hgather, ?_, fun u hu => ?_⟩
  · rw [hlen]
    exact Tensors.assign_new _ _ _ 0
  · rw [Tensors.assign_of_lt _ _ (by omega), Tensors.assign_of_lt _ _ hu]

/-! ### The whole list -/

/-- From the lengths of the axes of a value on, nothing can fail. -/
theorem exists_readLengths (name : String) (batch : Dim) (hv : g.hasValue v = true) :
    ∃ w g', (do
      let time ← entry name "time" v 1
      let count ← entry name "batch" v 0
      let id ← addNode (repeatSpec name time count batch)
      return ⟨id, 0⟩ : Edit β Value).apply g = (.ok w, g') := by
  obtain ⟨time, g₁, htime⟩ := exists_entry name "time" 1 hv
  obtain ⟨htimeValue, hkept⟩ := hasValue_of_entry htime
  obtain ⟨count, g₂, hcount⟩ := exists_entry name "batch" 0 (hkept _ hv)
  obtain ⟨hcountValue, hkept⟩ := hasValue_of_entry hcount
  refine ⟨_, _, apply_bind_ok_iff.2 ⟨_, _, htime, apply_bind_ok_iff.2 ⟨_, _, hcount,
    apply_bind_ok_iff.2 ⟨_, _, apply_addNode_ok_iff.2 ⟨?_, rfl, rfl⟩, rfl⟩⟩⟩⟩
  exact List.forall_mem_cons.2 ⟨hkept _ htimeValue, List.forall_mem_singleton.2 hcountValue⟩

/-- The lengths can be listed unless both dimensions are known and there are too many of them. -/
theorem exists_sequenceLengths_iff (hx : g.Declares x l) (hrank : 2 ≤ l.shape.rank) :
    (∃ w g', (sequenceLengths name x).apply g = (.ok w, g')) ↔
      ∀ batch time, l.shape.dim? 0 = some (.known batch) → l.shape.dim? 1 = some (.known time) →
        batch ≤ Word.maxInts := by
  constructor
  · rintro ⟨w, g', happly⟩ batch time hbatch htime
    exact le_of_sequenceLengths happly hx.layout? hbatch htime
  · intro hroom
    rw [sequenceLengths, apply_bind_of_ok (apply_layoutOf_ok_iff.2 ⟨hx.layout?, rfl⟩)]
    split
    · next batch time hbatch htime =>
      have hcopies : (copies Word.maxInts batch (Word.signed time) : Edit β (List Int)).apply g =
          (.ok (List.replicate batch (Word.signed time)), g) :=
        apply_pureExcept_ok_iff.2 ⟨if_pos (hroom batch time hbatch htime), rfl⟩
      rw [apply_bind_of_ok hcopies]
      exact ⟨_, _, apply_addConstant _ _ g⟩
    · have hshape : (addNode (shapeSpec name x l.shape.rank)).apply g =
          (.ok g.slots.length, g.push (shapeSpec name x l.shape.rank)) :=
        apply_addNode_ok_iff.2 ⟨List.forall_mem_singleton.2 hx.hasValue, rfl, rfl⟩
      have hlengths : (g.push (shapeSpec name x l.shape.rank)).hasValue ⟨g.slots.length, 0⟩ = true :=
        Graph.hasValue_push_new Nat.one_pos
      obtain ⟨w, g', hlist⟩ := exists_readLengths name _ hlengths
      exact ⟨w, g', apply_bind_ok_iff.2 ⟨_, _, hshape, hlist⟩⟩
    · next hnone =>
      have hdim (axis : Nat) (haxis : axis < l.shape.rank) : ∃ d, l.shape.dim? axis = some d :=
        ⟨_, List.getElem?_eq_getElem haxis⟩
      obtain ⟨batch, hbatch⟩ := hdim 0 (by omega)
      obtain ⟨time, htime⟩ := hdim 1 (by omega)
      exact absurd htime (hnone _ _ hbatch)

/-- The list has one entry for every entry of the batch, as far as that dimension is known. -/
theorem declares_sequenceLengths (hx : g.Declares x l)
    (happly : (sequenceLengths name x).apply g = (.ok w, g')) :
    ∃ batch, l.shape.dim? 0 = some batch ∧ g'.Declares w (.planar ⟨[batch]⟩ .i64) := by
  obtain ⟨l', hl', hcases⟩ := apply_sequenceLengths_ok happly
  obtain rfl := Option.some.inj (hx.layout?.symm.trans hl')
  obtain ⟨batch, time, hbatch, -, rfl, rfl⟩ |
    ⟨batch, g₁, g₂, time, count, hbatch, -, -, -, rfl, rfl⟩ := hcases
  · have hlist : Shape.ofLengths [(List.replicate batch (Word.signed time)).length] =
        ⟨[.known batch]⟩ := by
      rw [List.length_replicate]
      rfl
    exact ⟨_, hbatch, hlist ▸ Graph.declares_push_new rfl⟩
  · exact ⟨batch, hbatch, Graph.declares_push_new rfl⟩

/-- However the list is made, it holds the number of positions once for every entry of the batch. -/
theorem runFrom?_sequenceLengths (hI : I.ReadsLengths) (hx : g.Declares x l)
    (happly : (sequenceLengths name x).apply g = (.ok w, g')) {u : Grid} {b t : Nat}
    {rest : List Nat} (hu : T x = some u) (hshape : u.shape = b :: t :: rest)
    (hagrees : l.shape.Agrees u.shape) (ht : t < 2 ^ 63) :
    ∃ T', g'.runFrom? I g.slots.length T = some T' ∧
      T' w = some (.vector (List.replicate b (t : Int))) := by
  obtain ⟨l', hl', hcases⟩ := apply_sequenceLengths_ok happly
  obtain rfl := Option.some.inj (hx.layout?.symm.trans hl')
  have hstart := Graph.runFrom?_length I g T
  obtain ⟨batch, time, hbatch, htime, rfl, rfl⟩ |
    ⟨batch, g₁, g₂, time, count, -, -, htime, hcount, rfl, rfl⟩ := hcases
  · obtain rfl : batch = b := Dim.agrees_known.1 (hagrees.dim hbatch (by rw [hshape]; rfl))
    obtain rfl : time = t := Dim.agrees_known.1 (hagrees.dim htime (by rw [hshape]; rfl))
    rw [Word.signed_of_lt ht]
    exact ⟨_, Graph.runFrom?_push hstart (Nat.le_refl _) (Graph.run?_constantSpec _ _ _),
      T.assign_new _ _ 0⟩
  · -- The lengths of the value, the two entries that are taken off them, and the copies.
    have hlen := Graph.length_slots_push g (shapeSpec name x l.shape.rank)
    have hlen₁ := length_of_entry htime
    have hlen₂ := length_of_entry hcount
    have hread : ((shapeSpec name x l.shape.rank : NodeSpec β).build g.slots.length).run? I T =
        some [.vector (u.shape.map Int.ofNat)] :=
      Node.run?_of_operands rfl (.cons hu .nil) (hI.shapeOf _ u)
    obtain ⟨T₁, hrun₁, htimeValue, hframe₁⟩ := runFrom?_entry hI (p := 1) htime
      (Graph.runFrom?_push hstart (Nat.le_refl _) hread) (by omega) (T.assign_new _ _ 0)
      (by rw [hlen]; exact Nat.lt_succ_self _) (by rw [hshape]; rfl)
    obtain ⟨T₂, hrun₂, hcountValue, hframe₂⟩ := runFrom?_entry hI (p := 0) hcount hrun₁ (by omega)
      ((hframe₁ _ (by rw [hlen]; exact Nat.lt_succ_self _)).trans (T.assign_new _ _ 0))
      (show g.slots.length < _ by omega) (by rw [hshape]; rfl)
    have htimeLast : T₂ time = some (.vector [(t : Int)]) := by
      refine (hframe₂ _ ?_).trans htimeValue
      rw [(apply_entry_ok htime).1]
      show (g.push _).slots.length + 1 < _
      omega
    refine ⟨_, Graph.runFrom?_push hrun₂ (by omega) (Node.run?_of_operands rfl
      (.cons htimeLast (.cons hcountValue .nil)) (hI.broadcast_vector _ _ _)), ?_⟩
    exact T₂.assign_new _ _ 0

/-- **Lengths of sequences.**  Let a value of a live node have a batch axis and a time axis.  The
lengths of its sequences can be listed unless there are too many of them to be written down.  The
list is declared as whole numbers, one for every entry of the batch.  Let the value be any tensor
that its declared shape agrees with, whose number of positions is a signed word, as the entries of
the list are.  Then the new nodes can be run one after the other, and the list holds that number once
for every entry of the batch, whether it is a constant or is read off the tensor. -/
theorem lengths_of_sequences (hI : I.ReadsLengths) (hx : g.Declares x l)
    (hrank : 2 ≤ l.shape.rank) :
    ((∃ w g', (sequenceLengths name x).apply g = (.ok w, g')) ↔
      ∀ batch time, l.shape.dim? 0 = some (.known batch) → l.shape.dim? 1 = some (.known time) →
        batch ≤ Word.maxInts) ∧
    ∀ w g', (sequenceLengths name x).apply g = (.ok w, g') →
      (∃ batch, l.shape.dim? 0 = some batch ∧ g'.Declares w (.planar ⟨[batch]⟩ .i64)) ∧
      ∀ (T : Tensors) (u : Grid) (b t : Nat) (rest : List Nat), T x = some u →
        u.shape = b :: t :: rest → l.shape.Agrees u.shape → t < 2 ^ 63 →
          ∃ T', g'.runFrom? I g.slots.length T = some T' ∧
            T' w = some (.vector (List.replicate b (t : Int))) :=
  ⟨exists_sequenceLengths_iff hx hrank, fun _ _ happly =>
    ⟨declares_sequenceLengths hx happly, fun _ _ _ _ _ hu hshape hagrees ht =>
      runFrom?_sequenceLengths hI hx happly hu hshape hagrees ht⟩⟩

/-- A batch of sequences, of which only the number of features is known. -/
def openBatch : Graph Unit :=
  .ofSpecs [{ op := .parameter, outputs := [.planar ⟨[.unknown, .unknown, .known 3]⟩ .f32] }] []

/-- Two sequences with four positions each. -/
def twoSequences (v : Value) : Option Grid :=
  if v = ⟨0, 0⟩ then some (.ofFn [2, 4, 3] fun _ => .word 0) else none

/-- Both sequences are found to have four positions. -/
theorem lengths_of_sequences_openBatch :
    let I := StepFunction.doubling.interpretation
    let run := (sequenceLengths "lengths" ⟨0, 0⟩).apply openBatch
    I.ReadsLengths ∧ run.1 = .ok ⟨6, 0⟩ ∧
      run.2.Declares ⟨6, 0⟩ (.planar ⟨[.unknown]⟩ .i64) ∧
        ∃ T', run.2.runFrom? I 1 twoSequences = some T' ∧ T' ⟨6, 0⟩ = some (.vector [4, 4]) := by
  intro I run
  have hI : I.ReadsLengths := (StepFunction.follows_interpretation _).readsLengths
  have hx : openBatch.Declares ⟨0, 0⟩ (.planar ⟨[.unknown, .unknown, .known 3]⟩ .f32) :=
    ⟨_, rfl, rfl⟩
  have hrun : run.1 = .ok ⟨6, 0⟩ := by decide +kernel
  have happly : (sequenceLengths "lengths" ⟨0, 0⟩).apply openBatch = (.ok ⟨6, 0⟩, run.2) :=
    Prod.ext hrun rfl
  obtain ⟨⟨batch, hbatch, hdeclares⟩, hlist⟩ :=
    (lengths_of_sequences hI hx (by decide)).2 ⟨6, 0⟩ run.2 happly
  obtain rfl : Dim.unknown = batch := Option.some.inj hbatch
  have hagrees : (Shape.mk [.unknown, .unknown, .known 3]).Agrees [2, 4, 3] :=
    .cons (Dim.agrees_unknown 2)
      (.cons (Dim.agrees_unknown 4) (.cons (Dim.agrees_known.2 rfl) .nil))
  exact ⟨hI, hrun, hdeclares, hlist twoSequences _ 2 4 [3] rfl rfl hagrees (by decide)⟩

end Edit

end Dataflow
