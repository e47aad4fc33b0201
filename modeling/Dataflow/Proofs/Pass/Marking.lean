import Dataflow.Proofs.Graph.Specs
import Dataflow.Proofs.Graph.Steps
import Dataflow.Skip

/-!
# Flags for run time

The pass that flags nodes asks first which nodes may be skipped at run time, and sets their flags
afterwards.  The answer does not depend on any flag: it is the same for the graph with all flags taken
off.  So the flags of exactly the right nodes are set, nothing else is changed, and a second run finds
the same nodes and leaves everything as it is.

## Main definitions

* `Graph.unflagged` : the graph with all flags taken off.
* `Graph.IsFlagged`, `Graph.Eligible` : the nodes with flags, and those that are to have them.
* `Flagging` : what the pass makes of a graph.

## Main statements

* `Graph.isSkippable_unflagged` : the conditions do not depend on flags.
* `flagging_markSkippable` : the account of the pass.
-/

namespace Dataflow

variable {β : Type}

/-- The node with its flag taken off. -/
def Node.unflagged (n : Node β) : Node β :=
  { n with skippable := false }

def Slot.unflagged (s : Slot β) : Slot β :=
  { s with node := s.node.unflagged }

namespace Graph

variable {g : Graph β} {n : Node β} {id : Nat}

/-- The graph with all flags taken off. -/
def unflagged (g : Graph β) : Graph β :=
  { g with slots := g.slots.map (Option.map Slot.unflagged) }

/-- The node is stored and has the flag. -/
def IsFlagged (g : Graph β) (id : Nat) : Prop :=
  ∃ n, g.node? id = some n ∧ n.skippable = true

/-- The node is a live gather, permutation or strided slice that may be skipped and is not bound to the
processor. -/
def Eligible (g : Graph β) (id : Nat) : Prop :=
  ∃ n, g.live? id = some n ∧ n.op ∈ skippableOps ∧ n.kernel ≠ .cpu ∧ g.isSkippable n = true

/-! ### The conditions do not depend on flags -/

section Unflagged

variable (g)

@[simp] theorem slot?_unflagged (id : Nat) :
    g.unflagged.slot? id = (g.slot? id).map Slot.unflagged := by
  rw [slot?, unflagged, List.getElem?_map, slot?]
  cases g.slots[id]? <;> rfl

@[simp] theorem node?_unflagged (id : Nat) :
    g.unflagged.node? id = (g.node? id).map Node.unflagged := by
  rw [node?, slot?_unflagged, node?]
  cases g.slot? id <;> rfl

@[simp] theorem live?_unflagged (id : Nat) :
    g.unflagged.live? id = (g.live? id).map Node.unflagged := by
  rw [live?_eq_bind, slot?_unflagged, live?_eq_bind]
  cases g.slot? id with
  | none => rfl
  | some s => cases hs : s.eliminated <;> simp [Slot.unflagged, hs]

@[simp] theorem layout?_unflagged (v : Value) : g.unflagged.layout? v = g.layout? v := by
  rw [layout?, producer?, node?_unflagged, layout?, producer?]
  cases g.node? v.node <;> rfl

@[simp] theorem op?_unflagged (v : Value) : g.unflagged.op? v = g.op? v := by
  rw [op?, producer?, node?_unflagged, op?, producer?]
  cases g.node? v.node <;> rfl

@[simp] theorem inputLayout?_unflagged (id input : Nat) :
    g.unflagged.inputLayout? id input = g.inputLayout? id input := by
  have hinput : g.unflagged.input? ⟨id, input⟩ = g.input? ⟨id, input⟩ := by
    rw [input?, node?_unflagged, input?]
    cases g.node? id <;> rfl
  rw [inputLayout?, hinput, inputLayout?]
  exact congrArg (Option.bind _) (funext g.layout?_unflagged)

@[simp] theorem isDynamicNode_unflagged (id : Nat) :
    g.unflagged.isDynamicNode id = g.isDynamicNode id := by
  rw [isDynamicNode, node?_unflagged, isDynamicNode]
  cases g.node? id with
  | none => rfl
  | some n =>
    simp only [Option.map_some, layout?_unflagged]
    rfl

/-- No condition reads a flag, of the node itself or of any other. -/
theorem isSkippable_unflagged (n : Node β) : g.unflagged.isSkippable n.unflagged = g.isSkippable n := by
  have hop (id : Nat) : (g.unflagged.node? id).map Node.op = (g.node? id).map Node.op := by
    rw [node?_unflagged, Option.map_map]
    rfl
  unfold isSkippable gatherSkippable permuteSkippable sliceSkippable keepsElementType isConstant
  simp only [inputLayout?_unflagged, layout?_unflagged, op?_unflagged, isDynamicNode_unflagged, hop]
  rfl

end Unflagged

theorem skippableNodes_unflagged (g : Graph β) : g.unflagged.skippableNodes = g.skippableNodes := by
  have hlive : g.unflagged.liveNodes = g.liveNodes.map Node.unflagged := by
    rw [liveNodes, liveNodes, List.map_filterMap]
    exact List.filterMap_congr fun id _ => g.live?_unflagged id
  rw [skippableNodes, hlive, List.filter_map, List.map_map, skippableNodes]
  have hsame : (fun n => n.kernel != .cpu && g.unflagged.isSkippable n) ∘ Node.unflagged =
      fun n => n.kernel != .cpu && g.isSkippable n := by
    funext n
    rw [Function.comp_apply, isSkippable_unflagged]
    rfl
  rw [hsame]
  rfl

/-! ### Eligible nodes -/

/-- Only gathers, permutations and strided slices may be skipped. -/
theorem op_mem_of_isSkippable (h : g.isSkippable n = true) : n.op ∈ skippableOps := by
  unfold isSkippable at h
  split at h
  · next hop => simp [hop, skippableOps]
  · next hop => simp [hop, skippableOps]
  · next hop => simp [hop, skippableOps]
  · exact absurd h Bool.false_ne_true

/-- The nodes that the pass finds are the eligible ones. -/
theorem WellKept.mem_skippableNodes (hk : g.WellKept) : id ∈ g.skippableNodes ↔ g.Eligible id := by
  simp only [skippableNodes, liveNodes, List.mem_map, List.mem_filter, List.mem_filterMap,
    Bool.and_eq_true, bne_iff_ne]
  constructor
  · rintro ⟨n, ⟨⟨id', -, hn⟩, hkernel, hskip⟩, rfl⟩
    obtain rfl := hk.numbered.live hn
    exact ⟨n, hn, op_mem_of_isSkippable hskip, hkernel, hskip⟩
  · rintro ⟨n, hn, -, hkernel, hskip⟩
    have hstored := (hk.ordered.mem_iff id).2 (hasNode_of_node? (node?_of_live? hn))
    exact ⟨n, ⟨⟨id, hstored, hn⟩, hkernel, hskip⟩, hk.numbered.live hn⟩

theorem Numbered.skippableNodes_sublist (h : g.Numbered) : g.skippableNodes.Sublist g.order := by
  refine (List.filter_sublist.map Node.id).trans ?_
  rw [h.map_id_liveNodes]
  exact List.filter_sublist

/-! ### Setting flags -/

/-- Setting a flag changes nothing but flags. -/
theorem unflagged_modifyNode (g : Graph β) (i : Nat) :
    (g.modifyNode i fun n => { n with skippable := true }).unflagged = g.unflagged := by
  have hslots : (g.modifyNode i fun n => { n with skippable := true }).unflagged.slots =
      g.unflagged.slots := by
    refine List.ext_getElem? fun id => ?_
    simp only [unflagged, modifyNode, List.getElem?_map, List.getElem?_modify]
    split
    · cases g.slots[id]? with
      | none => rfl
      | some s => cases s <;> rfl
    · simp
  exact congrArg (fun slots => { g with slots }) hslots

theorem unflagged_markNodes (ids : List Nat) (g : Graph β) :
    (g.markNodes ids).unflagged = g.unflagged := by
  induction ids generalizing g with
  | nil => rfl
  | cons id rest ih => rw [markNodes, ih, unflagged_modifyNode]

@[simp] theorem hasNode_markNodes (ids : List Nat) (g : Graph β) :
    (g.markNodes ids).hasNode id = g.hasNode id := by
  induction ids generalizing g with
  | nil => rfl
  | cons i rest ih => rw [markNodes, ih, hasNode_modifyNode]

theorem isFlagged_modifyNode (g : Graph β) (i : Nat) :
    (g.modifyNode i fun n => { n with skippable := true }).IsFlagged id ↔
      g.IsFlagged id ∨ id = i ∧ g.hasNode id = true := by
  simp only [IsFlagged, node?, slot?_modifyNode, hasNode]
  by_cases hid : id = i
  · cases g.slot? id <;> simp [hid]
  · simp [hid]

theorem isFlagged_markNodes (ids : List Nat) (g : Graph β) :
    (g.markNodes ids).IsFlagged id ↔ g.IsFlagged id ∨ id ∈ ids ∧ g.hasNode id = true := by
  induction ids generalizing g with
  | nil => simp [markNodes]
  | cons i rest ih =>
    rw [markNodes, ih, isFlagged_modifyNode, hasNode_modifyNode, List.mem_cons, or_assoc,
      ← or_and_right]

/-- A flag that is set already may be set again. -/
theorem modifyNode_of_isFlagged (h : ∀ n, g.node? id = some n → n.skippable = true) :
    (g.modifyNode id fun n => { n with skippable := true }) = g := by
  have hslots : (g.modifyNode id fun n => { n with skippable := true }).slots = g.slots := by
    refine List.ext_getElem? fun i => ?_
    rw [modifyNode, List.getElem?_modify]
    split
    · next hid =>
      subst hid
      cases hs : g.slots[id]? with
      | none => rfl
      | some s =>
        cases s with
        | none => rfl
        | some s =>
          have hflag : s.node.skippable = true := h s.node (by simp [node?, slot?, hs])
          simp [← hflag]
    · simp
  exact congrArg (fun slots => { g with slots }) hslots

theorem markNodes_of_isFlagged (ids : List Nat)
    (h : ∀ id ∈ ids, ∀ n, g.node? id = some n → n.skippable = true) : g.markNodes ids = g := by
  induction ids with
  | nil => rfl
  | cons id rest ih =>
    rw [markNodes, modifyNode_of_isFlagged (h id List.mem_cons_self)]
    exact ih fun i hi => h i (List.mem_cons_of_mem id hi)

theorem markNodes_markNodes (ids : List Nat) (g : Graph β) :
    (g.markNodes ids).markNodes ids = g.markNodes ids := by
  refine markNodes_of_isFlagged ids fun id hid n hn => ?_
  have hstored : g.hasNode id = true := hasNode_markNodes ids g ▸ hasNode_of_node? hn
  obtain ⟨m, hm, hflag⟩ := (isFlagged_markNodes ids g).2 (.inr ⟨hid, hstored⟩)
  rwa [Option.some.inj (hn.symm.trans hm)]

end Graph

/-! ### The pass -/

theorem Report.foldl_record (ids : List Nat) (r : Report) : ids.foldl record r =
    { r with applied := r.applied + ids.length, nodes := r.nodes ++ ids } := by
  induction ids generalizing r with
  | nil => simp
  | cons id rest ih =>
    rw [List.foldl_cons, ih, record, List.length_cons, Nat.add_right_comm, List.append_assoc]
    rfl

/-- The pass reports the nodes that it finds. -/
theorem apply_markSkippable (g : Graph β) : markSkippable.run.apply g =
    (.ok { matched := g.skippableNodes.length, applied := g.skippableNodes.length, iterations := 1,
           nodes := g.skippableNodes }, g.markNodes g.skippableNodes) := by
  have hrun : markSkippable.run.apply g = (.ok (g.skippableNodes.foldl Report.record
      { matched := g.skippableNodes.length, iterations := 1 }), g.markNodes g.skippableNodes) := rfl
  rw [hrun, Report.foldl_record, Nat.zero_add, List.nil_append]

/-- The graph `h` is what the pass makes of the graph `g`, with the report `r`. -/
structure Flagging (g : Graph β) (r : Report) (h : Graph β) : Prop where
  isFlagged_iff : ∀ id, h.IsFlagged id ↔ g.IsFlagged id ∨ g.Eligible id
  /-- Flags apart, the graphs are the same. -/
  unflagged_eq : h.unflagged = g.unflagged
  /-- The reported nodes are in processing order. -/
  sublist : r.nodes.Sublist g.order
  nodup : r.nodes.Nodup
  mem_nodes : ∀ id, id ∈ r.nodes ↔ g.Eligible id
  counts : r.matched = r.nodes.length ∧ r.applied = r.nodes.length ∧ r.eliminated = 0 ∧
    r.iterations = 1
  again : markSkippable.run.apply h = (.ok r, h)

/-- **Flags for run time.**  On a well-kept graph the pass succeeds.  Afterwards a node has the flag
exactly if it had it before or was eligible, and nothing but flags has changed.  The report lists the
eligible nodes in processing order, each once, and a second run gives the same report and changes
nothing. -/
theorem flagging_markSkippable (hk : g.WellKept) :
    ∃ r h, markSkippable.run.apply g = (.ok r, h) ∧ Flagging g r h := by
  have hsublist := hk.numbered.skippableNodes_sublist
  have hsame : (g.markNodes g.skippableNodes).skippableNodes = g.skippableNodes := by
    rw [← Graph.skippableNodes_unflagged, Graph.unflagged_markNodes, Graph.skippableNodes_unflagged]
  refine ⟨_, _, apply_markSkippable g, fun id => ?_, Graph.unflagged_markNodes _ g, hsublist,
    hk.ordered.nodup.sublist hsublist, fun id => hk.mem_skippableNodes, ⟨rfl, rfl, rfl, rfl⟩, ?_⟩
  · rw [Graph.isFlagged_markNodes, hk.mem_skippableNodes]
    refine or_congr_right (and_iff_left_of_imp ?_)
    rintro ⟨n, hn, -⟩
    exact Graph.hasNode_of_node? (Graph.node?_of_live? hn)
  · rw [apply_markSkippable, hsame, Graph.markNodes_markNodes]

/-- Rows that are gathered twice, once on the processor, and a slice that leaves nothing out. -/
def gatheredRows : Graph Unit :=
  .ofSpecs
    [{ op := .parameter, outputs := [.planar (.ofLengths [3, 4]) .f32] },
      { op := .parameter, outputs := [.planar (.ofLengths [3]) .i64] },
      { op := .gather
        inputs := [⟨0, 0⟩, ⟨1, 0⟩]
        outputs := [.planar (.ofLengths [3, 4]) .f32]
        attributes := Attributes.empty.insert "axis" (.int 0) },
      { op := .gather
        inputs := [⟨0, 0⟩, ⟨1, 0⟩]
        outputs := [.planar (.ofLengths [3, 4]) .f32]
        attributes := Attributes.empty.insert "axis" (.int 0)
        kernel := .cpu },
      { op := .stridedSlice
        inputs := [⟨2, 0⟩]
        outputs := [.planar (.ofLengths [3, 4]) .f32]
        attributes := Attributes.empty.insert "begin" (.ints [0, 0]) },
      { op := .add
        inputs := [⟨3, 0⟩, ⟨4, 0⟩]
        outputs := [.planar (.ofLengths [3, 4]) .f32] }]
    [⟨5, 0⟩]

/-- The first gather and the slice get the flag. -/
theorem flagging_gatheredRows :
    let g := gatheredRows
    g.WellKept ∧ ∃ r h, markSkippable.run.apply g = (.ok r, h) ∧ Flagging g r h ∧ r.nodes = [2, 4] ∧
      h.IsFlagged 2 ∧ ¬ h.IsFlagged 3 := by
  intro g
  have hk : g.WellKept := (Graph.ofSpecs_sound _ _ (by decide +kernel) (by decide +kernel)).1
  obtain ⟨r, h, hrun, hflagging⟩ := flagging_markSkippable hk
  have hnodes : r.nodes = [2, 4] := by
    have hresult := hrun.symm.trans (apply_markSkippable g)
    rw [Except.ok.inj (congrArg Prod.fst hresult)]
    decide +kernel
  have hold : ¬ g.IsFlagged 3 := by
    rintro ⟨n, hn, hflag⟩
    obtain rfl := Option.some.inj hn
    exact absurd hflag Bool.false_ne_true
  refine ⟨hk, r, h, hrun, hflagging, hnodes, ?_, ?_⟩
  · rw [hflagging.isFlagged_iff, ← hflagging.mem_nodes, hnodes]
    exact .inr (by decide)
  · rw [hflagging.isFlagged_iff, ← hflagging.mem_nodes, hnodes]
    simp [hold]

end Dataflow
