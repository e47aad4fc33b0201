import Dataflow.Proofs.Runtime.Pairs

/-!
# A run in both directions

A sequence operation in two directions makes the steps of a forward run with the first operands of
each pair, and those of a backward run with the second ones.  Its results are the pairs of the results
of the two runs.

For a long short-term memory the attributes say how long the states are, and this fixes the lengths
of all operands.  Two directions with the same attributes have operands that can be paired.

## Main definitions

* `LstmOperands` : the operands that every direction has of its own.
* `StepFunction.lstm?` : a long short-term memory with operands of fixed lengths.
* `Interpretation.RunsLstm` : the meaning of the operation.

## Main statements

* `StepFunction.Batched.exists_run` : the results of a run in one direction.
* `StepFunction.statesOf_pair` : the steps of either direction.
* `StepFunction.Batched.results_eq_pair` : results that are those of two runs side by side.
* `StepFunction.sequence?_pair`, `StepFunction.lstm?_pair` : a run in both directions.
-/

namespace Dataflow

namespace StepFunction

variable {F : StepFunction} {kind : Cell} {a a' both : Attributes}
  {x w w' r r' b b' lengths : Grid} {states states' outs outs' : List Grid}
  {ls : List Nat} {batch time hidden : Nat}

/-- The states of two directions fit together. -/
def StatesFit (batch hidden : Nat) (states states' : List Grid) : Prop :=
  List.Forall₂ (fun s s' => s.shape = [batch, hidden] ∧ s'.shape = [batch, hidden]) states states'

theorem statesFit_of_shape (hlen : states.length = states'.length)
    (h : ∀ s ∈ states, s.shape = [batch, hidden]) (h' : ∀ s ∈ states', s.shape = [batch, hidden]) :
    StatesFit batch hidden states states' :=
  List.forall₂_iff_zip.2 ⟨hlen, fun hmem =>
    ⟨h _ (List.of_mem_zip hmem).1, h' _ (List.of_mem_zip hmem).2⟩⟩

/-- An entry of the batch has the rows of either direction. -/
theorem map_row_pair (hfit : StatesFit batch hidden states states') {i d : Nat} (hi : i < batch)
    (hd : d < 2) : (List.zipWith (Grid.pair 1) states states').map (·.row [i, d]) =
      ((if d = 0 then states else states').map (·.insertAxis 1)).map (·.row [i, 0]) := by
  have hrow : ∀ s s' : Grid, s.shape = [batch, hidden] → s'.shape = [batch, hidden] →
      (Grid.pair 1 s s').row [i, d] = ((if d = 0 then s else s').insertAxis 1).row [i, 0] := by
    intro s s' hs hs'
    have hpair := @Grid.row_pair s s' 1 d [i] [batch] hidden hs (hs'.trans hs.symm) (by simp)
      (by simpa using hi) hd
    have hone : (if d = 0 then s else s').shape = [batch] ++ [hidden] := by
      split
      · exact hs
      · exact hs'
    have hinsert := @Grid.row_insertAxis _ [i] 1 [batch] hidden hone (by simp) rfl
    exact hpair.trans hinsert.symm
  induction hfit with
  | nil => split <;> rfl
  | @cons s s' rest rest' hs _ ih =>
    rw [List.zipWith_cons_cons, List.map_cons, ih, hrow s s' hs.1 hs.2]
    split <;> rfl

/-- The steps of either direction are those of a run of its own. -/
theorem statesOf_pair (hforward : ∀ d, isBackward a d = false)
    (hbackward : ∀ d, isBackward a' d = true) (hboth : ∀ d, isBackward both d = (d == 1))
    (hnext : F.next kind both.get? = F.next kind a.get?)
    (hnext' : F.next kind both.get? = F.next kind a'.get?)
    (hfit : StatesFit batch hidden states states') (hw : w'.shape = w.shape)
    (hr : r'.shape = r.shape) (hb : b'.shape = b.shape) {i d : Nat} (hi : i < batch) (hd : d < 2)
    (k : Nat) :
    F.statesOf kind both x (List.zipWith (Grid.pair 1) states states') ls (.pair 0 w w')
      (.pair 0 r r') (.pair 0 b b') i d k =
    if d = 0 then F.statesOf kind a x (states.map (·.insertAxis 1)) ls (w.insertAxis 0)
        (r.insertAxis 0) (b.insertAxis 0) i 0 k
      else F.statesOf kind a' x (states'.map (·.insertAxis 1)) ls (w'.insertAxis 0)
        (r'.insertAxis 0) (b'.insertAxis 0) i 0 k := by
  unfold statesOf
  rw [map_row_pair hfit hi hd, Grid.layer_pair (Nat.zero_le _) hw hd,
    Grid.layer_pair (Nat.zero_le _) hr hd, Grid.layer_pair (Nat.zero_le _) hb hd, hboth]
  simp only [Grid.layer_insertAxis_zero, hforward, hbackward]
  obtain rfl | rfl : d = 0 ∨ d = 1 := by omega
  · simp [hnext]
  · simp [hnext']

/-- Operands with an axis of length one fit together as they do without it. -/
theorem Batched.of_insertAxis {directions : Nat}
    (hfit : Batched x (states.map (·.insertAxis 1)) lengths (r.insertAxis 0) batch directions time
      hidden ls) : directions = 1 ∧ (∃ gates, r.shape = [gates, hidden]) ∧
        ∀ s ∈ states, s.shape = [batch, hidden] := by
  obtain ⟨gates, hweights⟩ := hfit.weights
  rw [Grid.shape_insertAxis, List.insertIdx_zero, List.cons.injEq] at hweights
  obtain ⟨rfl, hweights⟩ := hweights
  refine ⟨rfl, ⟨gates, hweights⟩, fun s hs => ?_⟩
  have hshape := hfit.shape _ (List.mem_map_of_mem hs)
  have herase := congrArg (·.eraseIdx 1) hshape
  rwa [Grid.shape_insertAxis, List.eraseIdx_insertIdx_self] at herase

/-- The results of a run in one direction, without the axis for the directions. -/
structure Run (F : StepFunction) (kind : Cell) (batch time hidden : Nat) (ls : List Nat)
    (back : Bool) (steps : Nat → Nat → List (List Scalar)) (y : Grid) (last : List Grid) : Prop where
  shape : y.shape = [batch, time, hidden]
  length_eq : last.length = kind.stateCount
  shape_last : ∀ s ∈ last, s.shape = [batch, hidden]
  row : ∀ i < batch, ∀ k < time, y.row [i, k] =
    if k < ls.getD i 0 then (steps i (visit back (ls.getD i 0) k + 1)).getD 0 []
    else List.replicate hidden F.filler
  row_last : ∀ i < batch, ∀ s t, last[s]? = some t → t.row [i] = (steps i (ls.getD i 0)).getD s []

theorem Run.congr {back : Bool} {steps steps' : Nat → Nat → List (List Scalar)} {y : Grid}
    {last : List Grid} (h : Run F kind batch time hidden ls back steps y last)
    (heq : ∀ i < batch, steps' i = steps i) : Run F kind batch time hidden ls back steps' y last where
  shape := h.shape
  length_eq := h.length_eq
  shape_last := h.shape_last
  row i hi k hk := by rw [heq i hi]; exact h.row i hi k hk
  row_last i hi s t ht := by rw [heq i hi]; exact h.row_last i hi s t ht

/-- The results of a run in one direction, at the only position of the axis for the directions. -/
theorem Batched.exists_run (hfit : Batched x states lengths r batch 1 time hidden ls)
    (hlen : states.length = kind.stateCount) (F : StepFunction) (a : Attributes) (w b : Grid) :
    ∃ y last, Run F kind batch time hidden ls (isBackward a 0)
        (F.statesOf kind a x states ls w r b · 0) y last ∧
      F.hiddenStates kind a x states ls w r b = y.insertAxis 1 ∧
        (List.range kind.stateCount).map (F.lastState kind a x states ls w r b) =
          last.map (·.insertAxis 1) := by
  have hpos : 0 < states.length := hlen ▸ stateCount_pos kind
  obtain ⟨y, hy, -, hyshape⟩ := @Grid.exists_eq_insertAxis
    (F.hiddenStates kind a x states ls w r b) 1 (by rw [hfit.shape_hiddenStates]; rfl)
  rw [hfit.shape_hiddenStates] at hyshape
  have hlast : ∀ s, ∃ t : Grid, F.lastState kind a x states ls w r b s = t.insertAxis 1 ∧
      t.shape = [batch, hidden] := by
    intro s
    obtain ⟨t, ht, -, hshape⟩ := @Grid.exists_eq_insertAxis
      (F.lastState kind a x states ls w r b s) 1 (by rw [hfit.shape_lastState]; rfl)
    rw [hfit.shape_lastState] at hshape
    exact ⟨t, ht, hshape⟩
  choose last hlast hshape using hlast
  refine ⟨y, (List.range kind.stateCount).map last, ⟨hyshape, by simp, ?_, ?_, ?_⟩, hy, ?_⟩
  · simpa using fun s _ => hshape s
  · intro i hi k hk
    have hrow := @Grid.row_insertAxis y [i, k] 1 [batch, time] hidden hyshape (by simp) rfl
    rw [← hrow, ← hy]
    exact hfit.row_hiddenStates F kind a w b hpos hi Nat.one_pos hk
  · intro i hi s t ht
    obtain ⟨hs, rfl⟩ : s < states.length ∧ last s = t := by
      simpa [hlen, List.getElem?_eq_some_iff] using ht
    have hrow := @Grid.row_insertAxis (last s) [i] 1 [batch] hidden (hshape s) (by simp) rfl
    rw [← hrow, ← hlast]
    exact hfit.row_lastState F kind a w b hs hi Nat.one_pos
  · simp [hlast]

/-- The operands of two directions fit together when those of one direction do. -/
theorem Batched.pair {gates : Nat}
    (hfit : Batched x (states.map (·.insertAxis 1)) lengths (r.insertAxis 0) batch 1 time hidden ls)
    (hgates : r.shape = [gates, hidden]) (hstates : ∀ s ∈ states, s.shape = [batch, hidden]) :
    Batched x (List.zipWith (Grid.pair 1) states states') lengths (.pair 0 r r') batch 2 time hidden
      ls where
  input := hfit.input
  weights := ⟨gates, by simp [hgates]⟩
  shape s hs := by
    obtain ⟨i, hi, rfl⟩ := List.getElem_of_mem hs
    rw [List.getElem_zipWith, Grid.shape_pair, hstates _ (List.getElem_mem _)]
    rfl
  naturals := hfit.naturals
  length_eq := hfit.length_eq
  le := hfit.le

/-- If either direction makes the steps of a run, the results are those of the two runs side by side. -/
theorem Batched.results_eq_pair {y y' : Grid} {last last' : List Grid}
    (hfit : Batched x states lengths r batch 2 time hidden ls)
    (hlen : states.length = kind.stateCount)
    (hrun : ∀ d < 2, Run F kind batch time hidden ls (isBackward a d)
      (F.statesOf kind a x states ls w r b · d) (if d = 0 then y else y')
      (if d = 0 then last else last')) :
    F.hiddenStates kind a x states ls w r b = .pair 1 y y' ∧
      (List.range kind.stateCount).map (F.lastState kind a x states ls w r b) =
        List.zipWith (Grid.pair 1) last last' := by
  have hfirst := hrun 0 (by decide)
  have hsecond := hrun 1 (by decide)
  simp only [if_true, Nat.one_ne_zero, if_false] at hfirst hsecond
  constructor
  · refine @Grid.eq_pair_of_rows _ _ _ 1 [batch, time] hidden hfirst.shape
      (hsecond.shape.trans hfirst.shape.symm) (hfit.shape_hiddenStates ..) (by simp) ?_
    intro index d hindex hd
    simp only [List.forall₂_cons_right_iff, List.forall₂_nil_right_iff] at hindex
    obtain ⟨i, -, hi, ⟨k, -, hk, rfl, rfl⟩, rfl⟩ := hindex
    rw [(hrun d hd).row i hi k hk]
    exact hfit.row_hiddenStates F kind a _ _ (hlen ▸ stateCount_pos kind) hi hd hk
  · refine (List.ext_getElem (by simp [hfirst.length_eq, hsecond.length_eq]) fun s hs hs' => ?_).symm
    have hlt : s < kind.stateCount := by simpa using hs'
    rw [List.getElem_zipWith, List.getElem_map, List.getElem_range]
    have hone := hfirst.shape_last _ (List.getElem_mem (hfirst.length_eq.symm ▸ hlt))
    have hone' := hsecond.shape_last _ (List.getElem_mem (hsecond.length_eq.symm ▸ hlt))
    refine (@Grid.eq_pair_of_rows _ _ _ 1 [batch] hidden hone (hone'.trans hone.symm)
      (hfit.shape_lastState ..) (by simp) ?_).symm
    intro index d hindex hd
    simp only [List.forall₂_cons_right_iff, List.forall₂_nil_right_iff] at hindex
    obtain ⟨i, -, hi, rfl, rfl⟩ := hindex
    refine (hfit.row_lastState F kind a w b (hlen.symm ▸ hlt) hi hd).trans
      ((hrun d hd).row_last i hi s _ ?_).symm
    split
    · exact List.getElem?_eq_getElem _
    · exact List.getElem?_eq_getElem _

/-- **A run in both directions** is a forward and a backward run side by side. -/
theorem sequence?_pair (hforward : ∀ d, isBackward a d = false)
    (hbackward : ∀ d, isBackward a' d = true) (hboth : ∀ d, isBackward both d = (d == 1))
    (hnext : F.next kind both.get? = F.next kind a.get?)
    (hnext' : F.next kind both.get? = F.next kind a'.get?)
    (hlen : states.length = kind.stateCount) (hlen' : states'.length = kind.stateCount)
    (hw : w'.shape = w.shape) (hr : r'.shape = r.shape) (hb : b'.shape = b.shape)
    (h : F.sequence? kind a x (states.map (·.insertAxis 1)) lengths (w.insertAxis 0)
      (r.insertAxis 0) (b.insertAxis 0) = some outs)
    (h' : F.sequence? kind a' x (states'.map (·.insertAxis 1)) lengths (w'.insertAxis 0)
      (r'.insertAxis 0) (b'.insertAxis 0) = some outs') :
    ∃ batch time width gates hidden y y' last last', x.shape = [batch, time, width] ∧
      r.shape = [gates, hidden] ∧ y.shape = [batch, time, hidden] ∧
      y'.shape = [batch, time, hidden] ∧ last.length = kind.stateCount ∧
      StatesFit batch hidden last last' ∧ outs = (y :: last).map (·.insertAxis 1) ∧
      outs' = (y' :: last').map (·.insertAxis 1) ∧
      F.sequence? kind both x (List.zipWith (Grid.pair 1) states states') lengths (.pair 0 w w')
        (.pair 0 r r') (.pair 0 b b') =
          some (.pair 1 y y' :: List.zipWith (Grid.pair 1) last last') := by
  obtain ⟨batch, directions, time, hidden, ls, hfit, rfl⟩ := sequence?_eq_some_iff.1 h
  obtain ⟨batch', directions', time', hidden', ls', hfit', rfl⟩ := sequence?_eq_some_iff.1 h'
  obtain ⟨rfl, ⟨gates, hgates⟩, hstates⟩ := hfit.of_insertAxis
  obtain ⟨rfl, ⟨gates', hgates'⟩, hstates'⟩ := hfit'.of_insertAxis
  obtain ⟨width, hx⟩ := hfit.input
  obtain ⟨width', hx'⟩ := hfit'.input
  obtain ⟨rfl, rfl, rfl⟩ : batch' = batch ∧ time' = time ∧ width' = width := by
    simpa using hx'.symm.trans hx
  obtain ⟨rfl, rfl⟩ : gates' = gates ∧ hidden' = hidden := by
    simpa using hgates'.symm.trans (hr.trans hgates)
  obtain rfl : ls' = ls := Option.some.inj (hfit'.naturals.symm.trans hfit.naturals)
  obtain ⟨y, last, hrun, hy, hlast⟩ := hfit.exists_run (by simpa) F a (w.insertAxis 0) (b.insertAxis 0)
  obtain ⟨y', last', hrun', hy', hlast'⟩ :=
    hfit'.exists_run (by simpa) F a' (w'.insertAxis 0) (b'.insertAxis 0)
  have hstatesFit := statesFit_of_shape (hlen.trans hlen'.symm) hstates hstates'
  have hlastFit := statesFit_of_shape (hrun.length_eq.trans hrun'.length_eq.symm) hrun.shape_last
    hrun'.shape_last
  have hpairlen : (List.zipWith (Grid.pair 1) states states').length = kind.stateCount := by
    rw [List.length_zipWith, hlen, hlen', Nat.min_self]
  -- Either direction of the run makes the steps of the run in that direction alone.
  have hdirection : ∀ d < 2, Run F kind batch' time' hidden' ls' (isBackward both d)
      (F.statesOf kind both x (List.zipWith (Grid.pair 1) states states') ls' (.pair 0 w w')
        (.pair 0 r r') (.pair 0 b b') · d) (if d = 0 then y else y')
      (if d = 0 then last else last') := by
    intro d hd
    obtain rfl | rfl : d = 0 ∨ d = 1 := by omega
    · rw [hforward] at hrun
      exact (hboth 0) ▸ hrun.congr fun i hi => funext fun k =>
        statesOf_pair hforward hbackward hboth hnext hnext' hstatesFit hw hr hb hi hd k
    · rw [hbackward] at hrun'
      exact (hboth 1) ▸ hrun'.congr fun i hi => funext fun k =>
        statesOf_pair hforward hbackward hboth hnext hnext' hstatesFit hw hr hb hi hd k
  have hpair : Batched x (List.zipWith (Grid.pair 1) states states') lengths (.pair 0 r r') batch' 2
      time' hidden' ls' := hfit.pair hgates hstates
  obtain ⟨hhidden, hlasts⟩ := hpair.results_eq_pair hpairlen hdirection
  exact ⟨batch', time', width', gates', hidden', y, y', last, last', hx, hgates, hrun.shape,
    hrun'.shape, hrun.length_eq, hlastFit, by rw [hy, hlast, List.map_cons],
    by rw [hy', hlast', List.map_cons],
    sequence?_eq_some_iff.2 ⟨batch', 2, time', hidden', ls', hpair, by rw [hhidden, hlasts]⟩⟩

end StepFunction

/-! ### Long short-term memories -/

/-- What every direction of a long short-term memory has of its own: the initial states, the weights
of the input and of the hidden state, and the bias. -/
structure LstmOperands where
  h : Grid
  c : Grid
  w : Grid
  r : Grid
  b : Grid

namespace LstmOperands

/-- The operands with the axis for the directions. -/
def single (o : LstmOperands) : LstmOperands :=
  ⟨o.h.insertAxis 1, o.c.insertAxis 1, o.w.insertAxis 0, o.r.insertAxis 0, o.b.insertAxis 0⟩

/-- The operands of two directions side by side. -/
def pair (o o' : LstmOperands) : LstmOperands :=
  ⟨.pair 1 o.h o'.h, .pair 1 o.c o'.c, .pair 0 o.w o'.w, .pair 0 o.r o'.r, .pair 0 o.b o'.b⟩

/-- The operands fit to the sequences and to states of the given length. -/
def Fit (o : LstmOperands) (hidden : Nat) (x : Grid) : Prop :=
  x.shape.length = 3 ∧ o.h.shape = [x.lengthAt 0, o.w.lengthAt 0, hidden] ∧ o.c.shape = o.h.shape ∧
    o.w.shape = [o.w.lengthAt 0, Cell.lstm.gates * hidden, x.lengthAt 2] ∧
      o.r.shape = [o.w.lengthAt 0, Cell.lstm.gates * hidden, hidden] ∧
        o.b.shape = [o.w.lengthAt 0, Cell.lstm.gates * hidden]

instance (o : LstmOperands) (hidden : Nat) (x : Grid) : Decidable (o.Fit hidden x) :=
  inferInstanceAs (Decidable (_ ∧ _))

/-- The lengths of the operands of one direction. -/
structure Lengths (o : LstmOperands) (batch width hidden : Nat) : Prop where
  h : o.h.shape = [batch, hidden]
  c : o.c.shape = [batch, hidden]
  w : o.w.shape = [Cell.lstm.gates * hidden, width]
  r : o.r.shape = [Cell.lstm.gates * hidden, hidden]
  b : o.b.shape = [Cell.lstm.gates * hidden]

variable {o o' : LstmOperands} {hidden batch time width : Nat} {x : Grid}

theorem Fit.exists_lengths (hfit : o.single.Fit hidden x) :
    ∃ batch time width, x.shape = [batch, time, width] ∧ o.Lengths batch width hidden := by
  obtain ⟨hx, hh, hc, hw, hr, hb⟩ := hfit
  obtain ⟨batch, time, width, hshape⟩ := List.length_eq_three.1 hx
  have hone : o.single.w.lengthAt 0 = 1 := by simp [single, Grid.lengthAt]
  rw [hone] at hh hw hr hb
  rw [hh] at hc
  have hdrop : ∀ {t : Grid} {axis : Nat} {shape : List Nat}, (t.insertAxis axis).shape = shape →
      t.shape = shape.eraseIdx axis := fun hshape => by
    rw [← hshape, Grid.shape_insertAxis, List.eraseIdx_insertIdx_self]
  refine ⟨batch, time, width, hshape, ?_⟩
  constructor
  case h => simpa [Grid.lengthAt, hshape] using hdrop hh
  case c => simpa [Grid.lengthAt, hshape] using hdrop hc
  case w => simpa [Grid.lengthAt, hshape] using hdrop hw
  case r => simpa [Grid.lengthAt, hshape] using hdrop hr
  case b => simpa [Grid.lengthAt, hshape] using hdrop hb

theorem Lengths.fit_pair (h : o.Lengths batch width hidden) (hx : x.shape = [batch, time, width])
    (o' : LstmOperands) : (o.pair o').Fit hidden x := by
  simp [Fit, pair, Grid.lengthAt, hx, h.h, h.c, h.w, h.r, h.b]

end LstmOperands

namespace StepFunction

variable {F : StepFunction} {size : (String → Option Attribute) → Nat} {a a' both : Attributes}
  {x lengths : Grid} {o o' : LstmOperands} {outs outs' : List Grid}

/-- A long short-term memory run over a batch of sequences.  The attributes say how long its states
are. -/
def lstm? (F : StepFunction) (size : (String → Option Attribute) → Nat) (a : Attributes) (x : Grid)
    (o : LstmOperands) (lengths : Grid) : Option (List Grid) :=
  if o.Fit (size a.get?) x then F.sequence? .lstm a x [o.h, o.c] lengths o.w o.r o.b else none

/-- A long short-term memory in both directions. -/
theorem lstm?_pair (hforward : ∀ d, isBackward a d = false)
    (hbackward : ∀ d, isBackward a' d = true) (hboth : ∀ d, isBackward both d = (d == 1))
    (hnext : F.next .lstm both.get? = F.next .lstm a.get?)
    (hnext' : F.next .lstm both.get? = F.next .lstm a'.get?)
    (hsize : size both.get? = size a.get?) (hsize' : size both.get? = size a'.get?)
    (h : F.lstm? size a x o.single lengths = some outs)
    (h' : F.lstm? size a' x o'.single lengths = some outs') :
    ∃ batch time width hidden y y' s s' c c', x.shape = [batch, time, width] ∧
      o.Lengths batch width hidden ∧ o'.Lengths batch width hidden ∧
      y.shape = [batch, time, hidden] ∧ y'.shape = [batch, time, hidden] ∧
      StatesFit batch hidden [s, c] [s', c'] ∧
      outs = [y.insertAxis 1, s.insertAxis 1, c.insertAxis 1] ∧
      outs' = [y'.insertAxis 1, s'.insertAxis 1, c'.insertAxis 1] ∧
      F.lstm? size both x (o.pair o') lengths =
        some [.pair 1 y y', .pair 1 s s', .pair 1 c c'] := by
  unfold lstm? at h h' ⊢
  split at h
  · next hfit =>
    split at h'
    · next hfit' =>
      rw [← hsize] at hfit
      rw [← hsize'] at hfit'
      obtain ⟨batch, time, width, hx, hlen⟩ := hfit.exists_lengths
      obtain ⟨batch', time', width', hx', hlen'⟩ := hfit'.exists_lengths
      obtain ⟨rfl, rfl, rfl⟩ : batch' = batch ∧ time' = time ∧ width' = width := by
        simpa using hx'.symm.trans hx
      have hstates : ∀ o : LstmOperands, [o.single.h, o.single.c] = [o.h, o.c].map (·.insertAxis 1) :=
        fun _ => rfl
      rw [hstates] at h h'
      obtain ⟨b, t, i, gates, hidden, y, y', last, last', hxs, hgates, hy, hy', hcount, hlast, rfl,
        rfl, hseq⟩ := sequence?_pair hforward hbackward hboth hnext hnext' rfl rfl
          (hlen'.w.trans hlen.w.symm) (hlen'.r.trans hlen.r.symm) (hlen'.b.trans hlen.b.symm) h h'
      obtain ⟨rfl, rfl, rfl⟩ : b = batch' ∧ t = time' ∧ i = width' := by simpa using hxs.symm.trans hx
      obtain ⟨-, rfl⟩ : gates = Cell.lstm.gates * size both.get? ∧ hidden = size both.get? := by
        simpa using hgates.symm.trans hlen.r
      obtain ⟨s, c, rfl⟩ := List.length_eq_two.1 hcount
      obtain ⟨s', c', rfl⟩ := List.length_eq_two.1 (hlast.length_eq.symm.trans hcount)
      refine ⟨b, t, i, _, y, y', s, s', c, c', hx, hlen, hlen', hy, hy', hlast, rfl, rfl, ?_⟩
      rw [if_pos (hlen.fit_pair hx o')]
      exact hseq
    · simp at h'
  · simp at h

end StepFunction

/-- The operation is a long short-term memory that runs the given steps.  The length of its states is
a function of its attributes. -/
def Interpretation.RunsLstm (I : Interpretation) (F : StepFunction)
    (size : (String → Option Attribute) → Nat) : Prop :=
  ∀ a x h c l w r b, I .lstmSequence a [x, h, c, l, w, r, b] = F.lstm? size a x ⟨h, c, w, r, b⟩ l

end Dataflow
