import ColumnFlow.Proofs.CrossValidation.Independence
import ColumnFlow.Proofs.Frame.Slicing
import ColumnFlow.Proofs.Node.Training

/-!
# Rows that are not seen

What is learned in a fold does not depend on the rows that are tested. Without classes the split
knows nothing but the number of rows, the training slice has none of the tested rows, and a target
is read only in the form that its training slice comes to.
-/
namespace ColumnFlow

namespace Column

/-- Two columns of one kind whose cells are the same outside of some rows. -/
structure AgreeOutside (tested : List Nat) (c c' : Column) : Prop where
  label : c.label = c'.label
  dtype : c.dtype = c'.dtype
  length : c.cells.length = c'.cells.length
  cells : ∀ i, i ∉ tested → c.cells[i]? = c'.cells[i]?

variable {tested positions : List Nat} {c c' : Column}

theorem AgreeOutside.agreeAt (h : AgreeOutside tested c c') (hp : ∀ i ∈ positions, i ∉ tested) :
    AgreeAt positions c c' :=
  ⟨h.label, h.dtype, fun i hi => h.cells i (hp i hi)⟩

theorem AgreeAt.takeRows_eq (h : AgreeAt positions c c') :
    c.takeRows positions = c'.takeRows positions := by
  unfold takeRows
  rw [h.label, h.dtype, pick_congr h.cells]

end Column

namespace Frame

/-- Two frames with the same columns whose rows are the same outside of some rows. -/
structure AgreeOutside (tested : List Nat) (X X' : Frame) : Prop where
  rows : X.rows = X'.rows
  index : ∀ i, i ∉ tested → X.index[i]? = X'.index[i]?
  columns : List.Forall₂ (Column.AgreeOutside tested) X.columns X'.columns

theorem AgreeOutside.takeRows_eq {tested positions : List Nat} {X X' : Frame}
    (h : AgreeOutside tested X X') (hp : ∀ i ∈ positions, i ∉ tested) :
    X.takeRows positions = X'.takeRows positions := by
  unfold takeRows
  rw [pick_congr fun i hi => h.index i (hp i hi)]
  congr 1
  have hcolumns := h.columns
  generalize X.columns = cs at hcolumns ⊢
  generalize X'.columns = cs' at hcolumns ⊢
  induction hcolumns with
  | nil => rfl
  | cons hc _ ih => rw [List.map_cons, List.map_cons, ih, (hc.agreeAt hp).takeRows_eq]

end Frame

/-- A fold trains on no row that it tests. -/
theorem FoldPlan.train_apart {p : FoldPlan} {y : Series} {folds : List Fold}
    (hplain : p.stratified = false) (h : p.folds y = .ok folds) :
    ∀ fold ∈ folds, ∀ i ∈ fold.train, i ∉ fold.test := by
  rw [FoldPlan.folds, if_neg (by rw [hplain]; decide)] at h
  obtain ⟨order, rfl, -⟩ := plainFolds_ok h
  intro fold hfold i hi
  obtain ⟨part, -, rfl⟩ := List.mem_map.1 hfold
  rw [(Fold.assigned _ _ _).complement] at hi
  simpa using (List.mem_filter.1 hi).2

namespace Validator

variable {v : Validator} {X X' : Frame} {y y' : Series} {folds : List Fold}

theorem plan_stratified {p : FoldPlan} (h : v.plan = .ok p) : p.stratified = v.isStratified := by
  unfold plan at h
  split at h
  · cases h
    rfl
  · split at h
    · cases h
      rfl
    · cases h
  · cases h
  · cases h

/-- Without classes, rows are split by their number. -/
theorem split_rows (hplain : v.isStratified = false) (hX : X.rows = X'.rows)
    (hy : y.rows = y'.rows) : v.split X y = v.split X' y' := by
  unfold split
  rw [hX, hy]
  cases hplan : v.plan with
  | error e => rfl
  | ok p =>
    have hfolds : p.folds y = p.folds y' := by
      simp only [FoldPlan.folds, plan_stratified hplan, hplain, hy, Bool.false_eq_true, if_false]
    simp only [Except.bind_ok, hfolds]

theorem train_apart (hplain : v.isStratified = false) (h : v.split X y = .ok folds) :
    ∀ fold ∈ folds, ∀ i ∈ fold.train, i ∉ fold.test := by
  obtain ⟨p, hp, -, hfolds⟩ := split_ok h
  exact p.train_apart ((plan_stratified hp).trans hplain) hfolds

end Validator

/-! Targets. -/

/-- A target is read in its plain form only. -/
theorem alignTarget_congr {s s' : Series} (h : Series.dissolve s.column = Series.dissolve s'.column)
    (Z : Frame) : alignTarget (some s) Z = alignTarget (some s') Z := by
  have hrows : s.rows = s'.rows :=
    (Series.length_dissolve _).symm.trans ((congrArg (·.cells.length) h).trans
      (Series.length_dissolve _))
  simp only [alignTarget, Series.align, h, hrows]

theorem column_of_alignTarget {s target : Series} {X : Frame}
    (h : alignTarget (some s) X = .ok (some target)) :
    target.column = Series.dissolve s.column := by
  simp only [alignTarget, Series.align] at h
  cases hlength : checkLengths X s.rows with
  | error e =>
    rw [hlength] at h
    cases h
  | ok _ =>
    rw [hlength] at h
    cases h
    rfl

/-- Targets that agree on a slice, and on what cells outside of it decide, are aligned alike. -/
theorem alignTarget_slice {positions : List Nat} {y y' target target' : Series} {X X' : Frame}
    (hy : alignTarget (some y) X = .ok (some target))
    (hy' : alignTarget (some y') X' = .ok (some target'))
    (hagree : Column.AgreeAt positions y.column y'.column)
    (htyped : y.column.Typed) (htyped' : y'.column.Typed)
    (hsettled : Column.Settled positions y.column y'.column) (Z : Frame) :
    alignTarget (some (target.takeRows positions)) Z =
      alignTarget (some (target'.takeRows positions)) Z := by
  have hslice := Column.dissolve_takeRows hagree htyped htyped' hsettled
  rw [← column_of_alignTarget hy, ← column_of_alignTarget hy'] at hslice
  exact alignTarget_congr hslice Z

namespace Node

variable {env : Surroundings} {n n' : Node} {w w' : Workspace} {m m' v v' : Memory} {X X' : Frame}
  {y y' : Series} {S S' : List Nat}

theorem SameConfiguration.extend (h : SameConfiguration m m' n n') (hn : n.InUse m)
    (hn' : n'.InUse m') (hv : Memory.Extends S m v) (hv' : Memory.Extends S' m' v') :
    SameConfiguration v v' n n' :=
  ⟨h.1, h.2.congr (fun i hi => hv.name_eq i (hn i hi)) fun i hi => hv'.name_eq i (hn' i hi)⟩

/-- What a trial comes to depends on the target in its aligned form. -/
theorem trial_target (h : alignTarget (some y) X = alignTarget (some y') X) (Z : Frame) :
    (n.trainable env).trial X y Z = (n.trainable env).trial X y' Z := by
  funext w
  rw [run_trial, run_trial, fit_target h]

/-- The test slice of a fold is not seen by what is trained in it. Without classes, two sets of data
that agree outside of the slice are split alike, and after whatever folds were run before, the fold
comes to the same answer to every frame. If only targets differ, the records of the fold judge one
answer. -/
theorem test_slice_unseen (env : Surroundings) (v : Validator) (n n' : Node) (w w' : Workspace)
    (X X' : Frame) (y y' target target' : Series) (folds : List Fold) (fold : Fold)
    (hplain : v.isStratified = false) (hn : n.InUse w.memory) (hn' : n'.InUse w'.memory)
    (hconfiguration : SameConfiguration w.memory w'.memory n n')
    (hdata : Validator.Prepared (.frame X) (.series y) X target)
    (hdata' : Validator.Prepared (.frame X') (.series y') X' target')
    (hsplit : v.split X target = .ok folds) (hfold : fold ∈ folds)
    (hX : X.AgreeOutside fold.test X') (hy : y.column.AgreeOutside fold.test y'.column)
    (htyped : y.column.Typed) (htyped' : y'.column.Typed)
    (hsettled : Column.Settled fold.train y.column y'.column) :
    v.split X' target' = .ok folds ∧
    ∀ (others others' : List Fold) (total total' : Nat) (j j' : Journal) (u u' : Workspace),
      u = (v.runFolds (n.trainable env) X target total others j w).2 →
      u' = (v.runFolds (n'.trainable env) X' target' total' others' j' w').2 →
      (∀ Z, ((n.trainable env).trial (X.takeRows fold.train) (target.takeRows fold.train) Z u).1 =
        ((n'.trainable env).trial (X'.takeRows fold.train) (target'.takeRows fold.train) Z u').1) ∧
      (X.takeRows fold.test = X'.takeRows fold.test → ∃ answer,
        foldRecord env n v.metric X target fold u =
          Validator.judged v.metric fold (target.takeRows fold.test) answer ∧
        foldRecord env n' v.metric X' target' fold u' =
          Validator.judged v.metric fold (target'.takeRows fold.test) answer) := by
  have htarget : alignTarget (some y) X = .ok (some target) := hdata.2
  have htarget' : alignTarget (some y') X' = .ok (some target') := hdata'.2
  have hrows : target.rows = target'.rows := by
    unfold Series.rows
    rw [column_of_alignTarget htarget, column_of_alignTarget htarget', Series.length_dissolve,
      Series.length_dissolve, hy.length]
  have hapart := Validator.train_apart hplain hsplit fold hfold
  refine ⟨(Validator.split_rows hplain hX.rows hrows).symm.trans hsplit,
    fun others others' total total' j j' u u' hu hu' => ?_⟩
  obtain ⟨_, _, hrun, hext⟩ := runFolds_records env hn v X target total others j
  obtain ⟨_, _, hrun', hext'⟩ := runFolds_records env hn' v X' target' total' others' j'
  rw [hrun] at hu
  rw [hrun'] at hu'
  subst hu hu'
  -- Whatever the other folds came to, the names of both nodes are as they were.
  have hlater := hconfiguration.extend hn hn' hext hext'
  have hanswers : ∀ Z, ((n.trainable env).trial (X.takeRows fold.train)
      (target.takeRows fold.train) Z _).1 = ((n'.trainable env).trial (X'.takeRows fold.train)
      (target'.takeRows fold.train) Z _).1 := fun Z => by
    rw [trial_eq hlater (hn.extend hext) (hn'.extend hext'), hX.takeRows_eq hapart,
      trial_target (alignTarget_slice htarget htarget' (hy.agreeAt hapart) htyped htyped' hsettled
        _)]
  refine ⟨hanswers, fun htest => ⟨_, rfl, ?_⟩⟩
  unfold foldRecord Validator.foldTrial
  rw [← hanswers, htest]

/-- Predicts the first label that it was taught, of the kind that it was taught. -/
def parrot : Node := ⟨.learner ⟨"Parrot", [], .labels, "classification", fun _ y =>
  pure (some ⟨fun X => pure ⟨.null, y.dtype, X.index.map fun _ => y.cells.headD .null⟩, none⟩)⟩,
  .mk 0 []⟩

def perch : Workspace := ⟨⟨#[.fresh (.text "parrot")]⟩, [], false⟩

/-- A target of two categories, with some first cell. -/
def graded (kind : Dtype) (levels : List Value) (first last : Value) : Series :=
  ⟨⟨.text "grade", .category kind levels, [first, last]⟩, rangeIndex 2⟩

theorem graded_agreeOutside (kind : Dtype) (levels : List Value) (first first' last : Value) :
    (graded kind levels first last).column.AgreeOutside [0]
      (graded kind levels first' last).column := by
  refine ⟨rfl, rfl, rfl, fun i hi => ?_⟩
  cases i with
  | zero => exact absurd List.mem_cons_self hi
  | succ i => rfl

theorem test_slice_unseen_two :
    (Validator.ofTwo 1).split Validator.two
        ⟨⟨.text "grade", .text, [.scalar .absent, .text "b"]⟩, rangeIndex 2⟩ =
      .ok [⟨0, [1], [0]⟩, ⟨1, [0], [1]⟩] ∧
    ∀ Z, ((parrot.trainable ⟨.error (.unusable .value), .builtin⟩).trial
          (Validator.two.takeRows [1])
          (Series.takeRows ⟨⟨.text "grade", .text, [.text "a", .text "b"]⟩, rangeIndex 2⟩ [1])
          Z perch).1 =
        ((parrot.trainable ⟨.error (.unusable .value), .builtin⟩).trial
          (Validator.two.takeRows [1])
          (Series.takeRows ⟨⟨.text "grade", .text, [.scalar .absent, .text "b"]⟩, rangeIndex 2⟩ [1])
          Z perch).1 := by
  have hn : parrot.InUse perch.memory := by decide
  obtain ⟨hsplit, hruns⟩ := test_slice_unseen ⟨.error (.unusable .value), .builtin⟩
    (Validator.ofTwo 1) parrot parrot perch perch Validator.two Validator.two
    (graded .text [.text "a", .text "b"] (.text "a") (.text "b"))
    (graded .text [.text "a", .text "b"] (.scalar .absent) (.text "b"))
    ⟨⟨.text "grade", .text, [.text "a", .text "b"]⟩, rangeIndex 2⟩
    ⟨⟨.text "grade", .text, [.scalar .absent, .text "b"]⟩, rangeIndex 2⟩
    [⟨0, [1], [0]⟩, ⟨1, [0], [1]⟩] ⟨0, [1], [0]⟩ (by decide +kernel) hn hn
    (hn.sameConfiguration (.refl [] _)) ⟨rfl, rfl⟩ ⟨rfl, rfl⟩ rfl List.mem_cons_self
    ⟨rfl, fun _ _ => rfl, .cons ⟨rfl, rfl, rfl, fun _ _ => rfl⟩ .nil⟩
    (graded_agreeOutside _ _ _ _ _) (by decide) (by decide) ⟨nofun, nofun⟩
  exact ⟨hsplit, (hruns [] [] 2 2 .fresh .fresh perch perch rfl rfl).1⟩

/-- Where a whole number is missing among the categories of the test slice, the training slice
holds binary numbers. -/
theorem test_slice_seen : ¬ ∀ (env : Surroundings) (v : Validator) (n : Node) (w : Workspace)
    (X : Frame) (y y' target target' : Series) (folds : List Fold) (fold : Fold) (Z : Frame),
    v.isStratified = false → n.InUse w.memory →
    Validator.Prepared (.frame X) (.series y) X target →
    Validator.Prepared (.frame X) (.series y') X target' →
    v.split X target = .ok folds → fold ∈ folds →
    y.column.AgreeOutside fold.test y'.column → y.column.Typed → y'.column.Typed →
    ((n.trainable env).trial (X.takeRows fold.train) (target.takeRows fold.train) Z w).1 =
      ((n.trainable env).trial (X.takeRows fold.train) (target'.takeRows fold.train) Z w).1 := by
  intro h
  have hsame := h ⟨.error (.unusable .value), .builtin⟩ (Validator.ofTwo 1) parrot perch
    Validator.two (graded .int64 [.int 1, .int 2] (.int 1) (.int 2))
    (graded .int64 [.int 1, .int 2] (.scalar .absent) (.int 2))
    ⟨⟨.text "grade", .int64, [.int 1, .int 2]⟩, rangeIndex 2⟩ _
    [⟨0, [1], [0]⟩, ⟨1, [0], [1]⟩] ⟨0, [1], [0]⟩ Validator.two (by decide +kernel) (by decide)
    ⟨rfl, rfl⟩ ⟨rfl, rfl⟩ rfl List.mem_cons_self (graded_agreeOutside _ _ _ _ _) (by decide)
    (by decide)
  have hkinds := congrArg (fun answer : Except Failure Frame => answer.toOption.map fun F =>
    F.columns.map (·.dtype.name)) hsame
  revert hkinds
  decide +kernel

end Node
end ColumnFlow
