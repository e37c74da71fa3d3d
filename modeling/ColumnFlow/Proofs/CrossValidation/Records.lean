import ColumnFlow.Proofs.CrossValidation.Splitting
import ColumnFlow.Proofs.CrossValidation.Stages

/-!
# Records

What a cross-validation tells of its folds. The record of a fold is a judgement on its trial, and
the trial may fail at any of its steps, or its answer may have no finite score. A run that gets past
the splitting has one record for every fold, and its summary is drawn from the records of the folds
that succeeded.
-/
namespace ColumnFlow

/-- What a fresh copy answers for a frame, once it was fitted. -/
def Trainable.trial (t : Trainable) (X : Frame) (y : Series) (Z : Frame) : Work Frame := do
  let model ← t.fresh
  t.fit model X y
  t.output model Z

namespace ScoreRecord

structure Succeeded (r : ScoreRecord) : Prop where
  score : ∃ score, r.score = some score ∧ score.isNaN = false ∧ score.isInf = false
  failed : r.failed = false
  error : r.error = none

structure Failed (r : ScoreRecord) : Prop where
  score : r.score = none
  failed : r.failed = true
  error : ∃ text, r.error = some text

/-- One record for every fold of `n` rows, in the order of the folds. -/
structure Tally (n k : Nat) (records : List ScoreRecord) : Prop where
  numbered : records.map (·.fold) = (List.range k).map fun i : Nat => (i : Int) + 1
  sizes : ∀ r ∈ records, r.trainSize + r.testSize = n
  tested : records.foldl (fun sum r => sum + r.testSize) (0 : Int) = n
  told : ∀ r ∈ records, r.Succeeded ∨ r.Failed

end ScoreRecord

namespace Fold.Partition

variable {n k : Nat} {folds : List Fold} {f : Fold}

theorem length_eq (h : Partition n k folds) (hf : f ∈ folds) :
    f.train.length + f.test.length = n := by
  -- Tested rows are distinct, so they are the rows of the range that are among them.
  have hrows : f.test.Perm ((List.range n).filter (· ∈ f.test)) := by
    refine (List.perm_ext_iff_of_nodup ((h.ascending f hf).imp fun h => Nat.ne_of_lt h)
      (List.nodup_range.filter _)).2 fun r => ?_
    have hcovered : r ∈ f.test → r ∈ List.range n := fun hr =>
      h.covers.mem_iff.1 (List.mem_flatMap.2 ⟨f, hf, hr⟩)
    simpa using hcovered
  have hsplit := List.length_eq_countP_add_countP (fun r => decide (r ∈ f.test)) (l := List.range n)
  rw [h.complement f hf, hrows.length_eq, ← List.countP_eq_length_filter,
    ← List.countP_eq_length_filter, Nat.add_comm]
  simpa using hsplit.symm

end Fold.Partition

namespace Validator

variable {v : Validator} {t : Trainable} {metric : Metric} {X frame : Frame} {y target : Series}
  {fold : Fold} {folds : List Fold} {records : List ScoreRecord} {w w₁ : Workspace} {total k : Nat}
  {expression : Value} {j : Journal}

/-! One fold. -/

def foldTrial (t : Trainable) (X : Frame) (y : Series) (fold : Fold) : Work Frame :=
  t.trial (X.takeRows fold.train) (y.takeRows fold.train) (X.takeRows fold.test)

/-- The record of a fold by what its trial came to. -/
def judged (metric : Metric) (fold : Fold) (truth : Series) (answer : Except Failure Frame) :
    ScoreRecord :=
  match answer >>= scoreOf metric truth with
  | .ok score => { blank fold with score := some score }
  | .error e => { blank fold with failed := true, error := some e.foldText }

theorem runFold_judged (t : Trainable) (metric : Metric) (X : Frame) (y : Series) (fold : Fold)
    (w : Workspace) : ∃ stages w',
      runFold t metric X y fold w =
        (.ok (judged metric fold (y.takeRows fold.test) (foldTrial t X y fold w).1, stages), w') ∧
      w'.memory = (foldTrial t X y fold w).2.memory := by
  unfold runFold foldTrial Trainable.trial
  rw [Work.run_attempt_bind, Work.run_bind]
  rcases t.fresh w with ⟨e | s, w₁⟩
  · exact ⟨_, _, rfl, rfl⟩
  dsimp only
  rw [Work.run_attempt_bind, Work.run_bind]
  rcases t.fit s (X.takeRows fold.train) (y.takeRows fold.train) w₁ with ⟨e | _, w₂⟩
  · exact ⟨_, _, rfl, rfl⟩
  dsimp only
  rw [Work.run_attempt_bind]
  rcases t.output s (X.takeRows fold.test) w₂ with ⟨e | output, w₃⟩
  · exact ⟨_, _, rfl, rfl⟩
  dsimp only
  rw [judged, Except.bind_ok]
  cases scoreOf metric (y.takeRows fold.test) output with
  | error e => exact ⟨_, _, rfl, rfl⟩
  | ok score => exact ⟨_, _, rfl, rfl⟩

theorem scoreOf_finite {truth : Series} {output : Frame} {score : Float}
    (h : scoreOf metric truth output = .ok score) : score.isNaN = false ∧ score.isInf = false := by
  obtain ⟨sample, -, h⟩ := Except.exists_of_bind h
  obtain ⟨score', -, h⟩ := Except.exists_of_bind h
  split at h
  · cases h
  · rename_i hfinite
    cases h
    simpa using hfinite

theorem judged_told (metric : Metric) (fold : Fold) (truth : Series)
    (answer : Except Failure Frame) :
    (judged metric fold truth answer).Succeeded ∨ (judged metric fold truth answer).Failed := by
  unfold judged
  cases hscore : answer >>= scoreOf metric truth with
  | error e => exact .inr ⟨rfl, rfl, _, rfl⟩
  | ok score =>
    obtain ⟨output, -, hscore⟩ := Except.exists_of_bind hscore
    exact .inl ⟨⟨score, rfl, scoreOf_finite hscore⟩, rfl, rfl⟩

theorem judged_blank (metric : Metric) (fold : Fold) (truth : Series)
    (answer : Except Failure Frame) :
    (judged metric fold truth answer).fold = (fold.index : Int) + 1 ∧
      (judged metric fold truth answer).trainSize = fold.train.length ∧
      (judged metric fold truth answer).testSize = fold.test.length := by
  unfold judged
  split <;> exact ⟨rfl, rfl, rfl⟩

/-! All folds. -/

/-- The records of some folds, each from a trial that begins where the fold before it ended. -/
inductive Recorded (t : Trainable) (metric : Metric) (X : Frame) (y : Series) :
    List Fold → Workspace → List ScoreRecord → Prop where
  | nil {w : Workspace} : Recorded t metric X y [] w []
  | cons {fold : Fold} {folds : List Fold} {w : Workspace} {records : List ScoreRecord}
    (hrest : Recorded t metric X y folds (runFold t metric X y fold w).2 records) :
    Recorded t metric X y (fold :: folds) w
      (judged metric fold (y.takeRows fold.test) (foldTrial t X y fold w).1 :: records)

theorem runFolds_recorded (v : Validator) (t : Trainable) (X : Frame) (y : Series) (total : Nat)
    (folds : List Fold) (j : Journal) (w : Workspace) : ∃ records j' w',
      v.runFolds t X y total folds j w = (.ok (records, j'), w') ∧
      Recorded t v.metric X y folds w records := by
  induction folds generalizing j w with
  | nil => exact ⟨[], j, w, rfl, .nil⟩
  | cons fold folds ih =>
    obtain ⟨stages, w₁, hfold, -⟩ := runFold_judged t v.metric X y fold w
    obtain ⟨records, j', w', hrest, hrecords⟩ :=
      ih (if v.isSequential then (j.tell (fold.index + 1) total).enterAll stages else j) w₁
    refine ⟨_, j', w', ?_, .cons (by rw [hfold]; exact hrecords)⟩
    rw [runFolds, Work.run_bind, hfold]
    dsimp only
    rw [Work.run_bind, hrest]
    rfl

theorem Recorded.map_eq {α : Type} {f : ScoreRecord → α} {g : Fold → α}
    (h : Recorded t metric X y folds w records)
    (hfg : ∀ fold truth answer, f (judged metric fold truth answer) = g fold) :
    records.map f = folds.map g := by
  induction h with
  | nil => rfl
  | cons hrest ih => rw [List.map_cons, List.map_cons, ih, hfg]

theorem Recorded.told (h : Recorded t metric X y folds w records) :
    ∀ r ∈ records, r.Succeeded ∨ r.Failed := by
  induction h with
  | nil => simp
  | cons hrest ih =>
    intro r hr
    rcases List.mem_cons.1 hr with rfl | hr
    · exact judged_told _ _ _ _
    · exact ih r hr

theorem Recorded.length_eq (h : Recorded t metric X y folds w records) :
    records.length = folds.length := by
  induction h with
  | nil => rfl
  | cons hrest ih => rw [List.length_cons, List.length_cons, ih]

theorem Recorded.foldl_testSize (h : Recorded t metric X y folds w records) (sum : Int) :
    records.foldl (fun sum r => sum + r.testSize) sum =
      sum + ((folds.flatMap Fold.test).length : Nat) := by
  induction h generalizing sum with
  | nil => simp
  | cons hrest ih =>
    rw [List.foldl_cons, ih, (judged_blank _ _ _ _).2.2, List.flatMap_cons, List.length_append,
      Int.natCast_add, Int.add_assoc]

theorem Recorded.tally {n : Nat} (h : Recorded t metric X y folds w records)
    (hfolds : Fold.Partition n k folds) : ScoreRecord.Tally n k records where
  numbered := by
    rw [h.map_eq (f := (·.fold)) (g := fun fold => (fold.index : Int) + 1)
      fun fold truth answer => (judged_blank _ _ _ _).1, ← hfolds.numbered, List.map_map]
    rfl
  sizes := by
    have hsizes := h.map_eq (f := fun r => r.trainSize + r.testSize)
      (g := fun fold => ((fold.train.length + fold.test.length : Nat) : Int))
      fun fold truth answer => by
        rw [(judged_blank _ _ _ _).2.1, (judged_blank _ _ _ _).2.2, Int.natCast_add]
    intro r hr
    have hmem : r.trainSize + r.testSize ∈ folds.map _ := hsizes ▸ List.mem_map_of_mem hr
    obtain ⟨fold, hfold, heq⟩ := List.mem_map.1 hmem
    rw [← heq, hfolds.length_eq hfold]
  tested := by
    rw [h.foldl_testSize, hfolds.covers.length_eq, List.length_range, Int.zero_add]
  told := h.told

/-! Whole runs. -/

/-- A run that gets past the splitting: the data, the name of the node and the workers can be used,
and the rows are split. -/
structure Starts (v : Validator) (t : Trainable) (X y : Data) (w : Workspace) (frame : Frame)
    (target : Series) (folds : List Fold) (w₁ : Workspace) : Prop where
  prepared : Prepared X y frame target
  split : v.split frame target = .ok folds
  accepted : (do let _ ← t.text; v.checkJobs : Work Unit) w = (.ok (), w₁)

theorem Starts.exists_run {X y : Data} (h : v.Starts t X y w frame target folds w₁)
    (expression : Value) (j : Journal) : ∃ records j₁ w₂,
      v.run t X y expression j w = (.ok (v.conclude expression records j₁), w₂) ∧
      Recorded t v.metric frame target folds w₁ records := by
  obtain ⟨records, j₁, w₂, hrun, hrecords⟩ :=
    runFolds_recorded v t frame target folds.length folds (j.restart.enter .splitting) w₁
  exact ⟨records, j₁, w₂, run_completed expression h.prepared h.split h.accepted hrun, hrecords⟩

theorem conclude_summarised (expression : Value) (j : Journal)
    (h : ∃ r ∈ records, r.failed = false) :
    v.conclude expression records j = ((j.enter .aggregating).enter .done,
      (expressionOf expression).map fun text =>
        ⟨text, .ofRecords records v.metric.name, records⟩) := by
  have hsome : records.all (·.failed) = false := by
    rw [List.all_eq_false]
    exact h.imp fun r hr => ⟨hr.1, by simp [hr.2]⟩
  unfold conclude
  rw [if_neg (by rw [hsome]; decide)]
  cases expressionOf expression <;> rfl

end Validator
end ColumnFlow
