import ColumnFlow.CrossValidation.Summary
import ColumnFlow.Node.Work
import ColumnFlow.Split.Folds
import ColumnFlow.Value.Parameters

/-!
Cross-validation. A validator goes through its stages in order: it splits the rows into folds, fits
a fresh copy on the training slice of each fold, predicts and scores the test slice, and aggregates
the scores. A fold that fails is recorded and does not stop the others; the whole run fails only if
every fold does. The journal of a validator is the list of stages of its last run.
-/
namespace ColumnFlow

inductive Stage where
  | idle
  | splitting
  | fitTrain
  | predictTest
  | score
  | aggregating
  | done
  | failed
  deriving DecidableEq

def Stage.text : Stage → String
  | .idle => "idle"
  | .splitting => "splitting"
  | .fitTrain => "fit_train"
  | .predictTest => "predict_test"
  | .score => "score"
  | .aggregating => "aggregating"
  | .done => "done"
  | .failed => "failed"

/-- What can be validated: it has a text, and fresh copies can be made, fitted, and asked for their
output. -/
structure Trainable where
  text : Work String
  fresh : Work Site
  fit : Site → Frame → Series → Work Unit
  output : Site → Frame → Work Frame

/-- A validator keeps its choices as they were given; those that cannot be used are refused when
they are needed. -/
structure Validator where
  metric : Metric
  folds : Value
  strategy : Value
  shuffle : Value
  seed : Value
  jobs : Value

/-- Choices for a validator; what is null comes from the settings. -/
structure ValidatorRequest where
  metric : Value
  folds : Value
  strategy : Value
  shuffle : Value
  seed : Value
  jobs : Value

/-- The present stage, the stages since the beginning of the last run, and the calls that told of
its progress, if somebody follows it. -/
structure Journal where
  stage : Stage
  history : List Stage
  progress : List (Nat × Nat)
  followed : Bool

namespace Journal

/-- The journal of a new validator. -/
def opened (followed : Bool) : Journal := ⟨.idle, [.idle], [], followed⟩

def fresh : Journal := opened false

/-- The journal at the start of a run. -/
def restart (j : Journal) : Journal := { j with stage := .idle, history := [.idle] }

/-- Goes on to a stage. -/
def enter (j : Journal) (stage : Stage) : Journal :=
  { j with stage, history := j.history ++ [stage] }

/-- Goes through some stages, one after another. -/
def enterAll (j : Journal) (stages : List Stage) : Journal := stages.foldl enter j

def tell (j : Journal) (fold total : Nat) : Journal :=
  if j.followed then { j with progress := j.progress ++ [(fold, total)] } else j

end Journal

namespace Validator

def create (env : Surroundings) (r : ValidatorRequest) : Work Validator := do
  let s ← Work.settings env
  let metric ← env.metrics.get (r.metric.given (.text s.defaultMetric))
  let v : Validator := {
    metric
    folds := r.folds.unlessNull (.int s.cvFolds)
    strategy := r.strategy.given (.text s.cvStrategy)
    shuffle := r.shuffle.unlessNull (.bool s.cvShuffle)
    seed := r.seed.unlessNull (.int s.randomState)
    jobs := r.jobs.unlessNull (.int s.nJobs) }
  if (← Parameters.numberIn v.folds) < 2.0 then throw (.misuse (.foldCount v.folds))
  if !(Domain.text Settings.strategies).takes v.strategy then
    throw (.misuse (.validationStrategy v.strategy))
  return v

def isStratified (v : Validator) : Bool := (Domain.text ["stratified_kfold"]).takes v.strategy

/-- How rows are cut: into a whole number of folds, in random order or not. -/
def plan (v : Validator) : Except Failure FoldPlan :=
  match v.folds, v.shuffle with
  | .scalar (.int n), .scalar (.bool false) => .ok ⟨n.toNat, v.isStratified, none⟩
  | .scalar (.int n), .scalar (.bool true) =>
    match Domain.whole? v.seed with
    | some seed => .ok ⟨n.toNat, v.isStratified, some seed⟩
    | none => .error (.unusable .value)
  | .scalar (.int _), _ => .error (.unusable .type)
  | _, _ => .error (.unusable .value)

/-- The folds for some features and their target, which must have a value for every row. -/
def split (v : Validator) (X : Frame) (y : Series) : Except Failure (List Fold) := do
  if (Decimal.Exact.finite X.rows).less (← Parameters.exactIn v.folds) then
    throw (.mismatch (.tooManyFolds X.rows v.folds))
  let plan ← v.plan
  if y.rows ≠ X.rows then throw (.unusable .value)
  plan.folds y

/-- Whether folds run one by one. -/
def isSequential (v : Validator) : Bool := (Parameters.exactNumber? v.jobs).any (· == .finite 1)

/-- Workers must be a number other than zero; a fraction does not count. -/
def checkJobs (v : Validator) : Except Failure Unit :=
  if v.isSequential then .ok ()
  else
    match v.jobs with
    | .scalar (.text s) =>
      if (Field.spelledWhole? s).any (· ≠ 0) then .ok () else .error (.unusable .value)
    | .scalar (.float x) =>
      if x.isInf then .error (.unusable .overflow)
      else if x.abs ≥ 1.0 then .ok () else .error (.unusable .value)
    | j =>
      match Domain.whole? j with
      | some n => if n ≠ 0 then .ok () else .error (.unusable .value)
      | none => .error (.unusable .type)

/-- A target without classes, for splits that do not look at it. -/
def unlabelled (X : Frame) : Series :=
  ⟨⟨.null, .int64, X.index.map fun _ => .int 0⟩, X.index⟩

/-- The folds for data of any form. Only stratified folds need a target. -/
def splitData (v : Validator) (X y : Data) : Except Failure (List Fold) := do
  let frame ← X.toFrame
  match ← y.toTarget frame with
  | some target => v.split frame target
  | none =>
    if v.isStratified then throw (.unusable .value)
    else v.split frame (unlabelled frame)

/-- The score of an output, which must be finite. -/
def scoreOf (metric : Metric) (truth : Series) (output : Frame) : Except Failure Float := do
  let score ← metric.score (Sample.ofSeries truth) (← Sample.ofFrame output)
  if score.isNaN || score.isInf then throw (.misuse (.nonFiniteScore metric.name score))
  return score

def blank (fold : Fold) : ScoreRecord :=
  ⟨(fold.index : Int) + 1, none, false, none, fold.train.length, fold.test.length⟩

/-- The record of a fold that failed, with the stages it went through. -/
def failedFold (fold : Fold) (cause : Failure) (stages : List Stage) :
    Work (ScoreRecord × List Stage) := do
  Work.note (.foldFailed ((fold.index : Int) + 1) cause)
  return ({ blank fold with failed := true, error := some cause.foldText }, stages)

/-- Fits a fresh copy on the training slice and scores it on the test slice. -/
def runFold (t : Trainable) (metric : Metric) (X : Frame) (y : Series) (fold : Fold) :
    Work (ScoreRecord × List Stage) := do
  match ← Work.attempt t.fresh with
  | .error e => failedFold fold e []
  | .ok model =>
    match ← Work.attempt (t.fit model (X.takeRows fold.train) (y.takeRows fold.train)) with
    | .error e => failedFold fold e [.fitTrain]
    | .ok () =>
      match ← Work.attempt (t.output model (X.takeRows fold.test)) with
      | .error e => failedFold fold e [.fitTrain, .predictTest]
      | .ok output =>
        let stages := [.fitTrain, .predictTest, .score]
        match scoreOf metric (y.takeRows fold.test) output with
        | .error e => failedFold fold e stages
        | .ok score => return ({ blank fold with score := some score }, stages)

/-- Runs the folds in order. Stages and progress are followed only where folds run one by one. -/
def runFolds (v : Validator) (t : Trainable) (X : Frame) (y : Series) (total : Nat) :
    List Fold → Journal → Work (List ScoreRecord × Journal)
  | [], j => return ([], j)
  | fold :: folds, j => do
    let (record, stages) ← runFold t v.metric X y fold
    let j := if v.isSequential then (j.tell (fold.index + 1) total).enterAll stages else j
    let (records, j) ← runFolds v t X y total folds j
    return (record :: records, j)

/-- The expression in a result, if there is any; it must be a text. -/
def expressionOf (v : Value) : Except Failure (Option String) :=
  match v with
  | .scalar .null => .ok none
  | .scalar (.text s) => .ok (some s)
  | _ => .error (.invalidFields [⟨"expression", .stringType⟩])

/-- Ends a run with its records. -/
def conclude (v : Validator) (expression : Value) (records : List ScoreRecord)
    (j : Journal) : Journal × Except Failure ValidationResult :=
  let j := j.enter .aggregating
  if records.all (·.failed) then (j.enter .failed, .error (.allFoldsFailed records))
  else
    (j.enter .done, do
      return ⟨← expressionOf expression, ScoreSummary.ofRecords records v.metric.name, records⟩)

/-- Cross-validates on some data. The journal is left alone if the data cannot be used. -/
def run (v : Validator) (t : Trainable) (X y : Data) (expression : Value) (j : Journal) :
    Work (Journal × Except Failure ValidationResult) := do
  let prepared : Except Failure (Frame × Series) := do
    let frame ← X.toFrame
    match ← y.toTarget frame with
    | some target => return (frame, target)
    | none => throw (.mismatch (.validationTarget frame.rows))
  match prepared with
  | .error e => return (j, .error e)
  | .ok (frame, target) =>
    let j := j.restart.enter .splitting
    match v.split frame target with
    | .error e => return (j, .error e)
    | .ok folds =>
      match ← Work.attempt (do let _ ← t.text; v.checkJobs) with
      | .error e => return (j, .error e)
      | .ok () =>
        let (records, j) ← v.runFolds t frame target folds.length folds j
        return v.conclude expression records j

end Validator
end ColumnFlow
