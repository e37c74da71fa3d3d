import ColumnFlow.CrossValidation.Run
import ColumnFlow.Node.Copy
import ColumnFlow.Node.Transform
import ColumnFlow.Split.Holdout

/-!
Fitting a tree. A node forgets that it was fitted before anything else happens and remembers its
columns only when all went well, so that a fit that stops halfway leaves it unfitted. Every node
aligns the target with its own features. Ensembles fit their members on the rows they choose;
candidates of a choice are tried out on copies, and only the chosen one is fitted.
-/
namespace ColumnFlow

namespace Work

/-- Fits a node with a body that gets the aligned target. -/
def fitting (s : Site) (X : Frame) (y : Option Series) (body : Option Series → Work Unit) :
    Work Unit := do
  let y ← alignTarget y X
  setInput s none
  body y
  setInput s (some X.labels)

def labelOf (s : Site) : Work Label := do return (← memory).label s

/-- The target, which an ensemble needs. -/
def requireTarget (ensemble : String) (s : Site) (y : Option Series) : Work Series := do
  match y with
  | some y => return y
  | none => throw (.mismatch (.ensembleTarget ensemble (← labelOf s)))

end Work

/-- A whole number of halves goes to the even neighbour. -/
def roundHalfEven (x : Float) : Int :=
  match Decimal.Exact.ofFloat x with
  | .finite q =>
    let low := q.floor
    let rest := q - low
    if rest < 1 / 2 then low
    else if rest > 1 / 2 then low + 1
    else if low % 2 = 0 then low else low + 1
  | _ => 0

namespace BaggingSettings

/-- The size of a sample of `rows` rows, at least one. -/
def draws (settings : BaggingSettings) (rows : Nat) : Nat :=
  match settings.share with
  | .scalar (.float x) => max 1 (roundHalfEven (x * Float.ofNat rows)).toNat
  | _ => max 1 rows

end BaggingSettings

/-- The first of the best finite scores. -/
def bestIndex (metric : Metric) (scores : List Float) : Option Nat :=
  (scores.zipIdx.foldl (fun (best : Option (Float × Nat)) p =>
    if p.1.isNaN || p.1.isInf then best
    else
      match best with
      | none => some p
      | some b => if metric.isBetter p.1 b.1 then some p else best) none).map (·.2)

namespace SelectionPolicy

/-- The rows on which candidates are fitted and those on which they are scored. -/
def holdout (policy : SelectionPolicy) (settings : Settings) (seed : Value) (X : Frame)
    (y : Series) : Except Failure Holdout := do
  if !Domain.flag.takes policy.shuffle then throw (.unusable .parameter)
  Holdout.split X.rows (policy.testSize.given (.float settings.bestHoldoutSize))
    (if policy.shuffle.isTrue then some seed else none)
    (if policy.stratify.isTrue then some y else none)

/-- The validator that scores candidates by cross-validation. -/
def validator (policy : SelectionPolicy) (env : Surroundings) (metric : Metric) (seed : Value) :
    Work Validator :=
  Validator.create env ⟨.text metric.name, policy.folds,
    .text (if policy.stratify.isTrue then "stratified_kfold" else "kfold"), policy.shuffle,
    seed, .int 1⟩

end SelectionPolicy

namespace Plan

/-- What the stacker learns from, for some rows. -/
def stackedFeatures (ps : List Plan) (settings : StackSettings) (s : Site) (X : Frame) :
    Work Frame := do
  let memory ← Work.memory
  let members ← labelsOfAll memory ps s.rest X
  let predictions := Memory.besides (memory.labelsOf s.rest) members X
  Stacking.features (Stacking.stored memory s) settings.keepOriginal.isTrue predictions X

mutual

def fit (env : Surroundings) : Plan → Site → Frame → Option Series → Work Unit
  | .transformer t, s, X, y => Work.fitting s X y fun _ => do
    let fitted ← t.calculate X
    Work.setLearned s (fitted.elim .nothing .fitted)
  | .learner l, s, X, y => Work.fitting s X y fun y => do
    match y with
    | none => throw (.mismatch (.learnerTarget (← Work.labelOf s) X.rows))
    | some y =>
      let model ← l.calculate X y
      Work.setLearned s (model.elim .nothing .model)
  | .element e, s, X, y => Work.fitting s X y fun _ => do
    e.fit (← Work.labelOf s).plain X
  | .sequential ps, s, X, y => Work.fitting s X y fun y => fitChain env ps s.parts X y
  | .parallel ps, s, X, y => Work.fitting s X y fun y => fitAll env ps s.parts X y
  | .vote ps, s, X, y => Work.fitting s X y fun y => fitAll env ps s.parts X y
  | .stack t ps settings, s, X, y => Work.fitting s X y fun y => do
    let y ← Work.requireTarget "StackEnsemble" s y
    let defaults ← Work.settings env
    let split ← Holdout.split X.rows
      (settings.proportion.given (.float defaults.stackerTrainingProportion))
      (some (settings.seed.unlessNull (.int defaults.randomState)))
      (if settings.stratify.isTrue then some y else none)
    Work.setLearned s (.codes (← Stacking.codes y))
    fitAll env ps s.rest (X.takeRows split.train) (some (y.takeRows split.train))
    let stacked ← stackedFeatures ps settings s (X.takeRows split.test)
    fit env t s.first stacked (some (y.takeRows split.test))
  | .best ps policy, s, X, y => Work.fitting s X y fun y => do
    let y ← Work.requireTarget "BestLearner" s y
    let defaults ← Work.settings env
    let metric ← env.metrics.get (policy.metric.given (.text defaults.defaultMetric))
    let seed := policy.seed.unlessNull (.int defaults.randomState)
    let scores ← match policy.strategy with
      | .scalar (.text "holdout") => do
        let split ← policy.holdout defaults seed X y
        holdoutScores env metric ps s.parts X y split
      | .scalar (.text "cv") => do
        let validator ← policy.validator env metric seed
        foldScores env validator s ps s.parts X y
      | strategy => throw (.misuse (.selectionStrategy strategy))
    let memory ← Work.memory
    let named := (memory.labelsOf s.parts).zip scores
    match bestIndex metric scores with
    | none =>
      Work.setLearned s (.choice (memory.winner s) named)
      throw (.noFiniteScore (memory.label s) named)
    | some i =>
      Work.setLearned s (.choice (some i) named)
      fitAt env ps s.parts i X y
  | .bagging t settings, s, X, y => Work.fitting s X y fun y => do
    let y ← Work.requireTarget "BaggingEnsemble" s y
    let asked ← if settings.seed.isNull then do
        pure (Value.int (← Work.settings env).randomState)
      else pure settings.seed
    let some seed := Domain.whole? asked | throw (.unusable .type)
    if !Draw.isSeed seed then throw (.unusable .value)
    if X.rows = 0 then throw (.unusable .value)
    let _ ← s.rest.foldlM (fun source member => do
      let (rows, source) := Draw.Twister.sample X.rows (settings.draws X.rows) source
      fit env t member (X.takeRows rows) (some (y.takeRows rows))
      return source) (Draw.Twister.ofSeed seed.toNat)

/-- Fits each part on the output of the part before it; the output of the last is not needed. -/
def fitChain (env : Surroundings) : List Plan → List Site → Frame → Option Series → Work Unit
  | [p], s :: _, X, y => fit env p s X y
  | p :: q :: ps, s :: ss, X, y => do
    fit env p s X y
    let next ← transform (← Work.memory) p s X
    fitChain env (q :: ps) ss next y
  | _, _, _, _ => return ()

/-- Fits all parts on the same data. -/
def fitAll (env : Surroundings) : List Plan → List Site → Frame → Option Series → Work Unit
  | p :: ps, s :: ss, X, y => do
    fit env p s X y
    fitAll env ps ss X y
  | _, _, _, _ => return ()

/-- Fits one part. -/
def fitAt (env : Surroundings) : List Plan → List Site → Nat → Frame → Series → Work Unit
  | p :: _, s :: _, 0, X, y => fit env p s X (some y)
  | _ :: ps, _ :: ss, i + 1, X, y => fitAt env ps ss i X y
  | _, _, _, _, _ => return ()

/-- Scores a copy of every candidate on the rows that were held out. -/
def holdoutScores (env : Surroundings) (metric : Metric) :
    List Plan → List Site → Frame → Series → Holdout → Work (List Float)
  | p :: ps, s :: ss, X, y, split => do
    let candidate ← Work.placing (p.copy s)
    fit env p candidate (X.takeRows split.train) (some (y.takeRows split.train))
    let held := X.takeRows split.test
    let memory ← Work.memory
    let guess ← memory.labels p candidate held fun _ => transform memory p candidate held
    let score ← metric.score (Sample.ofSeries (y.takeRows split.test)) (Sample.ofSeries guess)
    return score :: (← holdoutScores env metric ps ss X y split)
  | _, _, _, _, _ => return []

/-- The mean score of every candidate over the folds; none where every fold failed. -/
def foldScores (env : Surroundings) (v : Validator) (owner : Site) :
    List Plan → List Site → Frame → Series → Work (List Float)
  | p :: ps, s :: ss, X, y => do
    let candidate : Trainable :=
      ⟨do text (← Work.memory) p s, Work.placing (p.copy s),
        fun site X y => fit env p site X (some y),
        fun site X => do transform (← Work.memory) p site X⟩
    let (_, outcome) ← v.run candidate (.frame X) (.series y) .null .fresh
    let score ← match outcome with
      | .ok result => pure result.summary.mean
      | .error (.allFoldsFailed _) => do
        let memory ← Work.memory
        Work.note (.everyFoldFailed (memory.name owner) (memory.name s))
        pure Decimal.notANumber
      | .error e => throw e
    return score :: (← foldScores env v owner ps ss X y)
  | _, _, _, _ => return []

end

end Plan

namespace Node

/-- A node as something that can be validated. -/
def trainable (env : Surroundings) (n : Node) : Trainable :=
  ⟨do n.text (← Work.memory), Work.placing (n.plan.copy n.site),
    fun site X y => n.plan.fit env site X (some y),
    fun site X => do n.plan.transform (← Work.memory) site X⟩

/-- Fits a node on data of any form. -/
def fit (env : Surroundings) (n : Node) (X y : Data) : Work Unit := do
  let frame ← X.toFrame
  let target ← y.toSeries
  n.plan.fit env n.site frame target

/-- Cross-validates copies of a node; the node itself stays as it is. -/
def crossValidate (env : Surroundings) (n : Node) (request : ValidatorRequest) (X y : Data) :
    Work ValidationResult := do
  let v ← Validator.create env request
  let (_, outcome) ← v.run (n.trainable env) X y .null .fresh
  outcome

end Node
end ColumnFlow
