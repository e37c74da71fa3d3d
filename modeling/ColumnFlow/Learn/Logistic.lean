import ColumnFlow.Learn.Loss
import ColumnFlow.Learn.Method
import ColumnFlow.Numbers.Descent

/-!
Logistic models. Every score is linear in the features, and the scores stand for shares of the
classes. Slopes and constant terms are those of the least mean cost, plus a penalty on the squared
length of the slopes.
-/
namespace ColumnFlow.Learn.Logistic

/-- What a model is fitted to. Rows count with weights. -/
structure Ground where
  loss : Loss
  rows : List (Array Float × Nat × Float)
  width : Nat
  hasConstant : Bool
  /-- The penalty on slopes, and that on constant terms. -/
  penalty : Float
  constantPenalty : Float

namespace Ground

/-- The numbers of one score: its slopes, and last its constant term. -/
def block (g : Ground) (weights : Array Float) (place : Nat) : Array Float :=
  weights.extract (place * (g.width + 1)) ((place + 1) * (g.width + 1))

/-- The scores of a row. -/
def scores (g : Ground) (weights row : Array Float) : Array Float :=
  ((List.range g.loss.width).map fun place =>
    let block := g.block weights place
    Numbers.dot row (block.extract 0 g.width) + block.getD g.width 0.0).toArray

/-- A row with a number for the constant term. -/
def extended (g : Ground) (row : Array Float) : Array Float :=
  row.push (if g.hasConstant then 1.0 else 0.0)

/-- The penalty on every number of some weights. -/
def penalties (g : Ground) : Array Float :=
  ((List.range g.loss.width).flatMap fun _ =>
    List.replicate g.width g.penalty ++ [g.constantPenalty]).toArray

/-- The mean cost of some weights with its gradient. -/
def surface (g : Ground) : Numbers.Descent.Surface := fun weights =>
  let total := Numbers.sum (g.rows.map (·.2.2))
  let penalties := g.penalties
  let seen := g.rows.map fun (row, code, weight) =>
    let scores := g.scores weights row
    (row, weight, g.loss.cost code scores, g.loss.pulls code scores)
  let cost := Numbers.sum (seen.map fun (_, weight, cost, _) => weight * cost) / total
  let pull : Array Float := seen.foldl (fun acc (row, weight, _, pulls) =>
    let row := g.extended row
    Array.zipWith (· + ·) acc (pulls.flatMap fun p => row.map (· * (weight * p / total))))
    (Array.replicate weights.size 0.0)
  let squares := Array.zipWith (fun p w => p * w * w) penalties weights
  (cost + 0.5 * squares.foldl (· + ·) 0.0,
    Array.zipWith (· - ·) (Array.zipWith (· * ·) penalties weights) pull)

/-- The weights of the least cost. -/
def best (g : Ground) (tolerance : Float) (count : Nat) : Array Float :=
  Numbers.Descent.lowest g.surface tolerance count
    (Array.replicate (g.loss.width * (g.width + 1)) 0.0)

end Ground

def parameters : List Parameter := [
  ⟨"penalty", [.text ["l1", "l2", "elasticnet", "deprecated"], .null]⟩,
  .number "C" (.aboveUpTo 0.0 Range.infinite), ⟨"l1_ratio", [.number (.closed 0.0 1.0), .null]⟩,
  .flag "dual", .number "tol" (.atLeast 0.0), .flag "fit_intercept",
  .number "intercept_scaling" (.above 0.0), ⟨"class_weight", [.table, .text ["balanced"], .null]⟩,
  .randomState,
  .choice "solver" ["lbfgs", "liblinear", "newton-cg", "newton-cholesky", "sag", "saga"],
  .count "max_iter" 0, .verbose, .flag "warm_start", .jobs]

/-- The name of the penalty: it follows from the share of absolute values in it, unless it is
given. There is none where nothing is given and its strength is zero. -/
def penaltyOf (o : Options) : String :=
  let ratio := ((o.getD "l1_ratio" (.float 0.0)).number?).getD 0.0
  match o.getD "penalty" (.text "deprecated") with
  | .scalar (.text "deprecated") =>
    if (Parameters.number o "C" 1.0).isInf then "none"
    else if ratio == 0.0 then "l2"
    else if ratio == 1.0 then "l1"
    else "elasticnet"
  | .scalar (.text name) => name
  | _ => "none"

/-- Not every solver takes every penalty, two forms of the problem, or more than two classes. -/
def checkSolver (o : Options) (penalty : String) (classes : Nat) : Except Failure Unit :=
  let solver := Parameters.choice o "solver" "lbfgs"
  let isPlain := penalty == "l2" || penalty == "none"
  let isTaken :=
    if solver == "liblinear" then
      (isPlain || penalty == "l1") && penalty != "none" && classes == 2
        && !(Parameters.flag o "dual" false && penalty == "l1")
    else (isPlain || solver == "saga") && !Parameters.flag o "dual" false
  let isComplete := penalty != "elasticnet" || !(o.getD "l1_ratio" (.float 0.0)).isNull
  if isTaken && isComplete && 2 ≤ classes then .ok () else .error (.unusable .value)

def classifier : LearningMethod where
  parameters := parameters
  learn o X y := do
    let rows ← rowsOf false X
    let t ← Target.ofClasses y
    let classes := t.classes.size
    let penalty := penaltyOf o
    checkSolver o penalty classes
    let classWeights ← t.classWeights (o.getD "class_weight" .null)
    let weighted := (rows.zip t.codes).map fun p => (p.1, p.2, classWeights.getD p.2 1.0)
    let total := Numbers.sum (weighted.map (·.2.2))
    let strength := if penalty == "none" then 0.0
      else 1.0 / (Parameters.number o "C" 1.0 * total)
    let scaling := Parameters.number o "intercept_scaling" 1.0
    let ground : Ground := {
      loss := if classes = 2 then .logistic else .shared classes
      rows := weighted
      width := X.columns.length
      hasConstant := Parameters.flag o "fit_intercept" true
      penalty := strength
      constantPenalty := if Parameters.choice o "solver" "lbfgs" == "liblinear" then
        strength / (scaling * scaling) else 0.0 }
    let weights := ground.best (Parameters.number o "tol" 0.0001)
      (max 1 (Parameters.count o "max_iter" 100))
    let scores (X : Frame) : Except Failure (List (Array Float)) := do
      return (← rowsOf false X).map (ground.scores weights)
    let choice (scores : Array Float) : Nat :=
      if classes = 2 then (if scores.getD 0 0.0 > 0.0 then 1 else 0)
      else greatestAt scores.toList
    return ⟨fun X => do return t.column ((← scores X).map choice),
      some fun X => do return t.shares X ((← scores X).map ground.loss.shares)⟩

end ColumnFlow.Learn.Logistic
