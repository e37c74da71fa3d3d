import ColumnFlow.Learn.Method
import ColumnFlow.Numbers.Statistics

/-!
Naive Bayes with normal features. Every class has a share, which is that of its rows unless it is
given, and a mean and a variance of every feature. All variances are widened by a small part of the
largest variance of a feature.
-/
namespace ColumnFlow.Learn.Bayes

structure Normal where
  mean : Float
  variance : Float

structure Class where
  logShare : Float
  features : List Normal

def column (rows : Rows) (i : Nat) : List Float := rows.map fun row => row.getD i 0.0

/-- A class from its share and its rows. -/
def Class.learn (width : Nat) (widening share : Float) (rows : Rows) : Class :=
  ⟨Float.log share, (List.range width).map fun i =>
    ⟨Numbers.mean (column rows i), Numbers.variance (column rows i) + widening⟩⟩

/-- The logarithm of the density of a row in a class, times the share of the class. -/
def Class.score (c : Class) (row : Array Float) : Float :=
  let spread := Numbers.sum (c.features.map fun f => Float.log (2.0 * Numbers.pi * f.variance))
  let off := Numbers.sum (c.features.zipIdx.map fun p =>
    let d := row.getD p.2 0.0 - p.1.mean
    d * d / p.1.variance)
  c.logShare + (-0.5 * spread - 0.5 * off)

/-- Scores as shares of their exponentials. -/
def normalized (scores : List Float) : Array Float :=
  let top := Numbers.greatest scores
  let total := top + Float.log (Numbers.sum (scores.map fun s => Float.exp (s - top)))
  (scores.map fun s => Float.exp (s - total)).toArray

/-- Shares that are given: one for every class, none of them negative, and together one. -/
def checkShares (classes : Nat) (shares : List Float) : Except Failure (List Float) :=
  let isOne := (Numbers.sum shares - 1.0).abs ≤ 1e-8 + 1e-5
  if shares.length = classes && isOne && shares.all (· ≥ 0.0) then .ok shares
  else .error (.unusable .value)

/-- The shares of all classes. -/
def sharesOf (o : Options) (t : Target) : Except Failure (List Float) := do
  match o.getD "priors" .null with
  | .list items | .tuple items =>
    if items.length ≠ t.classes.size then throw (.unusable .value)
    checkShares t.classes.size (← items.mapM Parameters.numberIn)
  | .dict _ => throw (.unusable .type)
  | _ => return (t.tallyShares t.codes).toList

def gaussian : LearningMethod where
  parameters := [⟨"priors", [.items, .null]⟩, .number "var_smoothing" (.atLeast 0.0)]
  learn o X y := do
    let smoothing := Parameters.number o "var_smoothing" 1e-9
    let _ ← Target.ofKnown y
    let t ← Target.ofClasses y
    let rows ← rowsOf false X
    if Numbers.areMoments X then throw (.unusable .type)
    let width := X.columns.length
    let widening := smoothing
      * Numbers.greatest ((List.range width).map fun i => Numbers.variance (column rows i))
    let shares ← sharesOf o t
    let classes := ((Classes.members t.codes t.classes.size).zip shares).map fun p =>
      Class.learn width widening p.2 (pick p.1 rows)
    let scores (row : Array Float) : List Float := classes.map fun c => c.score row
    return ⟨fun X => do return t.column ((← rowsOf false X).map fun row => greatestAt (scores row)),
      some fun X => do
        return t.shares X ((← rowsOf false X).map fun row => normalized (scores row))⟩

end ColumnFlow.Learn.Bayes
