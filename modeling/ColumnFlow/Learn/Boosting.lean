import ColumnFlow.Learn.Forest
import ColumnFlow.Learn.Loss

/-!
Boosting: one small tree after the other, where rows that have been answered wrongly count more for
the next tree. Trees vote with weights that grow with their success. There are no more trees once
one is without error, or no better than chance.
-/
namespace ColumnFlow.Learn.Boosting
open Draw

/-- A tree with the weight of its vote. -/
structure Voter where
  tree : Tree
  weight : Float

def Voter.choice (v : Voter) (row : Array Float) : Nat := greatestAt (v.tree.answer row).toList

/-- What boosting learns from. -/
structure Ground where
  rows : Rows
  target : Target
  width : Nat
  rate : Float

namespace Ground

/-- A tree of one question. -/
def stump (g : Ground) (weights : List Float) (seed : Nat) : Tree :=
  let samples := (g.rows.zip (g.target.codes.zip weights)).map fun p =>
    Sample.plain p.1 p.2.2 (g.target.oneHot p.2.1)
  let limits : Tree.Limits := {
    criterion := .gini, isRandom := false, depth := some 1, rowsToSplit := 2, rowsInLeaf := 1,
    weightInLeaf := 0.0, features := g.width, leaves := none, improvement := 0.0, trends := [] }
  Tree.ofSamples limits g.width g.target.classes.size (Tree.seedOf seed) samples

def epsilon : Float := 2.220446049250313e-16

/-- The trees from some weights on. The first one must be better than chance. -/
def voters (g : Ground) : Nat → List Float → Twister → List Voter
  | 0, _, _ => []
  | count + 1, weights, t =>
    let weights := weights.map fun w => if w < epsilon then epsilon else w
    let (seed, t) := t.upTo 2147483646
    let voter : Voter := ⟨g.stump weights seed, 1.0⟩
    let wrong := (g.rows.zip g.target.codes).map fun p => voter.choice p.1 != p.2
    let failed := (weights.zip wrong).foldl (fun acc p => if p.2 then acc + p.1 else acc) 0.0
    let error := failed / Numbers.sum weights
    let classes := Float.ofNat g.target.classes.size
    if error ≤ 0.0 then [voter]
    else if error ≥ 1.0 - 1.0 / classes then []
    else
      let weight := g.rate * (Float.log ((1.0 - error) / error) + Float.log (classes - 1.0))
      let grown := (weights.zip wrong).map fun p =>
        Float.exp (Float.log p.1 + if p.2 then weight else 0.0)
      let total := Numbers.sum grown
      { voter with weight } ::
        if total.isFinite && total > 0.0 then voters g count (grown.map (· / total)) t else []

end Ground

/-- How much speaks for every class. -/
def decision (voters : List Voter) (classes : Nat) (row : Array Float) : Array Float :=
  let others := Float.ofNat (classes - 1)
  let sums := voters.foldl (fun (acc : Array Float) v =>
    let choice := v.choice row
    acc.mapIdx fun c x => x + if c = choice then v.weight else -1.0 / others * v.weight)
    (Array.replicate classes 0.0)
  let total := Numbers.sum (voters.map (·.weight))
  sums.map (· / total)

/-- What speaks for the second of two classes, against the first. -/
def tilt (scores : Array Float) : Float := scores.getD 1 0.0 - scores.getD 0 0.0

def choiceOf (scores : Array Float) : Nat :=
  match scores.size with
  | 1 => 0
  | 2 => if tilt scores > 0.0 then 1 else 0
  | _ => greatestAt scores.toList

def sharesOf (scores : Array Float) : Array Float :=
  match scores.size with
  | 1 => #[1.0]
  | 2 => Loss.softened [-(tilt scores) / 2.0, tilt scores / 2.0]
  | n => Loss.softened (scores.toList.map (· / Float.ofNat (n - 1)))

def adaptive : LearningMethod where
  parameters := [⟨"estimator", [.null]⟩, .count "n_estimators" 1,
    .number "learning_rate" (.above 0.0), .randomState]
  learn o X y := do
    let rows ← Tree.coarseRows true X
    let t ← Target.ofClasses y
    let ground : Ground := ⟨rows, t, X.columns.length, Parameters.number o "learning_rate" 1.0⟩
    let start := List.replicate rows.length (1.0 / Float.ofNat rows.length)
    let voters := ground.voters (Parameters.count o "n_estimators" 50) start
      (Twister.ofSeed (Parameters.count o "random_state" 0))
    if voters.isEmpty then throw (.unusable .value)
    let scores (X : Frame) : Except Failure (List (Array Float)) := do
      return (← Tree.coarseRows true X).map (decision voters t.classes.size)
    return ⟨fun X => do return t.column ((← scores X).map choiceOf),
      some fun X => do return t.shares X ((← scores X).map sharesOf)⟩

end ColumnFlow.Learn.Boosting
