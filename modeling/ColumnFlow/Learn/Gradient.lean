import ColumnFlow.Learn.Boosting
import ColumnFlow.Split.Holdout

/-!
Gradient boosting. Every row has scores: one for each class, or a single one where there are two
classes. A stage grows trees on what pulls the scores towards the classes, and moves the scores of
the rows in a leaf together, by a part of the step that would be best for them. Rows may be held out
to see when further stages no longer help.
-/
namespace ColumnFlow.Learn.Gradient
open Draw

/-- A quotient, or zero where there is next to nothing to divide by. -/
def safely (a b : Float) : Float := if b.abs < 1e-150 then 0.0 else a / b

/-- The step of the scores that is best for rows with some aims and pulls. -/
def bestStep (l : Loss) (rows : List (Float × Float)) : Float :=
  let pull := Numbers.mean (rows.map (·.2))
  let spread := Numbers.mean (rows.map fun p => (p.1 - p.2) * (1.0 - (p.1 - p.2)))
  match l with
  | .logistic => safely pull spread
  | .exponential => safely pull (Numbers.mean (rows.map fun p => if p.1 == 0.0 then -p.2 else p.2))
  | .shared classes =>
    safely (pull * (Float.ofNat (classes - 1) / Float.ofNat classes)) spread

/-- The class that scores speak for. -/
def choiceOf (l : Loss) (scores : Array Float) : Nat :=
  match l with
  | .shared _ => greatestAt scores.toList
  | _ => if scores.getD 0 0.0 ≥ 0.0 then 1 else 0

/-- A row with its class and its scores so far. -/
structure Member where
  row : Array Float
  code : Nat
  scores : Array Float
  /-- Whether the present stage learns from it. -/
  isChosen : Bool

/-- Adds a part of the answer of a tree to one of the scores. -/
def raised (rate : Float) (place : Nat) (tree : Tree) (row scores : Array Float) : Array Float :=
  scores.modify place (· + rate * (tree.answer row).getD 0 0.0)

/-- The scores of a row after a stage. -/
def advanced (rate : Float) (row scores : Array Float) (trees : List Tree) : Array Float :=
  trees.zipIdx.foldl (fun scores p => raised rate p.2 p.1 row scores) scores

/-- What boosting learns with. -/
structure Ground where
  loss : Loss
  rate : Float
  /-- How many rows every stage learns from. -/
  count : Nat
  limits : Tree.Limits
  width : Nat
  options : Options

namespace Ground

/-- Chooses rows so that exactly `count` of them are taken, each with the same chance. -/
def choose (count : Nat) : List Member → Twister → List Member × Twister
  | [], t => ([], t)
  | m :: rest, t =>
    let (x, t) := t.unit
    let isChosen := x * Float.ofNat (rest.length + 1) < Float.ofNat count
    let (rest, t) := choose (if isChosen then count - 1 else count) rest t
    ({ m with isChosen } :: rest, t)

def chosen (g : Ground) (members : List Member) (t : Twister) : List Member × Twister :=
  if g.count < members.length then choose g.count members t else (members, t)

/-- A tree for one of the scores, with the best step in every leaf. -/
def tree (g : Ground) (place seed : Nat) (rows : List (Member × Array Float)) : Tree :=
  let samples := rows.map fun p =>
    Sample.plain p.1.row (if p.1.isChosen then 1.0 else 0.0) #[p.2.getD place 0.0]
  let grown := Tree.cutBack g.options (Tree.ofSamples g.limits g.width 1 seed samples)
  grown.refit (fun p => p.1.row)
    (fun items => #[bestStep g.loss (items.map fun p =>
      (g.loss.aim place p.1.code, p.2.getD place 0.0))])
    (rows.filter fun p => p.1.isChosen)

/-- The trees for some scores, one after the other. -/
def trees (g : Ground) (rows : List (Member × Array Float)) : List Nat → Twister →
    List Tree × Twister
  | [], t => ([], t)
  | place :: places, t =>
    let (seed, t) := t.upTo 2147483646
    let (rest, t) := trees g rows places t
    (g.tree place seed rows :: rest, t)

/-- One stage: its trees, and the rows with their new scores. -/
def stage (g : Ground) (members : List Member) (t : Twister) :
    List Tree × List Member × Twister :=
  let (members, t) := g.chosen members t
  let rows := members.map fun m => (m, g.loss.pulls m.code m.scores)
  let (trees, t) := g.trees rows (List.range g.loss.width) t
  (trees, members.map fun m => { m with scores := advanced g.rate m.row m.scores trees }, t)

end Ground

/-- Rows held out, and the costs that a stage must stay below at least once. -/
structure Watch where
  members : List Member
  costs : Array Float
  tolerance : Float

/-- What is seen after a stage, or nothing if no more stages should follow. -/
def Watch.after (w : Watch) (g : Ground) (number : Nat) (trees : List Tree) : Option Watch :=
  if w.costs.isEmpty then some w
  else
    let members := w.members.map fun m =>
      { m with scores := advanced g.rate m.row m.scores trees }
    let scale := match g.loss with
      | .logistic => 2.0
      | _ => 1.0
    let cost := scale * Numbers.mean (members.map fun m => g.loss.cost m.code m.scores)
    if w.costs.any (cost + w.tolerance < ·) then
      some { w with members, costs := w.costs.setIfInBounds (number % w.costs.size) cost }
    else none

/-- At most so many stages. -/
def stages (g : Ground) : Nat → Nat → List Member → Watch → Twister → List (List Tree)
  | 0, _, _, _, _ => []
  | count + 1, number, members, watch, t =>
    let (trees, members, t) := g.stage members t
    trees :: match watch.after g number trees with
      | some watch => stages g count (number + 1) members watch t
      | none => []

def parameters : List Parameter := [.choice "loss" ["log_loss", "exponential"],
  .number "learning_rate" (.atLeast 0.0), .count "n_estimators" 1,
  .number "subsample" (.aboveUpTo 0.0 1.0), .choice "criterion" ["friedman_mse", "squared_error"],
  ⟨"min_samples_split", [.atLeast 2, .share (.aboveUpTo 0.0 1.0)]⟩,
  ⟨"min_samples_leaf", [.atLeast 1, .share (.between 0.0 1.0)]⟩,
  .number "min_weight_fraction_leaf" (.closed 0.0 0.5), .count? "max_depth" 1,
  .number "min_impurity_decrease" (.atLeast 0.0), ⟨"init", [.text ["zero"], .null]⟩,
  .randomState,
  ⟨"max_features", [.atLeast 1, .share (.aboveUpTo 0.0 1.0), .text ["sqrt", "log2"], .null]⟩,
  .verbose, .count? "max_leaf_nodes" 2, .flag "warm_start",
  .number "validation_fraction" (.between 0.0 1.0), .count? "n_iter_no_change" 1,
  .number "tol" (.atLeast 0.0), .number "ccp_alpha" (.atLeast 0.0)]

/-- The loss that is asked for; the exponential one is for two classes. -/
def lossOf (o : Options) (classes : Nat) : Except Failure Loss :=
  if classes < 2 then .error (.unusable .value)
  else if Parameters.choice o "loss" "log_loss" == "exponential" then
    if 2 < classes then .error (.unusable .value) else .ok .exponential
  else if 2 < classes then .ok (.shared classes)
  else .ok .logistic

/-- Positions to learn from and to watch. All classes must be among those to learn from. -/
def division (o : Options) (y : Series) (t : Target) : Except Failure Holdout := do
  let rows := t.codes.length
  if (Parameters.count? o "n_iter_no_change").isNone then return ⟨List.range rows, []⟩
  let seed := (o.getD "random_state" .null).unlessNull (.int 0)
  let split ← Holdout.split rows (o.getD "validation_fraction" (.float 0.1)) (some seed) (some y)
  if (t.tally (pick split.train t.codes)).contains 0 then throw (.unusable .value)
  return split

def boosting : LearningMethod where
  parameters := parameters
  learn o X y := do
    let rows ← Tree.coarseRows false X
    let t ← Target.ofClasses y
    let loss ← lossOf o t.classes.size
    let split ← division o y t
    let start := match o.getD "init" .null with
      | .scalar (.text _) => Array.replicate loss.width 0.0
      | _ => loss.scoresOf (t.tallyShares (pick split.train t.codes))
    let members (positions : List Nat) : List Member :=
      (pick positions (rows.zip t.codes)).map fun p => ⟨p.1, p.2, start, true⟩
    let learning := members split.train
    let rate := Parameters.number o "learning_rate" 0.1
    let rowCount := learning.length
    let share := Parameters.number o "subsample" 1.0
    let count := if share < 1.0 then max 1 (share * Float.ofNat rowCount).toUInt64.toNat
      else rowCount
    let width := X.columns.length
    let limits ← Tree.limitsOf o "friedman_mse" .null rowCount width (Float.ofNat count)
    let ground : Ground := ⟨loss, rate, count, limits, width, o⟩
    let patience := (Parameters.count? o "n_iter_no_change").getD 0
    let watch : Watch := ⟨members split.test, Array.replicate patience (1.0 / 0.0),
      Parameters.number o "tol" 0.0001⟩
    let found := stages ground (Parameters.count o "n_estimators" 100) 0 learning watch
      (.ofSeed (Parameters.count o "random_state" 0))
    let scores (X : Frame) : Except Failure (List (Array Float)) := do
      return (← Tree.coarseRows false X).map fun row =>
        found.foldl (fun scores trees => advanced rate row scores trees) start
    return ⟨fun X => do return t.column ((← scores X).map (choiceOf loss)),
      some fun X => do return t.shares X ((← scores X).map loss.shares)⟩

end ColumnFlow.Learn.Gradient
