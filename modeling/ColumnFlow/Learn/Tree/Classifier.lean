import ColumnFlow.Draw.Choice
import ColumnFlow.Learn.Method
import ColumnFlow.Learn.Tree.Growth

/-!
Learning a decision tree. Its limits are parameters: numbers of rows may be given as shares of all
rows. Trees read numbers in single precision. A leaf answers with the shares of its classes.
-/
namespace ColumnFlow.Learn.Tree
open Draw

/-- The parameters of growth, whatever is learned. -/
def growthParameters (criteria : List String) : List Parameter := [
  .choice "criterion" criteria, .count? "max_depth" 1,
  ⟨"min_samples_split", [.atLeast 2, .share (.aboveUpTo 0.0 1.0)]⟩,
  ⟨"min_samples_leaf", [.atLeast 1, .share (.between 0.0 1.0)]⟩,
  .number "min_weight_fraction_leaf" (.closed 0.0 0.5),
  ⟨"max_features", [.atLeast 1, .share (.aboveUpTo 0.0 1.0), .text ["sqrt", "log2"], .null]⟩,
  .randomState, .count? "max_leaf_nodes" 2, .number "min_impurity_decrease" (.atLeast 0.0),
  .number "ccp_alpha" (.atLeast 0.0), ⟨"monotonic_cst", [.items, .null]⟩]

def classCriteria : List String := ["gini", "entropy", "log_loss"]

def criterionOf : String → Criterion
  | "entropy" | "log_loss" => .entropy
  | "squared_error" => .squaredError
  | "friedman_mse" => .meanDistance
  | "absolute_error" => .medianDistance
  | "poisson" => .counts
  | _ => .gini

/-- A number of rows, or a share of all rows. -/
def rowLimit (o : Options) (name : String) (least rows : Nat) : Nat :=
  match o.getD name (.nat least) with
  | .scalar (.float x) => max least (x * Float.ofNat rows).ceil.toUInt64.toNat
  | v => ((Domain.whole? v).map Int.toNat).getD least

/-- How many features are tried at every node. -/
def featureLimit (o : Options) (default : Value) (width : Nat) : Nat :=
  match o.getD "max_features" default with
  | .scalar (.float x) => max 1 (x * Float.ofNat width).toUInt64.toNat
  | .scalar (.text "sqrt") => max 1 (Float.ofNat width).sqrt.toUInt64.toNat
  | .scalar (.text _) => max 1 (Nat.log2 width)
  | v => ((Domain.whole? v).map Int.toNat).getD width

/-- One trend for every feature: rising, falling or none. -/
def trendsOf (o : Options) (width : Nat) : Except Failure (List Int) := do
  match o.getD "monotonic_cst" .null with
  | .list items | .tuple items =>
    if items.length ≠ width then throw (.unusable .value)
    items.mapM fun v =>
      match v.number? with
      | some x =>
        if x == 1.0 then .ok 1
        else if x == -1.0 then .ok (-1)
        else if x == 0.0 then .ok 0
        else .error (.unusable .value)
      | none => .error (.unusable .value)
  | .dict _ => throw (.unusable .index)
  | _ => return []

/-- Whether rows may lack features: not where trends are asked for. -/
def takesMissing (o : Options) : Bool := (o.getD "monotonic_cst" .null).isNull

/-- The limits that are asked for, for so many rows and features of a total weight. -/
def limitsOf (o : Options) (criterion : String) (features : Value) (rows width : Nat)
    (weight : Float) : Except Failure Limits := do
  let rowsInLeaf := rowLimit o "min_samples_leaf" 1 rows
  return {
    criterion := criterionOf (Parameters.choice o "criterion" criterion)
    isRandom := Parameters.choice o "splitter" "best" == "random"
    depth := Parameters.count? o "max_depth"
    rowsToSplit := max (rowLimit o "min_samples_split" 2 rows) (2 * rowsInLeaf)
    rowsInLeaf
    weightInLeaf := Parameters.number o "min_weight_fraction_leaf" 0.0 * weight
    features := featureLimit o features width
    leaves := Parameters.count? o "max_leaf_nodes"
    improvement := Parameters.number o "min_impurity_decrease" 0.0
    trends := ← trendsOf o width }

/-- Cuts back a tree if a penalty on leaves is asked for. -/
def cutBack (o : Options) (t : Tree) : Tree :=
  let penalty := Parameters.number o "ccp_alpha" 0.0
  if penalty == 0.0 then t else t.pruned penalty

/-- A seed for the order of features, drawn from the seed that is asked for. Without one any order
will do. -/
def seedOf (seed : Nat) : Nat := ((Twister.ofSeed seed).upTo 2147483646).1

/-- Rows in single precision, in which all numbers must be finite. -/
def coarseRows (missing : Bool) (X : Frame) : Except Failure Rows := do
  let rows := (← rowsOf missing X).map fun row => row.map fun x => x.toFloat32.toFloat
  if rows.any fun row => row.any Float.isInf then throw (.unusable .value)
  return rows

/-- A model that answers with shares of classes, for rows in single precision. -/
def classModel (t : Target) (missing : Bool) (shares : Array Float → Array Float) : Model :=
  let rowShares (X : Frame) : Except Failure (List (Array Float)) := do
    return (← coarseRows missing X).map shares
  ⟨fun X => do return t.column ((← rowShares X).map fun row => greatestAt row.toList),
    some fun X => do return t.shares X (← rowShares X)⟩

/-- The trends of the first class, which are contrary to those of the second. -/
def classTrends (t : Target) (trends : List Int) : Except Failure (List Int) :=
  if trends.isEmpty then .ok []
  else if 2 < t.classes.size then .error (.unusable .value)
  else .ok (trends.map (-·))

def classifier : LearningMethod where
  parameters := growthParameters classCriteria ++ [.choice "splitter" ["best", "random"],
    ⟨"class_weight", [.table, .list, .text ["balanced"], .null]⟩]
  learn o X y := do
    let rows ← coarseRows (takesMissing o) X
    let t ← Target.ofClasses y
    let weights ← t.classWeights (o.getD "class_weight" .null)
    let samples := (rows.zip t.codes).map fun p =>
      Sample.plain p.1 (weights.getD p.2 1.0) (t.oneHot p.2)
    let weight := Numbers.sum (samples.map (·.weight))
    let width := X.columns.length
    let limits ← limitsOf o "gini" .null rows.length width weight
    let limits := { limits with trends := ← classTrends t limits.trends }
    let seed := seedOf (Parameters.count o "random_state" 0)
    let tree := cutBack o (Tree.ofSamples limits width t.classes.size seed samples)
    return classModel t (takesMissing o) fun row => tree.answer row

end ColumnFlow.Learn.Tree
