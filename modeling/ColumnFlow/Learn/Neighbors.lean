import ColumnFlow.Learn.Method
import ColumnFlow.Numbers.Axes
import ColumnFlow.Numbers.Shortlist

/-!
Learning from the nearest rows, which are put on a shortlist one by one. The nearest rows vote for
a class, the smaller class winning a tie, or their targets are averaged. Either all of them count
the same, or by the inverse of their distance; rows at no distance then outweigh all others.
-/
namespace ColumnFlow.Learn.Neighbors

/-- How far two rows are apart. -/
inductive Metric where
  /-- The root of the sum of powers. -/
  | power (p : Float)
  /-- The same, where features count with weights. -/
  | weighted (p : Float) (weights : Array Float)
  | euclidean
  | squares
  | manhattan
  | greatest
  /-- The differences measured against the numbers, one by one. -/
  | canberra
  /-- The differences measured against the sums, all at once. -/
  | brayCurtis
  /-- The share of numbers that differ. -/
  | hamming
  | cosine

namespace Metric

def sumOf (f : Float → Float → Float) (a b : Array Float) : Float :=
  (Array.zipWith f a b).foldl (· + ·) 0.0

def orZero (x : Float) : Float := if x.isNaN then 0.0 else x

def apart (m : Metric) (a b : Array Float) : Float :=
  let difference (x y : Float) : Float := (x - y).abs
  match m with
  | .power p => (sumOf (fun x y => (difference x y).pow p) a b).pow (1.0 / p)
  | .weighted p weights =>
    let powers := Array.zipWith (fun x y => (difference x y).pow p) a b
    (Numbers.dot weights powers).pow (1.0 / p)
  | .euclidean => (distance a b).sqrt
  | .squares => distance a b
  | .manhattan => sumOf difference a b
  | .greatest => (Array.zipWith difference a b).foldl max 0.0
  | .canberra => sumOf (fun x y => orZero (difference x y / (x.abs + y.abs))) a b
  | .brayCurtis => orZero (sumOf difference a b / sumOf (fun x y => (x + y).abs) a b)
  | .hamming => sumOf (fun x y => if x == y then 0.0 else 1.0) a b / Float.ofNat a.size
  | .cosine =>
    let lengths := (Numbers.dot a a).sqrt * (Numbers.dot b b).sqrt
    if lengths == 0.0 then 1.0 else max 0.0 (1.0 - Numbers.dot a b / lengths)

/-- The metrics that search trees know. -/
def treeNames : List String :=
  ["euclidean", "l2", "minkowski", "p", "manhattan", "cityblock", "l1", "chebyshev", "infinity"]

/-- The metrics that search trees of another kind know as well. -/
def ballNames : List String := ["hamming", "canberra", "braycurtis"]

/-- The metrics that only a search through all rows knows. -/
def directNames : List String := ["sqeuclidean", "cosine"]

def names : List String := treeNames ++ ballNames ++ directNames

/-- The power of differences that is asked for: one, two and the infinite one have metrics of their
own. -/
def ofPower (v : Value) : Except Failure Metric := do
  let p ← Parameters.numberIn v
  if p == 1.0 then return .manhattan
  else if p == 2.0 then return .euclidean
  else if p.isInf then return .greatest
  else return .power p

/-- Parameters of the metric alone. -/
def ownParameters (o : Options) : Options :=
  match o.getD "metric_params" .null with
  | .dict entries => entries
  | _ => []

/-- Weights of features, none of them negative. -/
def weightsOf (v : Value) : Except Failure (Array Float) := do
  let weights ← (Grid.leaves v).mapM Numbers.ofCell
  if weights.any (· < 0.0) then throw (.unusable .value)
  return weights.toArray

def read (o : Options) : Except Failure Metric :=
  match Parameters.choice o "metric" "minkowski" with
  | "minkowski" | "p" => do
    let own := ownParameters o
    let isPlain := Parameters.choice o "metric" "minkowski" == "p"
    let p := own.getD "p" (if isPlain then .int 2 else o.getD "p" (.int 2))
    match own.getD "w" .null with
    | .scalar .null => ofPower p
    | w => return .weighted (← Parameters.numberIn p) (← weightsOf w)
  | "euclidean" | "l2" => .ok .euclidean
  | "manhattan" | "cityblock" | "l1" => .ok .manhattan
  | "chebyshev" | "infinity" => .ok .greatest
  | "sqeuclidean" => .ok .squares
  | "canberra" => .ok .canberra
  | "braycurtis" => .ok .brayCurtis
  | "hamming" => .ok .hamming
  | _ => .ok .cosine

def power? : Metric → Option Float
  | .power p | .weighted p _ => some p
  | _ => none

def isWeighted : Metric → Bool
  | .weighted .. => true
  | _ => false

/-- Whether a search goes through all rows rather than through a tree: where that is asked for,
where no tree is asked for and there are many features or many neighbors, and where no tree knows
the metric. -/
def isDirect (o : Options) (m : Metric) (rows : Rows) (count : Option Nat) : Bool :=
  match Parameters.choice o "algorithm" "auto" with
  | "brute" => true
  | "auto" =>
    15 < (rows.headD #[]).size || count.any (rows.length / 2 ≤ ·) || m.power?.any (· < 1.0)
      || directNames.contains (Parameters.choice o "metric" "minkowski")
  | _ => false

/-- Whether a search tree that is asked for knows the metric. A power below one is none that trees
can use, and weights are only known to one kind of them. -/
def checkSearch (o : Options) (m : Metric) : Except Failure Unit :=
  let name := Parameters.choice o "metric" "minkowski"
  let isKnown := match Parameters.choice o "algorithm" "auto" with
    | "kd_tree" => treeNames.contains name && !m.isWeighted
    | "ball_tree" => treeNames.contains name || ballNames.contains name
    | "brute" => name != "p" && name != "infinity"
    | _ => true
  let isUsable := match Parameters.choice o "algorithm" "auto" with
    | "kd_tree" | "ball_tree" => m.power?.all (1.0 ≤ ·)
    | _ => true
  if isKnown && isUsable then .ok () else .error (.unusable .value)

/-- There must be a weight for every feature. -/
def checkWeights (m : Metric) (width : Nat) : Except Failure Unit :=
  match m with
  | .weighted _ weights => if weights.size = width then .ok () else .error (.unusable .value)
  | _ => .ok ()

/-- A tree knows no other parameters of a metric than the power and the weights. -/
def checkTree (o : Options) (m : Metric) (width : Nat) : Except Failure Unit := do
  let isKnown := (ownParameters o).all fun e => match e.1 with
    | .text s => s == "p" || s == "w"
    | _ => false
  if !isKnown then throw (.unusable .type)
  m.checkWeights width

end Metric

/-- What is known: how far rows are apart, the rows, how many neighbors are asked for, and whether
the near ones count more. -/
structure Memory where
  metric : Metric
  rows : Rows
  neighbors : Option Nat
  isByDistance : Bool

namespace Memory

def learn (o : Options) (rows : Rows) : Except Failure Memory := do
  let metric ← Metric.read o
  Metric.checkSearch o metric
  let count := match o.get? "n_neighbors" with
    | none => some 5
    | some _ => Parameters.count? o "n_neighbors"
  if !metric.isDirect o rows count then metric.checkTree o (rows.headD #[]).size
  return ⟨metric, rows, count, Parameters.choice o "weights" "uniform" == "distance"⟩

/-- The positions of the nearest rows, each with its distance. -/
def nearest (m : Memory) (count : Nat) (row : Array Float) : List (Nat × Float) :=
  (m.rows.zipIdx.foldl (fun (s : Numbers.Shortlist) p => s.add (p.2, m.metric.apart p.1 row))
    (.empty count)).toList

/-- The positions of the nearest rows, each with how much it counts. -/
def weighted (m : Memory) (count : Nat) (row : Array Float) : List (Nat × Float) :=
  let near := m.nearest count row
  if !m.isByDistance then near.map fun p => (p.1, 1.0)
  else
    let inverse := near.map fun p => (p.1, 1.0 / p.2)
    if inverse.any fun p => p.2.isInf then
      inverse.map fun p => (p.1, if p.2.isInf then 1.0 else 0.0)
    else inverse

/-- Rows to be answered, with their neighbors. As many rows as asked for must be known. -/
def around (m : Memory) (X : Frame) : Except Failure (List (List (Nat × Float))) := do
  let rows ← rowsOf false X
  match m.neighbors with
  | none => throw (.unusable .type)
  | some count =>
    if m.rows.length < count then throw (.unusable .value)
    m.metric.checkWeights (rows.headD #[]).size
    return rows.map (m.weighted count)

end Memory

def parameters : List Parameter := [.count? "n_neighbors" 1,
  ⟨"weights", [.text ["uniform", "distance"], .null]⟩,
  .choice "algorithm" ["auto", "ball_tree", "kd_tree", "brute"], .count "leaf_size" 1,
  ⟨"p", [.number (.aboveUpTo 0.0 Range.infinite), .null]⟩, .choice "metric" Metric.names,
  ⟨"metric_params", [.table, .null]⟩, .jobs]

/-- The share of every class among some neighbors. -/
def votes (t : Target) (near : List (Nat × Float)) : Array Float :=
  let codes := t.codes.toArray
  let sums := near.foldl (fun (acc : Array Float) p => acc.modify (codes.getD p.1 0) (· + p.2))
    (Array.replicate t.classes.size 0.0)
  let total := sums.foldl (· + ·) 0.0
  sums.map (· / if total == 0.0 then 1.0 else total)

def classifier : LearningMethod where
  parameters := parameters
  learn o X y := do
    let rows ← rowsOf false X
    let t ← Target.ofClasses y
    let memory ← Memory.learn o rows
    let shares (X : Frame) : Except Failure (List (Array Float)) := do
      return (← memory.around X).map (votes t)
    return ⟨fun X => do return t.column ((← shares X).map fun row => greatestAt row.toList),
      some fun X => do return t.shares X (← shares X)⟩

/-- The mean of the targets of some neighbors, all of which must be numbers. -/
def weightedMean (targets : Array Value) (near : List (Nat × Float)) : Except Failure Float := do
  let terms ← near.mapM fun p => do
    return (← Parameters.numberIn (targets.getD p.1 .null)) * p.2
  return Numbers.sum terms / Numbers.sum (near.map (·.2))

/-- Targets that are known: no number among them is missing or infinite. -/
def knownTargets (y : Series) : Except Failure (Array Value) :=
  let isUnknown (v : Value) : Bool := v.number?.any fun x => x.isNaN || x.isInf
  if y.cells.any isUnknown then .error (.unusable .value) else .ok y.cells.toArray

/-- Means of objects are objects, unless they are weighted. -/
def meansOf (y : Series) (isByDistance : Bool) (means : List Float) : Column :=
  match y.dtype with
  | .object => if isByDistance then answers means else ⟨.null, .object, means.map .float⟩
  | _ => answers means

def regressor : LearningMethod where
  parameters := parameters
  learn o X y := do
    let rows ← rowsOf false X
    let targets ← knownTargets y
    let memory ← Memory.learn o rows
    let means (X : Frame) : Except Failure (List Float) := do
      (← memory.around X).mapM (weightedMean targets)
    return ⟨fun X => do return meansOf y memory.isByDistance (← means X), none⟩

end ColumnFlow.Learn.Neighbors
