import ColumnFlow.Learn.Tree.Classifier

/-!
Forests: many trees, each grown on rows that are drawn anew from all rows. The answer is the mean of
the answers of the trees. Seeds for the trees are drawn first; a tree draws its rows, and then the
order of features, from its own seed.
-/
namespace ColumnFlow.Learn.Forest
open Draw

def parameters (criteria : List String) : List Parameter :=
  Tree.growthParameters criteria ++ [.count "n_estimators" 1, .flag "bootstrap", .flag "oob_score",
    .jobs, .verbose, .flag "warm_start",
    ⟨"max_samples", [.null, .share (.aboveUpTo 0.0 1.0), .atLeast 1]⟩]

/-- Half-way cases go to the even neighbor. -/
def rounded (x : Float) : Nat :=
  let low := x.floor
  let rest := x - low
  let n := low.toUInt64.toNat
  if rest < 0.5 || (rest == 0.5 && n % 2 = 0) then n else n + 1

/-- How many rows every tree draws, unless it grows on all of them. -/
def drawCount (o : Options) (rows : Nat) : Except Failure (Option Nat) := do
  let asked := o.getD "max_samples" .null
  if Parameters.flag o "bootstrap" true then
    match asked with
    | .scalar (.float x) => return some (max 1 (rounded (Float.ofNat rows * x)))
    | v =>
      let count := ((Domain.whole? v).map Int.toNat).getD rows
      if rows < count then throw (.unusable .value)
      return some count
  else if !asked.isNull || Parameters.flag o "oob_score" false then throw (.unusable .value)
  else return none

def seeds : Nat → Twister → List Nat
  | 0, _ => []
  | count + 1, t =>
    let (seed, t) := t.upTo 2147483646
    seed :: seeds count t

/-- How often every row has been drawn. -/
def multiplicities (rows : Nat) (drawn : List Nat) : Array Float :=
  drawn.foldl (fun acc i => acc.modify i (· + 1.0)) (Array.replicate rows 0.0)

/-- How much the rows of every class count among the rows that have been drawn. -/
def balancedIn (t : Target) (drawn : List Nat) : Array Float :=
  let codes := t.codes.toArray
  let counts := t.tally (drawn.map fun i => codes.getD i 0)
  let present := Float.ofNat (counts.filter (0 < ·)).size
  counts.map fun n =>
    if n = 0 then 0.0 else Float.ofNat drawn.length / (present * Float.ofNat n)

/-- What a forest learns from, and how. -/
structure Ground where
  limits : Float → Except Failure Tree.Limits
  rows : Rows
  width : Nat
  targets : Array (Array Float)
  drawCount : Option Nat
  /-- The weights of the rows, given those that have been drawn. -/
  weights : List Nat → Array Float
  /-- Whether targets are needed one by one. -/
  hasMasses : Bool

/-- The tree of a seed. -/
def Ground.tree (g : Ground) (o : Options) (seed : Nat) : Except Failure Tree := do
  let count := g.rows.length
  let drawn := match g.drawCount with
    | some n => ((Twister.ofSeed seed).sample count n).1
    | none => List.range count
  let weights := Array.zipWith (· * ·) (multiplicities count drawn) (g.weights drawn)
  let samples := g.rows.zipIdx.map fun p =>
    let weight := weights.getD p.2 0.0
    let target := g.targets.getD p.2 #[]
    (⟨p.1, weight, target, if g.hasMasses then [⟨target.getD 0 0.0, weight⟩] else []⟩ : Sample)
  let limits ← g.limits (weights.foldl (· + ·) 0.0)
  let size := (g.targets.getD 0 #[]).size
  return Tree.cutBack o (Tree.ofSamples limits g.width size (Tree.seedOf seed) samples)

def Ground.grow (g : Ground) (o : Options) : Except Failure (List Tree) :=
  (seeds (Parameters.count o "n_estimators" 100)
    (Twister.ofSeed (Parameters.count o "random_state" 0))).mapM (g.tree o)

/-- The mean answer of some trees. -/
def meanAnswer (trees : List Tree) (size : Nat) (row : Array Float) : Array Float :=
  let sums := trees.foldl (fun acc t => Array.zipWith (· + ·) acc (t.answer row))
    (Array.replicate size 0.0)
  sums.map (· / Float.ofNat trees.length)

def classifier : LearningMethod where
  parameters := parameters Tree.classCriteria ++
    [⟨"class_weight", [.text ["balanced", "balanced_subsample"], .table, .list, .null]⟩]
  learn o X y := do
    let missing := Tree.takesMissing o
    let rows ← Tree.coarseRows missing X
    let t ← Target.ofClasses y
    let asked := o.getD "class_weight" .null
    let classWeights ← t.classWeights asked
    let count ← drawCount o rows.length
    let ofRows (weights : Array Float) : Array Float :=
      (t.codes.map fun c => weights.getD c 1.0).toArray
    let bySample := match asked, count with
      | .scalar (.text "balanced_subsample"), some _ => true
      | _, _ => false
    let width := X.columns.length
    let limits (weight : Float) : Except Failure Tree.Limits := do
      let limits ← Tree.limitsOf o "gini" (.text "sqrt") rows.length width weight
      return { limits with trends := ← Tree.classTrends t limits.trends }
    let ground : Ground := ⟨limits, rows, width, (t.codes.map t.oneHot).toArray, count,
      fun drawn => ofRows (if bySample then balancedIn t drawn else classWeights), false⟩
    let trees ← ground.grow o
    return Tree.classModel t missing (meanAnswer trees t.classes.size)

/-- Counts are not negative, and not all zero. -/
def checkTargets (c : Criterion) (targets : List Float) : Except Failure Unit :=
  match c with
  | .counts =>
    if targets.any (· < 0.0) || Numbers.sum targets ≤ 0.0 then .error (.unusable .value) else .ok ()
  | _ => .ok ()

def regressor : LearningMethod where
  parameters :=
    parameters ["squared_error", "friedman_mse", "absolute_error", "poisson"]
  learn o X y := do
    let missing := Tree.takesMissing o
    let rows ← Tree.coarseRows missing X
    let targets ← quantitiesOf y
    let criterion := Tree.criterionOf (Parameters.choice o "criterion" "squared_error")
    checkTargets criterion targets
    let width := X.columns.length
    let limits := Tree.limitsOf o "squared_error" (.float 1.0) rows.length width
    let ground : Ground := ⟨limits, rows, width, (targets.map fun x => #[x]).toArray,
      ← drawCount o rows.length, fun _ => Array.replicate rows.length 1.0, criterion.needsMasses⟩
    let trees ← ground.grow o
    return ⟨fun X => do
      return answers ((← Tree.coarseRows missing X).map fun row =>
        (meanAnswer trees 1 row).getD 0 0.0), none⟩

end ColumnFlow.Learn.Forest
