import ColumnFlow.Learn.Method
import ColumnFlow.Numbers.Axes

/-!
Linear models. Slopes minimize the squared error plus a penalty on their squared length; the
constant term is not penalized. They are found along the principal axes of the features. Slopes may
be kept from being negative, and rows may count with weights. A classifier fits one such model to
every class, with targets 1 and -1.
-/
namespace ColumnFlow.Learn.Linear

/-- A constant term and slopes. -/
structure Weights where
  constant : Float
  slopes : Array Float

def Weights.answer (w : Weights) (row : Array Float) : Float :=
  Numbers.dot row w.slopes + w.constant

def addScaled (acc : Array Float) (x : Float) (v : Array Float) : Array Float :=
  Array.zipWith (fun a b => a + x * b) acc v

namespace Slopes

/-- The slope along an axis: without a penalty, axes of almost no length have none. -/
def along (penalty longest : Float) (size : Nat) (targets : Array Float) (a : Numbers.Axis) :
    Float :=
  let square := a.length * a.length
  if penalty == 0.0 && a.length ≤ longest * 2.220446049250313e-16 * Float.ofNat size then 0.0
  else Numbers.dot a.shadow targets / (square + penalty)

/-- The slopes of the least penalized squared error. -/
def free (penalty : Float) (columns : List (List Float)) (targets : Array Float) : Array Float :=
  let axes := Numbers.axes columns
  let size := max columns.length targets.size
  let longest := (axes.map (·.length)).headD 0.0
  axes.foldl (fun acc a => addScaled acc (along penalty longest size targets a) a.direction)
    (Array.replicate columns.length 0.0)

/-- The slopes of some columns, and zero for the others. -/
def freeAmong (penalty : Float) (columns : List (List Float)) (targets : Array Float)
    (chosen : List Nat) : Array Float :=
  let slopes := free penalty (chosen.map fun i => columns.getD i []) targets
  (chosen.zip slopes.toList).foldl (fun acc p => acc.setIfInBounds p.1 p.2)
    (Array.replicate columns.length 0.0)

/-- How fast the error falls when each slope grows. -/
def descent (penalty : Float) (columns : List (List Float)) (targets slopes : Array Float) :
    List Float :=
  let rest := (columns.zip slopes.toList).foldl (fun acc p => addScaled acc (-p.2) p.1.toArray)
    targets
  columns.zipIdx.map fun p => Numbers.dot p.1.toArray rest - penalty * slopes.getD p.2 0.0

/-- Goes from slopes that are not negative towards the best ones of some columns, and leaves out the
columns whose slopes would become negative first. -/
def settle (penalty : Float) (columns : List (List Float)) (targets : Array Float) :
    Nat → List Nat → Array Float → List Nat × Array Float
  | 0, chosen, slopes => (chosen, slopes)
  | fuel + 1, chosen, slopes =>
    let best := freeAmong penalty columns targets chosen
    let falling := chosen.filter fun i => best.getD i 0.0 ≤ 0.0
    if falling.isEmpty then (chosen, best)
    else
      let share (i : Nat) : Float :=
        let x := slopes.getD i 0.0
        if x ≤ 0.0 then 0.0 else x / (x - best.getD i 0.0)
      let step := Numbers.least (falling.map share)
      let moved := Array.zipWith (fun x b => x + step * (b - x)) slopes best
      let kept := chosen.filter fun i => !(falling.contains i && share i ≤ step)
      let moved := (Array.range moved.size).map fun i =>
        if kept.contains i then moved.getD i 0.0 else 0.0
      settle penalty columns targets fuel kept moved

/-- Adds one column after the other, the one with the fastest descent first. -/
def improve (penalty bound : Float) (columns : List (List Float)) (targets : Array Float) :
    Nat → List Nat → Array Float → Array Float
  | 0, _, slopes => slopes
  | fuel + 1, chosen, slopes =>
    let rising := (descent penalty columns targets slopes).zipIdx.filter fun p =>
      bound < p.1 && !chosen.contains p.2
    match rising with
    | [] => slopes
    | first :: rest =>
      let (_, i) := rest.foldl (fun best p => if best.1 < p.1 then p else best) first
      let (chosen, slopes) := settle penalty columns targets columns.length (chosen ++ [i]) slopes
      improve penalty bound columns targets fuel chosen slopes

/-- The slopes of the least penalized squared error, none of them negative. -/
def nonNegative (penalty : Float) (columns : List (List Float)) (targets : Array Float) :
    Array Float :=
  let size := Float.ofNat (max columns.length targets.size)
  let largest := Numbers.greatest (columns.map fun xs => Numbers.sum (xs.map Float.abs))
  improve penalty (10.0 * size * 2.220446049250313e-16 * largest) columns targets
    (3 * columns.length) [] (Array.replicate columns.length 0.0)

end Slopes

/-- What is asked of a model: whether it has a constant term, and whether slopes may be negative. -/
structure Form where
  hasConstant : Bool
  isPositive : Bool

def Form.read (o : Options) : Form :=
  ⟨Parameters.flag o "fit_intercept" true, Parameters.flag o "positive" false⟩

def weightedMean (weights xs : List Float) : Float :=
  Numbers.sum (xs.zipWith (· * ·) weights) / Numbers.sum weights

/-- The best model of some targets. Rows count with weights: their distances from the means are
stretched by the roots of these. -/
def fit (form : Form) (penalty : Float) (weights : List Float) (columns : List (List Float))
    (targets : List Float) : Weights :=
  let middle (xs : List Float) : Float := if form.hasConstant then weightedMean weights xs else 0.0
  let rest (xs : List Float) : List Float :=
    let m := middle xs
    xs.zipWith (fun x w => (x - m) * w.sqrt) weights
  let solve := if form.isPositive then Slopes.nonNegative else Slopes.free
  let slopes := solve penalty (columns.map rest) (rest targets).toArray
  ⟨middle targets - Numbers.dot (columns.map middle).toArray slopes, slopes⟩

def columnsOf (X : Frame) : Except Failure (List (List Float)) := Numbers.ofFrame false X

def ones (X : Frame) : List Float := List.replicate X.rows 1.0

def least : LearningMethod where
  parameters := [.flag "fit_intercept", .flag "copy_X", .number "tol" (.atLeast 0.0), .jobs,
    .flag "positive"]
  learn o X y := do
    let w := fit (.read o) 0.0 (ones X) (← columnsOf X) (← quantitiesOf y)
    return Learn.regression fun rows => rows.map w.answer

def ridgeParameters : List Parameter := [⟨"alpha", [.number (.atLeast 0.0), .items]⟩,
  .flag "fit_intercept", .flag "copy_X", .count? "max_iter" 1, .number "tol" (.atLeast 0.0),
  .choice "solver" ["auto", "svd", "cholesky", "lsqr", "sparse_cg", "sag", "saga", "lbfgs"],
  .flag "positive", .randomState]

/-- One penalty for each of some targets; there may be one for all of them. -/
def penaltiesOf (o : Options) (targets : Nat) : Except Failure (List Float) := do
  match o.getD "alpha" (.float 1.0) with
  | .list items | .tuple items =>
    let found ← items.mapM Numbers.ofCell
    match found with
    | [x] => return List.replicate targets x
    | xs => if xs.length = targets then return xs else throw (.unusable .value)
  | .dict _ => throw (.unusable .type)
  | v => return List.replicate targets (v.number?.getD 1.0)

/-- One way to find slopes is for those that are not negative, and all others are for free ones. -/
def checkSolver (o : Options) (form : Form) : Except Failure Unit :=
  match Parameters.choice o "solver" "auto" with
  | "auto" => .ok ()
  | solver => if (solver == "lbfgs") == form.isPositive then .ok () else .error (.unusable .value)

def ridge : LearningMethod where
  parameters := ridgeParameters
  learn o X y := do
    let form := Form.read o
    let columns ← columnsOf X
    let targets ← quantitiesOf y
    checkSolver o form
    let penalties ← penaltiesOf o 1
    let w := fit form (penalties.headD 1.0) (ones X) columns targets
    return Learn.regression fun rows => rows.map w.answer

/-- The class that the models of the classes answer with: of two classes the second has the only
model, and it wins if its answer is positive. -/
def winner (scores : List Float) : Nat :=
  match scores with
  | [s] => if s > 0.0 then 1 else 0
  | _ => greatestAt scores

def classifier : LearningMethod where
  parameters := ridgeParameters ++ [⟨"class_weight", [.table, .text ["balanced"], .null]⟩]
  learn o X y := do
    let form := Form.read o
    let columns ← columnsOf X
    let t ← Target.ofClasses y
    let classWeights ← t.classWeights (o.getD "class_weight" .null)
    let weights := t.codes.map fun k => classWeights.getD k 1.0
    checkSolver o form
    let modelled := if t.classes.size ≤ 2 then [1] else List.range t.classes.size
    let penalties ← penaltiesOf o modelled.length
    let models := (modelled.zip penalties).map fun p =>
      fit form p.2 weights columns (t.codes.map fun k => if k = p.1 then 1.0 else -1.0)
    return ⟨fun X => do
      return t.column ((← rowsOf false X).map fun row =>
        winner (models.map fun w => w.answer row)), none⟩

end ColumnFlow.Learn.Linear
