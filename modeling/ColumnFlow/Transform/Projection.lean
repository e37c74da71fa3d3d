import ColumnFlow.Frame.Inference
import ColumnFlow.Numbers.Axes
import ColumnFlow.Transform.Mapping

/-!
Projections of numeric columns on their principal axes. The new columns are named for the method
and numbered. A projection may also be scaled to a spread of one.
-/
namespace ColumnFlow.Projection

/-- The means of the columns, and the axes with a divisor for each. -/
structure Basis where
  means : List Float
  axes : List (Array Float × Float)

namespace Basis

def centered (b : Basis) (columns : List (List Float)) : List (List Float) :=
  columns.zipWith (fun xs m => xs.map (· - m)) b.means

def project (b : Basis) (rows : Nat) (columns : List (List Float)) : List (List Float) :=
  let table := (Numbers.rowsOf rows (b.centered columns)).map List.toArray
  b.axes.map fun axis => table.map fun row => Numbers.dot axis.1 row / axis.2

/-- The axes of some columns around their means. -/
def axesOf (columns : List (List Float)) : List Float × List Numbers.Axis :=
  let means := columns.map Numbers.mean
  (means, Numbers.axes (columns.zipWith (fun xs m => xs.map (· - m)) means))

end Basis

/-- The spread of the data along an axis. -/
def spreadAlong (rows : Nat) (a : Numbers.Axis) : Float :=
  max (a.length / Float.sqrt (Float.ofNat (rows - 1))) 2.220446049250313e-16

/-- How many axes explain more than a share of the variance. -/
def countFor (share : Float) (axes : List Numbers.Axis) : Nat :=
  let weights := axes.map fun a => a.length * a.length
  let total := Numbers.sum weights
  let (count, _) := weights.foldl (fun (n, explained) w =>
    let explained := explained + w / total
    (if explained ≤ share then n + 1 else n, explained)) (0, 0.0)
  min axes.length (count + 1)

/-- The logarithm of the gamma function at half of a whole number. -/
def logGammaOfHalf : Nat → Float
  | 0 => Range.infinite
  | 1 => 0.5 * Float.log Numbers.pi
  | 2 => 0.0
  | n + 2 => logGammaOfHalf n + Float.log (Float.ofNat n / 2.0)

def logarithm (x : Float) : Except Failure Float :=
  if x ≤ 0.0 then .error (.unusable .value) else .ok (Float.log x)

/-- How probable it is that variances come from so many directions and noise; equal variances
cannot be told apart. -/
def evidence (variances : List Float) (rows count : Nat) : Except Failure Float := do
  let n := Float.ofNat rows
  let k := Float.ofNat count
  let rest := Float.ofNat (variances.length - count)
  let noise := max 1e-15 (Numbers.sum (variances.drop count) / rest)
  let leveled := variances.take count ++ List.replicate (variances.length - count) noise
  let pairs := variances.zip leveled
  let turns ← (List.range count).mapM fun i => do
    let (v, l) := pairs.getD i (0.0, 0.0)
    let logs ← (pairs.drop (i + 1)).mapM fun p => logarithm ((v - p.1) * (1.0 / p.2 - 1.0 / l))
    return Numbers.sum (logs.map (· + Float.log n))
  let sphere := Numbers.sum ((List.range count).map fun i =>
    logGammaOfHalf (variances.length - i)
      - Float.log Numbers.pi * Float.ofNat (variances.length - i) / 2.0)
  let free := Float.ofNat variances.length * k - k * (k + 1.0) / 2.0
  return -k * Float.log 2.0 + sphere
    - Numbers.sum ((variances.take count).map Float.log) * n / 2.0
    - Float.log noise * n * rest / 2.0
    + Float.log (2.0 * Numbers.pi) * (free + k) / 2.0
    - Numbers.sum turns / 2.0 - k * Float.log n / 2.0

/-- The most probable number of directions, the least of equally probable ones. -/
def likeliestCount (rows : Nat) (axes : List Numbers.Axis) : Except Failure Nat := do
  let variances := axes.map fun a => a.length * a.length / Float.ofNat (rows - 1)
  let scores ← (List.range (variances.length - 1)).mapM fun i =>
    if variances.getD i 0.0 < 1e-15 then .ok (-Range.infinite)
    else evidence variances rows (i + 1)
  let (count, _) := scores.zipIdx.foldl (fun best p =>
    if best.2 < p.1 then (p.2 + 1, p.1) else best) (0, -Range.infinite)
  return count

/-- Methods that find the longest axes only must be told a number of them. -/
def isTruncated (solver : String) : Bool := solver == "arpack" || solver == "randomized"

/-- A number of axes, where there can be at most so many. -/
def exactCount (solver : String) (n most : Nat) : Except Failure Nat :=
  let tooFew := isTruncated solver && n = 0
  let tooMany := most < n || (solver == "arpack" && n = most)
  if tooFew || tooMany then .error (.unusable .value) else .ok n

/-- The number of axes to keep: all that there can be, a number of them, enough for a share, or the
most probable number. -/
def keptCount (o : Options) (rows columns : Nat) (axes : List Numbers.Axis) :
    Except Failure Nat :=
  let solver := Parameters.choice o "svd_solver" "auto"
  let most := min rows columns
  match o.getD "n_components" .null with
  | .scalar .null => exactCount solver (if solver == "arpack" then most - 1 else most) most
  | .scalar (.text _) =>
    if isTruncated solver || rows < columns then .error (.unusable .value)
    else likeliestCount rows axes
  | .scalar (.float x) =>
    if isTruncated solver then .error (.unusable .value) else .ok (countFor x (axes.take most))
  | v => exactCount solver (((Domain.whole? v).map Int.toNat).getD most) most

/-- Numbered names for the new columns. -/
def numbered (method : String) (n : Nat) : List String :=
  (List.range n).map fun i => Text.lower method ++ toString i

def mapping (method : String) (basis : Basis) : Mapping :=
  ⟨some (numbered method basis.axes.length), basis.axes.length, fun X => do
    return Mapping.ofNumbers (basis.project X.rows (← Numbers.ofFrame false X))⟩

/-- Principal components. -/
def principal : Method where
  name := "PCA"
  parameters := [⟨"n_components", [.atLeast 0, .share (.between 0.0 1.0), .text ["mle"], .null]⟩,
    .flag "copy", .flag "whiten",
    .choice "svd_solver" ["auto", "full", "covariance_eigh", "arpack", "randomized"],
    .number "tol" (.atLeast 0.0), ⟨"iterated_power", [.text ["auto"], .atLeast 0]⟩,
    .count "n_oversamples" 1,
    .choice "power_iteration_normalizer" ["auto", "QR", "LU", "none"], .randomState]
  learn o f := do
    let whiten := Parameters.flag o "whiten" false
    let columns ← Numbers.ofFrame false f
    let (means, axes) := Basis.axesOf columns
    let count ← keptCount o f.rows columns.length axes
    return mapping "PCA" ⟨means, (axes.take count).map fun a =>
      (a.direction, if whiten then spreadAlong f.rows a else 1.0)⟩

/-- A shape parameter of a method, from 1 to 2. -/
def checkShape (o : Options) : Except Failure Unit := do
  match o.getD "fun_args" .null with
  | .dict entries =>
    let alpha := Options.getD entries "alpha" (.float 1.0)
    let inOrder ← if ← Parameters.atMost (.int 1) alpha then Parameters.atMost alpha (.int 2)
      else pure false
    if !inOrder then throw (.unusable .value)
  | _ => return ()

/-- Whether a value has as many rows as columns, namely a number of them. -/
def isSquare (v : Value) (count : Nat) : Bool := Grid.shapeOf v == some [count, count]

/-- How many columns are not constant. -/
def varying (columns : List (List Float)) : Nat :=
  columns.countP fun xs => xs.any fun x => x != Numbers.mean xs

/-- How many components there are: without whitening always as many as there can be. -/
def componentCount (o : Options) (whitens : Bool) (most : Nat) : Except Failure Nat :=
  match o.getD "n_components" .null with
  | .scalar (.int n) => .ok (if whitens then min n.toNat most else most)
  | .scalar (.bool _) => if whitens then .error (.unusable .type) else .ok most
  | _ => .ok most

/-- Components with a spread of one. -/
def independent : Method where
  name := "FastICA"
  parameters := [.count? "n_components" 1, .choice "algorithm" ["parallel", "deflation"],
    ⟨"whiten", [.text ["arbitrary-variance", "unit-variance"], .flag]⟩,
    .choice "fun" ["logcosh", "exp", "cube"], ⟨"fun_args", [.table, .null]⟩, .count "max_iter" 1,
    .number "tol" (.atLeast 0.0), ⟨"w_init", [.items, .null]⟩,
    .choice "whiten_solver" ["eigh", "svd"], .randomState]
  learn o f := do
    let whiten := o.getD "whiten" (.text "unit-variance")
    if (Domain.whole? whiten).any (· ≠ 0) then throw (.unusable .parameter)
    let columns ← Numbers.ofFrame false f
    if f.rows < 2 then throw (.unusable .value)
    checkShape o
    let count ← componentCount o whiten.isTrue (min f.rows columns.length)
    let start := o.getD "w_init" .null
    if !start.isNull && !isSquare start count then throw (.unusable .value)
    if whiten.isTrue && varying columns < count then throw (.unusable .value)
    if !whiten.isTrue && f.rows < columns.length then throw (.unusable .value)
    let (means, axes) := Basis.axesOf columns
    return mapping "FastICA" ⟨means, (axes.take count).map fun a =>
      (a.direction, spreadAlong f.rows a)⟩

/-- A variance for every column, none of them negative. -/
def checkNoise (noise : Value) (width : Nat) : Except Failure Unit := do
  match noise with
  | .list items | .tuple items =>
    if items.length ≠ width then throw (.unusable .value)
    let numbers ← items.mapM Parameters.numberIn
    if numbers.any (· < 0.0) then throw (.unusable .value)
  | _ => return ()

/-- As many factors as there are columns and rows, unless fewer are asked for. -/
def factors : Method where
  name := "FactorAnalysis"
  parameters := [.count? "n_components" 0, .number "tol" (.atLeast 0.0), .flag "copy",
    .count "max_iter" 1, ⟨"noise_variance_init", [.items, .null]⟩,
    .choice "svd_method" ["randomized", "lapack"], .count "iterated_power" 0,
    ⟨"rotation", [.text ["varimax", "quartimax"], .null]⟩, .randomState]
  learn o f := do
    let width := f.columns.length
    let count := min ((Parameters.count? o "n_components").getD width) (min f.rows width)
    let columns ← Numbers.ofFrame false f
    checkNoise (o.getD "noise_variance_init" .null) width
    let (means, axes) := Basis.axesOf columns
    return mapping "FactorAnalysis" ⟨means, (axes.take count).map fun a =>
      (a.direction, spreadAlong f.rows a)⟩

end ColumnFlow.Projection
