import ColumnFlow.Numbers.Statistics

/-!
How impure some samples are. A sample counts with a weight, and its target is a list of numbers: a
class is a one among zeros. What impurity depends on are the weighted sums of the targets, which can
be added and taken apart, and for some measures the targets themselves.
-/
namespace ColumnFlow.Learn

/-- A target that is a single number, with its weight. -/
structure Mass where
  value : Float
  weight : Float

structure Sample where
  row : Array Float
  weight : Float
  target : Array Float
  /-- The target, if its measure needs more than sums. -/
  masses : List Mass

def Sample.plain (row : Array Float) (weight : Float) (target : Array Float) : Sample :=
  ⟨row, weight, target, []⟩

/-- Weighted sums over some samples: of the targets, and of their squares; and the targets that are
needed one by one, in increasing order. -/
structure Sums where
  rows : Nat
  weight : Float
  totals : Array Float
  squares : Float
  masses : List Mass

namespace Sums

def zero (width : Nat) : Sums := ⟨0, 0.0, Array.replicate width 0.0, 0.0, []⟩

def add (a b : Sums) : Sums :=
  ⟨a.rows + b.rows, a.weight + b.weight, Array.zipWith (· + ·) a.totals b.totals,
    a.squares + b.squares, a.masses.merge b.masses fun x y => x.value ≤ y.value⟩

/-- Takes one of some masses away. -/
def removing (masses : List Mass) (m : Mass) : List Mass :=
  masses.eraseP fun x => x.value == m.value && x.weight == m.weight

/-- What is left of the whole without a part. -/
def without (whole part : Sums) : Sums :=
  ⟨whole.rows - part.rows, whole.weight - part.weight,
    Array.zipWith (· - ·) whole.totals part.totals, whole.squares - part.squares,
    part.masses.foldl removing whole.masses⟩

def ofSample (s : Sample) : Sums :=
  let weighted := s.target.map (s.weight * ·)
  ⟨1, s.weight, weighted, (Array.zipWith (· * ·) weighted s.target).foldl (· + ·) 0.0, s.masses⟩

def ofSamples (width : Nat) (samples : List Sample) : Sums :=
  samples.foldl (fun sums s => sums.add (ofSample s)) (zero width)

theorem rows_add (a b : Sums) : (a.add b).rows = a.rows + b.rows := rfl

/-- The sum of the squared totals. -/
def power (s : Sums) : Float := s.totals.foldl (fun acc t => acc + t * t) 0.0

/-- The mean target. -/
def means (s : Sums) : Array Float := s.totals.map (· / s.weight)

/-- The number that masses reach half of a weight at; where they reach it exactly, it lies halfway
to the next one. -/
def middleOf (half : Float) : Float → List Mass → Float
  | _, [] => 0.0
  | _, [m] => m.value
  | reached, m :: next :: rest =>
    let reached := reached + m.weight
    if reached < half then middleOf half reached (next :: rest)
    else if reached == half then (m.value + next.value) / 2.0
    else m.value

/-- The median target. -/
def median (s : Sums) : Float := middleOf (s.weight / 2.0) 0.0 s.masses

/-- The mean of a function of the targets. -/
def meanOf (s : Sums) (f : Float → Float) : Float :=
  s.masses.foldl (fun acc m => acc + m.weight * f m.value) 0.0 / s.weight

end Sums

/-- A measure of impurity. -/
inductive Criterion where
  /-- The chance that two samples of a node differ. -/
  | gini
  /-- The information that is missing about a sample, in bits. -/
  | entropy
  /-- The variance of the targets. -/
  | squaredError
  /-- The variance of the targets, where a question is as good as the means that it parts are far
  from each other. -/
  | meanDistance
  /-- The mean distance of the targets from their median. -/
  | medianDistance
  /-- How surprising the targets are as counts around their mean. -/
  | counts

namespace Criterion

/-- Whether the targets themselves are needed. -/
def needsMasses : Criterion → Bool
  | .medianDistance | .counts => true
  | _ => false

/-- What the samples of a leaf are answered. -/
def answer (c : Criterion) (s : Sums) : Array Float :=
  match c with
  | .medianDistance => #[s.median]
  | _ => s.means

/-- Totals that are not above this count as nothing. -/
def leastTotal : Float := 2.220446049250313e-16

def total (s : Sums) : Float := s.totals.getD 0 0.0

/-- The total of counts, times the logarithm of their mean. -/
def certainty (s : Sums) : Float := total s * Float.log (total s / s.weight)

def bits (share : Float) : Float :=
  if share > 0.0 then share * (Float.log share / Float.log 2.0) else 0.0

def impurity (c : Criterion) (s : Sums) : Float :=
  match c with
  | .gini => 1.0 - s.power / (s.weight * s.weight)
  | .entropy => s.means.foldl (fun acc share => acc - bits share) 0.0
  | .squaredError | .meanDistance =>
    s.squares / s.weight - s.means.foldl (fun acc m => acc + m * m) 0.0
  | .medianDistance =>
    let m := s.median
    s.meanOf fun y => (y - m).abs
  | .counts =>
    let mean := total s / s.weight
    if total s ≤ leastTotal then 1.0 / 0.0
    else s.meanOf fun y => if y == 0.0 then 0.0 else y * Float.log (y / mean)

/-- The distance of two means, in which both sides count as much as they weigh. -/
def parting (below above : Sums) : Float :=
  let d := above.weight * below.totals.getD 0 0.0 - below.weight * above.totals.getD 0 0.0
  d * d / (below.weight * above.weight)

/-- How good it is to tell some samples from others; only comparisons matter. -/
def gain (c : Criterion) (below above : Sums) : Float :=
  match c with
  | .gini | .squaredError => below.power / below.weight + above.power / above.weight
  | .entropy | .medianDistance =>
    -above.weight * c.impurity above - below.weight * c.impurity below
  | .meanDistance => parting below above
  | .counts =>
    if total below ≤ leastTotal || total above ≤ leastTotal then -(1.0 / 0.0)
    else certainty below + certainty above

/-- How much less impurity is left of all, where the samples have a total weight. -/
def improvement (c : Criterion) (all impurity : Float) (below above : Sums) : Float :=
  let weight := below.weight + above.weight
  match c with
  | .meanDistance => parting below above / weight
  | _ => weight / all * (impurity - above.weight / weight * c.impurity above
      - below.weight / weight * c.impurity below)

end Criterion
end ColumnFlow.Learn
