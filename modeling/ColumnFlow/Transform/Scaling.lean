import ColumnFlow.Numbers.Normal
import ColumnFlow.Transform.Mapping

/-!
Scaling columns of numbers. Each method moves a column by a center and divides it by a scale, both
learned from the numbers that are not missing. A scale of nothing counts as one.
-/
namespace ColumnFlow.Scaling

/-- The distance from 1 to the next binary number. -/
def epsilon : Float := 2.220446049250313e-16

/-- Ranges that are too small to divide by count as one. -/
def safeRange (x : Float) : Float := if x < 10.0 * epsilon then 1.0 else x

/-- Whether a variance is no more than the rounding error of a constant column. -/
def isConstant (count : Nat) (mean variance : Float) : Bool :=
  let n := Float.ofNat count
  variance ≤ n * epsilon * variance + (n * mean * epsilon) * (n * mean * epsilon)

/-- One function for every column, from what is learned from its numbers. -/
def mappingOf {α : Type} (f : Frame) (columns : List (List Float)) (learned : List Float → α)
    (function : α → Float → Float) : Mapping :=
  Mapping.columnwise true f (columns.map fun xs => function (learned (Numbers.present xs)))

/-- Learns one function for every column. -/
def learn {α : Type} (f : Frame) (learned : List Float → α) (function : α → Float → Float) :
    Except Failure Mapping := do
  return mappingOf f (← Numbers.ofFrame true f) learned function

/-- A move by a center and a division by a scale. -/
structure Shift where
  center : Float
  scale : Float

def Shift.apply (s : Shift) (x : Float) : Float := (x - s.center) / s.scale

/-- Moves by a center, if so asked, and divides by a scale, if so asked. -/
def Shift.choose (withCenter withScale : Bool) (center scale : Float) : Shift :=
  ⟨if withCenter then center else 0.0, if withScale then scale else 1.0⟩

/-- Mean zero and a spread of one. -/
def standardized (withMean withStd : Bool) (xs : List Float) : Shift :=
  let mean := Numbers.mean xs
  let variance := Numbers.variance xs
  .choose withMean withStd mean
    (if isConstant xs.length mean variance then 1.0 else Float.sqrt variance)

def standard : Method where
  name := "StandardScaler"
  parameters := [.flag "copy", .flag "with_mean", .flag "with_std"]
  learn o f := learn f
    (standardized (Parameters.flag o "with_mean" true) (Parameters.flag o "with_std" true))
    Shift.apply

def clamped (low high x : Float) : Float := if x < low then low else if high < x then high else x

/-- A multiplication by a scale and a move by an offset. -/
structure Stretch where
  scale : Float
  offset : Float

def Stretch.apply (s : Stretch) (x : Float) : Float := x * s.scale + s.offset

/-- The least number goes to `low` and the greatest to `high`. -/
def stretched (low high : Float) (xs : List Float) : Stretch :=
  let least := Numbers.least xs
  let scale := (high - low) / safeRange (Numbers.greatest xs - least)
  ⟨scale, low - least * scale⟩

/-- The ends of a range, which may come from a longer tuple. The upper end must be above the lower;
whether both are numbers is asked later. -/
def rangeOf (items : List Value) : Except Failure (Value × Value) :=
  match items with
  | low :: high :: _ => do
    if ← Parameters.atMost high low then throw (.unusable .value)
    return (low, high)
  | _ => .error (.unusable .index)

def minMax : Method where
  name := "MinMaxScaler"
  parameters := [⟨"feature_range", [.tuple]⟩, .flag "copy", .flag "clip"]
  learn o f := do
    let items := Parameters.tuple o "feature_range" [.int 0, .int 1]
    let clip := Parameters.flag o "clip" false
    let (low, high) ← rangeOf items
    let columns ← Numbers.ofFrame true f
    let low ← Parameters.numberIn low
    let high ← Parameters.numberIn high
    return mappingOf f columns (stretched low high) fun s x =>
      if clip then clamped low high (s.apply x) else s.apply x

/-- The greatest magnitude, which goes to one. -/
def magnitude (xs : List Float) : Float := safeRange (Numbers.greatest (xs.map Float.abs))

def bounded (clip : Bool) (scale x : Float) : Float :=
  if clip then clamped (-1.0) 1.0 (x / scale) else x / scale

def maxAbs : Method where
  name := "MaxAbsScaler"
  parameters := [.flag "copy", .flag "clip"]
  learn o f := learn f magnitude (bounded (Parameters.flag o "clip" false))

/-- The median goes to zero, and the numbers between two quantiles get a spread of one. The spread
may be measured against that of the normal distribution. -/
def centered (withCentering withScaling : Bool) (low high divisor : Float) (xs : List Float) :
    Shift :=
  let width := Numbers.quantile (high / 100.0) xs - Numbers.quantile (low / 100.0) xs
  .choose withCentering withScaling (Numbers.median xs) (safeRange width / divisor)

/-- Two percentages in order. -/
def percentages (items : List Value) : Except Failure (Float × Float) :=
  match items with
  | [low, high] => do
    let inOrder ← if ← Parameters.atMost (.int 0) low then
        if ← Parameters.atMost low high then Parameters.atMost high (.int 100) else pure false
      else pure false
    if inOrder then return (← Parameters.numberIn low, ← Parameters.numberIn high)
    else throw (.unusable .value)
  | _ => .error (.unusable .value)

/-- How far apart two percentages lie in the standard normal distribution. -/
def normalSpread (low high : Float) : Float :=
  Numbers.Normal.quantile (high / 100.0) - Numbers.Normal.quantile (low / 100.0)

def robust : Method where
  name := "RobustScaler"
  parameters := [.flag "with_centering", .flag "with_scaling", ⟨"quantile_range", [.tuple]⟩,
    .flag "copy", .flag "unit_variance"]
  learn o f := do
    let withCentering := Parameters.flag o "with_centering" true
    let withScaling := Parameters.flag o "with_scaling" true
    let items := Parameters.tuple o "quantile_range" [.float 25.0, .float 75.0]
    let normal := Parameters.flag o "unit_variance" false
    let columns ← Numbers.ofFrame true f
    let (low, high) ← percentages items
    let divisor := if normal then normalSpread low high else 1.0
    return mappingOf f columns (centered withCentering withScaling low high divisor) Shift.apply

end ColumnFlow.Scaling
