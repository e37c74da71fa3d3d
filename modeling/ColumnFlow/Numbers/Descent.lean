import ColumnFlow.Numbers.Axes

/-!
The least value of a smooth function of several numbers. Every round follows a line: straight down
at first, and later turned by what the last rounds have shown of the curvature. How far to follow it
is searched for until the value has fallen enough and the line is flat enough there. Rounds end when
the function is flat everywhere, or falls no more.
-/
namespace ColumnFlow.Numbers.Descent

/-- A function with its gradient. -/
abbrev Surface := Array Float → Float × Array Float

/-- A place on a line: how far it is, the value there, and how the line rises. -/
structure Mark where
  far : Float
  value : Float
  rise : Float

namespace Mark

/-- The mark without a straight line of some rise. -/
def below (m : Mark) (rise : Float) : Mark := ⟨m.far, m.value - m.far * rise, m.rise - rise⟩

def above (m : Mark) (rise : Float) : Mark := ⟨m.far, m.value + m.far * rise, m.rise + rise⟩

end Mark

/-- The best place so far, another one, and the bounds of what is tried next. -/
structure Span where
  best : Mark
  other : Mark
  /-- Whether the least value lies between the two. -/
  isClosed : Bool
  /-- Whether no place yet is low enough and rises. -/
  isEarly : Bool
  low : Float
  high : Float
  width : Float
  widthBefore : Float

/-- Where the cubic through two marks is flat: its middle, and the distance from there. -/
def cubic (a b : Mark) : Float × Float :=
  let middle := 3.0 * (a.value - b.value) / (b.far - a.far) + a.rise + b.rise
  let scale := greatest [middle.abs, a.rise.abs, b.rise.abs]
  let inner := (middle / scale) * (middle / scale) - (a.rise / scale) * (b.rise / scale)
  (middle, scale * Float.sqrt (if inner < 0.0 then 0.0 else inner))

def within (low high x : Float) : Float := if x < low then low else if high < x then high else x

/-- Whether the line falls at one mark and rises at another. -/
def turns (a b : Mark) : Bool := b.rise * (a.rise / a.rise.abs) < 0.0

/-- Where a line is flat between marks of opposite rise. -/
def secant (a b : Mark) : Float := b.far + b.rise / (b.rise - a.rise) * (a.far - b.far)

/-- The next place to try after a mark, and whether the least value is between two marks then. -/
def nextPlace (s : Span) (p : Mark) : Float × Bool :=
  let x := s.best
  let (middle, distance) := cubic x p
  if x.value < p.value then
    let d := if p.far < x.far then -distance else distance
    let r := ((d - x.rise) + middle) / (((d - x.rise) + d) + p.rise)
    let c := x.far + r * (p.far - x.far)
    let slope := (x.value - p.value) / (p.far - x.far) + x.rise
    let q := x.far + x.rise / slope / 2.0 * (p.far - x.far)
    (if (c - x.far).abs < (q - x.far).abs then c else c + (q - c) / 2.0, true)
  else
    let d := if x.far < p.far then -distance else distance
    if turns x p then
      let r := ((d - p.rise) + middle) / (((d - p.rise) + d) + x.rise)
      let c := p.far + r * (x.far - p.far)
      let q := secant x p
      (if (q - p.far).abs < (c - p.far).abs then c else q, true)
    else if p.rise.abs < x.rise.abs then
      let r := ((d - p.rise) + middle) / ((d + (x.rise - p.rise)) + d)
      let c := if r < 0.0 && d != 0.0 then p.far + r * (x.far - p.far)
        else if x.far < p.far then s.high else s.low
      let q := secant x p
      let isCubicNearer := (c - p.far).abs < (q - p.far).abs
      if s.isClosed then
        let f := if isCubicNearer then c else q
        let bound := p.far + 0.66 * (s.other.far - p.far)
        (if x.far < p.far then (if bound < f then bound else f) else if f < bound then bound else f,
          true)
      else (within s.low s.high (if (q - p.far).abs < (c - p.far).abs then c else q), false)
    else if s.isClosed then
      let (middle, distance) := cubic p s.other
      let d := if s.other.far < p.far then -distance else distance
      let r := ((d - p.rise) + middle) / (((d - p.rise) + d) + s.other.rise)
      (p.far + r * (s.other.far - p.far), true)
    else (if x.far < p.far then s.high else s.low, false)

/-- The two marks that are kept after a third. -/
def keep (best other p : Mark) : Mark × Mark :=
  if best.value < p.value then (best, p)
  else if turns best p then (p, best)
  else (p, other)

def farthest : Float := 1e10

/-- The span after a mark, and the next place to try. Early on, marks are seen without a line of
the rise that is asked for. -/
def narrow (s : Span) (rise : Float) (isLeveled : Bool) (p : Mark) : Span × Float :=
  let shift := if isLeveled then rise else 0.0
  let leveled := { s with best := s.best.below shift, other := s.other.below shift }
  let p := p.below shift
  let (place, isClosed) := nextPlace leveled p
  let (best, other) := keep leveled.best leveled.other p
  let (best, other) := (best.above shift, other.above shift)
  let distance := (other.far - best.far).abs
  let (place, width, widthBefore) :=
    if isClosed then
      (if 0.66 * s.widthBefore ≤ distance then best.far + 0.5 * (other.far - best.far) else place,
        distance, s.width)
    else (place, s.width, s.widthBefore)
  let (low, high) :=
    if isClosed then
      if best.far < other.far then (best.far, other.far) else (other.far, best.far)
    else (place + 1.1 * (place - best.far), place + 4.0 * (place - best.far))
  let place := within 0.0 farthest place
  let isStuck := isClosed && (place ≤ low || high ≤ place || high - low ≤ 0.1 * high)
  (⟨best, other, isClosed, s.isEarly, low, high, width, widthBefore⟩,
    if isStuck then best.far else place)

/-- A place on a line with the value and the gradient there. -/
structure Trial where
  mark : Mark
  point : Array Float
  gradient : Array Float

def moved (x d : Array Float) (step : Float) : Array Float :=
  Array.zipWith (fun a b => a + step * b) x d

/-- Tries places on the line from a point in some direction, at most `fuel` of them. -/
def search (f : Surface) (x d : Array Float) (start : Mark) : Nat → Span → Float → Option Trial
  | 0, _, _ => none
  | fuel + 1, s, step =>
    let point := moved x d step
    let (value, gradient) := f point
    let p : Mark := ⟨step, value, dot gradient d⟩
    let rise := 0.001 * start.rise
    let wanted := start.value + step * rise
    let isEarly := s.isEarly && !(value ≤ wanted && 0.0 ≤ p.rise)
    let isStuck := s.isClosed && (step ≤ s.low || s.high ≤ step || s.high - s.low ≤ 0.1 * s.high)
    let isFarthest := step == farthest && value ≤ wanted && p.rise ≤ rise
    if isStuck || isFarthest || (value ≤ wanted && p.rise.abs ≤ 0.9 * -start.rise) then
      some ⟨p, point, gradient⟩
    else
      let isLeveled := isEarly && value ≤ s.best.value && wanted < value
      let (s, step) := narrow { s with isEarly } rise isLeveled p
      search f x d start fuel s step

/-- What a round has shown: how far it went, and how the gradient changed. -/
structure Bend where
  step : Array Float
  change : Array Float
  /-- The product of the two. -/
  strength : Float

/-- A vector turned by the bends, the latest first, and stretched. -/
def turned (stretch : Float) : List Bend → Array Float → Array Float
  | [], v => v.map (· * stretch)
  | b :: bends, v =>
    let along := dot b.step v / b.strength
    let rest := turned stretch bends (moved v b.change (-along))
    moved rest b.step (along - dot b.change rest / b.strength)

/-- How a descent stands. -/
structure State where
  point : Array Float
  value : Float
  gradient : Array Float
  bends : List Bend
  stretch : Float

def steepness (v : Array Float) : Float := v.foldl (fun m x => if m < x.abs then x.abs else m) 0.0

def epsilon : Float := 2.220446049250313e-16

/-- Whether a value is hardly less than before. -/
def isLevel (before after : Float) : Bool :=
  before - after ≤ 64.0 * epsilon * greatest [before.abs, after.abs, 1.0]

/-- The bends after a round, and the stretch that fits the last of them. Rounds that show no curve
upwards do not count. -/
def remember (s : State) (d : Array Float) (rise : Float) (t : Trial) : List Bend × Float :=
  let strength := (t.mark.rise - rise) * t.mark.far
  if strength ≤ epsilon * -(rise * t.mark.far) then (s.bends, s.stretch)
  else
    let change := Array.zipWith (· - ·) t.gradient s.gradient
    (⟨d.map (· * t.mark.far), change, strength⟩ :: s.bends.take 9, strength / dot change change)

/-- At most so many rounds. Where no place on a line is found, bends are forgotten. -/
def rounds (f : Surface) (tolerance : Float) : Nat → Bool → State → Array Float
  | 0, _, s => s.point
  | count + 1, isFirst, s =>
    let d := (turned s.stretch s.bends s.gradient).map (-·)
    let rise := dot s.gradient d
    let start : Mark := ⟨0.0, s.value, rise⟩
    let step := if isFirst then within 0.0 farthest (1.0 / (dot d d).sqrt) else 1.0
    let span : Span := ⟨start, start, false, true, 0.0, step + 4.0 * step, farthest, 2.0 * farthest⟩
    let found := if rise < 0.0 then search f s.point d start 50 span step else none
    match found with
    | none =>
      if s.bends.isEmpty then s.point
      else rounds f tolerance count false { s with bends := [], stretch := 1.0 }
    | some t =>
      if steepness t.gradient ≤ tolerance || isLevel s.value t.mark.value then t.point
      else
        let (bends, stretch) := remember s d rise t
        rounds f tolerance count false ⟨t.point, t.mark.value, t.gradient, bends, stretch⟩

/-- Where a function is least, found from some point on in at most so many rounds. -/
def lowest (f : Surface) (tolerance : Float) (count : Nat) (point : Array Float) : Array Float :=
  let (value, gradient) := f point
  if steepness gradient ≤ tolerance then point
  else rounds f tolerance count true ⟨point, value, gradient, [], 1.0⟩

end ColumnFlow.Numbers.Descent
