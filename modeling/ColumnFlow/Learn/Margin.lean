import ColumnFlow.Learn.Method
import ColumnFlow.Numbers.Axes

/-!
Support vectors. Between two classes lies a border that keeps the widest margin to the rows of both.
It is given by weights of the rows, each up to a limit, which are found by moving two weights at a
time: those that are farthest from agreeing on the border, until no two disagree much. Rows are
compared by a kernel. With several classes every pair of them has a border, and votes.
-/
namespace ColumnFlow.Learn.Margin

/-- How rows are compared. -/
inductive Kernel where
  | linear
  | polynomial (gamma constant degree : Float)
  | radial (gamma : Float)
  | sigmoid (gamma constant : Float)
  /-- The features of a row are its comparisons with all known rows. -/
  | given

/-- A row that is learned from, with its place among all of them. -/
structure Known where
  row : Array Float
  place : Nat

def Kernel.compare (k : Kernel) (row : Array Float) (b : Known) : Float :=
  match k with
  | .linear => Numbers.dot row b.row
  | .polynomial gamma constant degree => Float.pow (gamma * Numbers.dot row b.row + constant) degree
  | .radial gamma =>
    Float.exp (-gamma * (Numbers.dot row row + Numbers.dot b.row b.row
      - 2.0 * Numbers.dot row b.row))
  | .sigmoid gamma constant => Float.tanh (gamma * Numbers.dot row b.row + constant)
  | .given => row.getD b.place 0.0

/-- A row on one side of a border, with the limit of its weight. -/
structure Item where
  known : Known
  side : Float
  limit : Float

/-- The weights of some items, and how much the margin gains when a weight falls. -/
structure State where
  weights : Array Float
  gains : Array Float

/-- Two classes, and how each item compares with each. -/
structure Duel where
  items : Array Item
  products : Array (Array Float)

namespace Duel

def of (k : Kernel) (items : Array Item) : Duel :=
  ⟨items, items.map fun a => items.map fun b =>
    (a.side * b.side * k.compare a.known.row b.known).toFloat32.toFloat⟩

def side (d : Duel) (i : Nat) : Float := (d.items[i]?.map (·.side)).getD 0.0

def limit (d : Duel) (i : Nat) : Float := (d.items[i]?.map (·.limit)).getD 0.0

def product (d : Duel) (i j : Nat) : Float := (d.products.getD i #[]).getD j 0.0

def isFull (d : Duel) (s : State) (i : Nat) : Bool := d.limit i ≤ s.weights.getD i 0.0

def isEmpty (s : State) (i : Nat) : Bool := s.weights.getD i 0.0 ≤ 0.0

/-- Whether a weight can move so that its item pushes the border away. -/
def canPush (d : Duel) (s : State) (i : Nat) : Bool :=
  if d.side i > 0.0 then !d.isFull s i else !isEmpty s i

def canPull (d : Duel) (s : State) (i : Nat) : Bool :=
  if d.side i > 0.0 then !isEmpty s i else !d.isFull s i

/-- Where an item would have the border. -/
def place (d : Duel) (s : State) (i : Nat) : Float := -(d.side i * s.gains.getD i 0.0)

/-- The last of the greatest numbers at some places. -/
def lastGreatest (value : Nat → Float) (places : List Nat) : Option (Nat × Float) :=
  places.foldl (fun best i =>
    let x := value i
    match best with
    | some (_, m) => if m ≤ x then some (i, x) else best
    | none => some (i, x)) none

/-- A number to divide by, which is never less than next to nothing. -/
def positive (x : Float) : Float := if x > 0.0 then x else 1e-12

/-- How unlike two items are. -/
def spread (d : Duel) (i j : Nat) : Float :=
  positive (d.product i i + d.product j j - 2.0 * d.side i * d.side j * d.product i j)

/-- The two items whose weights are to be moved next. -/
def pair? (d : Duel) (tolerance : Float) (s : State) : Option (Nat × Nat) := do
  let all := List.range d.items.size
  let (i, farthest) ← lastGreatest (d.place s) (all.filter (d.canPush s))
  let pulling := all.filter (d.canPull s)
  let (_, nearest) ← lastGreatest (fun j => -d.place s j) pulling
  if farthest + nearest < tolerance then none
  else
    let gain (j : Nat) : Float :=
      let gap := farthest - d.place s j
      gap * gap / d.spread i j
    let (j, _) ← lastGreatest gain (pulling.filter fun j => farthest - d.place s j > 0.0)
    return (i, j)

/-- Moves two weights of opposite sides, which keep their difference. -/
def moveApart (a b limitA limitB delta : Float) : Float × Float :=
  let gap := a - b
  let (a, b) := (a + delta, b + delta)
  let (a, b) :=
    if gap > 0.0 then (if b < 0.0 then (gap, 0.0) else (a, b))
    else if a < 0.0 then (0.0, -gap) else (a, b)
  if gap > limitA - limitB then (if a > limitA then (limitA, limitA - gap) else (a, b))
  else if b > limitB then (limitB + gap, limitB) else (a, b)

/-- Moves two weights of one side, which keep their sum. -/
def moveAcross (a b limitA limitB delta : Float) : Float × Float :=
  let total := a + b
  let (a, b) := (a - delta, b + delta)
  let (a, b) :=
    if total > limitA then (if a > limitA then (limitA, total - limitA) else (a, b))
    else if b < 0.0 then (total, 0.0) else (a, b)
  if total > limitB then (if b > limitB then (total - limitB, limitB) else (a, b))
  else if a < 0.0 then (0.0, total) else (a, b)

/-- The weights after a move of two of them. -/
def move (d : Duel) (s : State) (i j : Nat) : State :=
  let (a, b) := (s.weights.getD i 0.0, s.weights.getD j 0.0)
  let (gainA, gainB) := (s.gains.getD i 0.0, s.gains.getD j 0.0)
  let (newA, newB) :=
    if d.side i != d.side j then
      moveApart a b (d.limit i) (d.limit j) ((-gainA - gainB) / d.spread i j)
    else moveAcross a b (d.limit i) (d.limit j) ((gainA - gainB) / d.spread i j)
  ⟨(s.weights.setIfInBounds i newA).setIfInBounds j newB, s.gains.mapIdx fun k g =>
    g + d.product i k * (newA - a) + d.product j k * (newB - b)⟩

/-- At most so many moves. -/
def settle (d : Duel) (tolerance : Float) : Nat → State → State
  | 0, s => s
  | moves + 1, s =>
    match d.pair? tolerance s with
    | some (i, j) => settle d tolerance moves (d.move s i j)
    | none => s

/-- Where the border lies: where the items that are free to move have it, or else between the
bounds that the others set. -/
def border (d : Duel) (s : State) : Float :=
  let all := List.range d.items.size
  let free := all.filter fun i => d.canPush s i && d.canPull s i
  let places (which : Nat → Bool) : List Float :=
    ((all.filter which).filter fun i => !free.contains i).map fun i => -d.place s i
  if free.isEmpty then
    (Numbers.least (places (d.canPush s)) + Numbers.greatest (places (d.canPull s))) / 2.0
  else Numbers.mean (free.map fun i => -d.place s i)

end Duel

/-- A border between two classes. -/
structure Border where
  first : Nat
  second : Nat
  parts : List (Known × Float)
  offset : Float

/-- How far a row is on the side of the first class. -/
def Border.depth (k : Kernel) (row : Array Float) (b : Border) : Float :=
  b.parts.foldl (fun acc p => acc + p.2 * k.compare row p.1) 0.0 - b.offset

/-- What borders are learned with. -/
structure Ground where
  kernel : Kernel
  tolerance : Float
  moves : Nat
  rows : List (Known × Nat)
  limits : Array Float

/-- The border between two classes. -/
def Ground.border (g : Ground) (first second : Nat) : Border :=
  let items (code : Nat) (side : Float) : List Item :=
    (g.rows.filter fun p => p.2 == code).map fun p => ⟨p.1, side, g.limits.getD code 0.0⟩
  let members := items first 1.0 ++ items second (-1.0)
  let duel := Duel.of g.kernel members.toArray
  let start : State :=
    ⟨Array.replicate members.length 0.0, Array.replicate members.length (-1.0)⟩
  let found := duel.settle g.tolerance g.moves start
  ⟨first, second,
    (members.zip found.weights.toList).map fun p => (p.1.known, p.1.side * p.2),
    duel.border found⟩

/-- The borders between any two of some classes. -/
def Ground.borders (g : Ground) (classes : Nat) : List Border :=
  (List.range classes).flatMap fun first =>
    ((List.range classes).filter (first < ·)).map fun second => g.border first second

/-- The votes for every class. -/
def votes (classes : Nat) (depths : List (Border × Float)) : Array Float :=
  depths.foldl (fun acc p => acc.modify (if p.2 > 0.0 then p.1.first else p.1.second) (· + 1.0))
    (Array.replicate classes 0.0)

/-- The votes, where equal numbers are told apart by how deep a row lies. -/
def graded (classes : Nat) (depths : List (Border × Float)) : Array Float :=
  let sums := depths.foldl (fun (acc : Array Float) p =>
    (acc.modify p.1.first (· + p.2)).modify p.1.second (· - p.2)) (Array.replicate classes 0.0)
  Array.zipWith (fun v x => v + x / (3.0 * (x.abs + 1.0))) (votes classes depths) sums

def parameters : List Parameter := [.number "C" (.above 0.0),
  .choice "kernel" ["linear", "poly", "rbf", "sigmoid", "precomputed"], .count "degree" 0,
  ⟨"gamma", [.text ["scale", "auto"], .number (.atLeast 0.0)]⟩,
  .number "coef0" (.between (-Range.infinite) Range.infinite), .flag "shrinking",
  .flag "probability", .number "tol" (.above 0.0), .number "cache_size" (.above 0.0),
  ⟨"class_weight", [.text ["balanced"], .table, .null]⟩, .verbose, .count "max_iter" (-1),
  .choice "decision_function_shape" ["ovr", "ovo"], .flag "break_ties", .randomState]

/-- How wide the radius of a row is, where that is not given: all features together, or each of
them, count as one. -/
def gammaOf (o : Options) (rows : Rows) (width : Nat) : Float :=
  match o.getD "gamma" (.text "scale") with
  | .scalar (.text "scale") =>
    let spread := Numbers.variance (rows.flatMap Array.toList)
    if spread == 0.0 then 1.0 else 1.0 / (Float.ofNat width * spread)
  | .scalar (.text _) => 1.0 / Float.ofNat width
  | v => v.number?.getD 1.0

def kernelOf (o : Options) (rows : Rows) (width : Nat) : Except Failure Kernel :=
  let gamma := gammaOf o rows width
  let constant := Parameters.number o "coef0" 0.0
  match Parameters.choice o "kernel" "rbf" with
  | "linear" => .ok .linear
  | "poly" => .ok (.polynomial gamma constant (Float.ofNat (Parameters.count o "degree" 3)))
  | "sigmoid" => .ok (.sigmoid gamma constant)
  | "precomputed" => if rows.length = width then .ok .given else .error (.unusable .value)
  | _ => .ok (.radial gamma)

/-- At most so many moves; without a limit they end by themselves. -/
def movesOf (o : Options) : Nat :=
  match o.getD "max_iter" (.int (-1)) with
  | .scalar (.int n) => if n < 0 then 10000000 else n.toNat
  | _ => 10000000

def classifier : LearningMethod where
  parameters := parameters
  learn o X y := do
    let rows ← rowsOf false X
    let t ← Target.ofClasses y
    let classes := t.classes.size
    let classWeights ← t.classWeights (o.getD "class_weight" .null)
    if classes < 2 then throw (.unusable .value)
    let kernel ← kernelOf o rows X.columns.length
    let limit := Parameters.number o "C" 1.0
    let known := rows.zipIdx.map fun p => (⟨p.1, p.2⟩ : Known)
    let ground : Ground := ⟨kernel, Parameters.number o "tol" 0.001, movesOf o, known.zip t.codes,
      classWeights.map (limit * ·)⟩
    let borders := ground.borders classes
    let depths (X : Frame) : Except Failure (List (List (Border × Float))) := do
      return (← rowsOf false X).map fun row => borders.map fun b => (b, b.depth kernel row)
    let isGraded := Parameters.flag o "break_ties" false && 2 < classes
    let isPaired := Parameters.choice o "decision_function_shape" "ovr" == "ovo"
    let count := if isGraded then graded classes else votes classes
    let choices (X : Frame) : Except Failure Column := do
      if isPaired && Parameters.flag o "break_ties" false then throw (.unusable .value)
      return t.column ((← depths X).map fun row => greatestAt (count row).toList)
    let shares (X : Frame) : Except Failure Frame := do
      return t.shares X ((← depths X).map fun row =>
        (votes classes row).map (· / Float.ofNat borders.length))
    return ⟨fun X => choices X,
      if Parameters.flag o "probability" false then some fun X => shares X else none⟩

end ColumnFlow.Learn.Margin
