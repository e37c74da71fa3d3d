import ColumnFlow.Numbers.Basic
import ColumnFlow.Node.Leaf
import ColumnFlow.Split.Classes
import ColumnFlow.Value.Parameters

/-!
What learners learn from: rows of numbers, and targets that are classes or numbers. Classes are
numbered in increasing order. A table of shares has one column for every class.
-/
namespace ColumnFlow.Learn

/-- Rows of numbers of one length. -/
abbrev Rows := List (Array Float)

def rowsOf (missing : Bool) (X : Frame) : Except Failure Rows := do
  return (← Numbers.rowsOfFrame missing X).map List.toArray

/-- The classes of a target in increasing order, and the class of every row. -/
structure Target where
  dtype : Dtype
  classes : Array Value
  codes : List Nat

namespace Target

/-- The cell that first shows a class. -/
def firstOf (cells : List Value) (codes : List Nat) (c : Nat) : Value :=
  ((cells.zip codes).find? fun p => p.2 == c).elim .null (·.1)

def ofKeys (y : Series) (keys : List Key) : Except Failure Target := do
  let (codes, count) ← Classes.sortedCodes keys
  return ⟨y.dtype, ((List.range count).map (firstOf y.cells codes)).toArray, codes⟩

/-- A target of texts, or of numbers without fraction. -/
def ofClasses (y : Series) : Except Failure Target := do ofKeys y (← Classes.classKeys y)

/-- A target of known values that can be put in order. -/
def ofKnown (y : Series) : Except Failure Target := do ofKeys y (← Classes.keys y)

/-- A target of any values that can be put in order. -/
def ofAny (y : Series) : Except Failure Target := do ofKeys y (← Classes.anyKeys y)

/-- The column of some classes. -/
def column (t : Target) (codes : List Nat) : Column :=
  ⟨.null, t.dtype, codes.map fun c => t.classes.getD c .null⟩

def labelOf (v : Value) : Label := v.label?.getD .null

/-- Shares of the classes for every row. -/
def shares (t : Target) (X : Frame) (rows : List (Array Float)) : Frame :=
  ⟨X.index, t.classes.toList.zipIdx.map fun p =>
    Column.ofNumbers (labelOf p.1) (rows.map fun row => row.getD p.2 0.0)⟩

/-- How many rows each class has among some rows. -/
def tally (t : Target) (codes : List Nat) : Array Nat :=
  codes.foldl (fun counts c => counts.modify c (· + 1)) (Array.replicate t.classes.size 0)

/-- The tally as shares. -/
def tallyShares (t : Target) (codes : List Nat) : Array Float :=
  let total := Float.ofNat codes.length
  (t.tally codes).map fun n => Float.ofNat n / total

/-- One for a class and zero for all others. -/
def oneHot (t : Target) (code : Nat) : Array Float :=
  (Array.replicate t.classes.size 0.0).setIfInBounds code 1.0

/-- Weights that let every class count as much as any other. -/
def balanced (t : Target) : Array Float :=
  let rows := Float.ofNat t.codes.length
  (t.tally t.codes).map fun n => rows / (Float.ofNat t.classes.size * Float.ofNat n)

/-- Weights from a table; a class that is not in it weighs one, which is refused when the table
names others that are no classes. -/
def weightsIn (t : Target) (entries : Options) : Except Failure (Array Float) := do
  let named := t.classes.map fun c => (entries.find? fun e => c.sameLabel e.1).map (·.2)
  let isPartial := named.any (·.isNone)
  if isPartial && (named.filter (·.isSome)).size ≠ entries.length then throw (.unusable .value)
  named.mapM fun
    | some v => Numbers.ofCell v
    | none => .ok 1.0

/-- How much the rows of every class count, where that is asked for by a table or by name. -/
def classWeights (t : Target) (asked : Value) : Except Failure (Array Float) :=
  match asked with
  | .dict entries => t.weightsIn entries
  | .scalar (.text _) => .ok t.balanced
  | .list _ => .error (.unusable .parameter)
  | _ => .ok (Array.replicate t.classes.size 1.0)

end Target

/-- The position of the greatest number, the first of equals. What is not a number counts as the
greatest of all. -/
def greatestAt (xs : List Float) : Nat :=
  let (place, _) := xs.zipIdx.foldl (fun (best : Nat × Option Float) p =>
    match best.2 with
    | none => (p.2, some p.1)
    | some m =>
      if !m.isNaN && (p.1.isNaN || m < p.1) then (p.2, some p.1) else best) (0, none)
  place

/-- Numbers to be learned, all of them known. -/
def numbersOf (y : Series) : Except Failure (List Float) := Numbers.ofCells false y.cells

/-- Numbers to be learned, where moments count as their nanoseconds. -/
def quantitiesOf (y : Series) : Except Failure (List Float) :=
  if Numbers.isMoment y.dtype then Numbers.checkNumbers false (y.cells.map Numbers.ofMoment)
  else numbersOf y

/-- A column of numbers without a name. -/
def answers (xs : List Float) : Column := Column.ofNumbers .null xs

/-- A model that answers with numbers. -/
def regression (predict : Rows → List Float) : Model :=
  ⟨fun X => do return answers (predict (← rowsOf false X)), none⟩

/-- A model that answers with the class of the greatest share. -/
def classification (t : Target) (missing : Bool) (shares : Rows → List (Array Float)) : Model :=
  let rowShares (X : Frame) : Except Failure (List (Array Float)) := do
    return shares (← rowsOf missing X)
  ⟨fun X => do return t.column ((← rowShares X).map fun row => greatestAt row.toList),
    some fun X => do return t.shares X (← rowShares X)⟩

/-- Squared distance between two rows. -/
def distance (a b : Array Float) : Float :=
  (Array.zipWith (fun x y => if x.isNaN || y.isNaN then 0.0 else (x - y) * (x - y)) a b).foldl
    (· + ·) 0.0

end ColumnFlow.Learn
