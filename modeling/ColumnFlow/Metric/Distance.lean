import ColumnFlow.Metric.Sample
import ColumnFlow.Numbers.Statistics

/-!
Distances between numbers. Texts are read as numbers; missing and infinite numbers are refused.
Scores of a column take the way in which its numbers are added: columns that stand side by side are
added up row by row, and so in order.
-/
namespace ColumnFlow.Distance

/-- The number of a cell, read from its text if it is one. -/
def numberOf : Value → Except Failure Float
  | .scalar (.text s) =>
    match Field.spelled? s with
    | some x => .ok x
    | none => .error (.unusable .value)
  | .scalar .null => .ok Decimal.notANumber
  | .scalar (.moment t) => .ok t.number
  | .scalar .never => .ok Moment.numberOfNever
  | v => v.number?.elim (.error (.unusable .type)) .ok

/-- The numbers of a sample, column by column. -/
def columnsOf (s : Sample) : Except Failure (List (List Float)) := do
  if 2 < s.shape.length then throw (.unusable .value)
  let numbers ← s.table.mapM fun row => row.mapM numberOf
  if numbers.all (fun row => row.all fun x => !(x.isNaN || x.isInf)) then
    return (List.range s.width).map fun j => numbers.map fun row => row.getD j 0.0
  else throw (.unusable .value)

/-- Pairs of a true and a guessed number, column by column. -/
def numbersOf (truth guess : Sample) : Except Failure (List (List (Float × Float))) := do
  if (← truth.rows) ≠ (← guess.rows) then throw (.unusable .value)
  let xs ← columnsOf truth
  let ys ← columnsOf guess
  if truth.cells.isEmpty || guess.cells.isEmpty || xs.length ≠ ys.length then
    throw (.unusable .value)
  return xs.zipWith List.zip ys

def square (x : Float) : Float := x * x

/-- A way to add numbers. -/
abbrev Adding := List Float → Float

def meanBy (add : Adding) (xs : List Float) : Float := add xs / Float.ofNat xs.length

def meanSquare (add : Adding) (ps : List (Float × Float)) : Float :=
  meanBy add (ps.map fun p => square (p.1 - p.2))

def meanAbsolute (add : Adding) (ps : List (Float × Float)) : Float :=
  meanBy add (ps.map fun p => (p.1 - p.2).abs)

/-- The mean of a score over all columns. -/
def averaged (score : Adding → List (Float × Float) → Float)
    (columns : List (List (Float × Float))) : Float :=
  let add := if columns.length ≤ 1 then Numbers.sum else Numbers.sumInOrder
  Numbers.mean (columns.map (score add))

def rootMeanSquare (columns : List (List (Float × Float))) : Float :=
  Float.sqrt (averaged meanSquare columns)

/-- The explained share of the variation of the truth; undefined for one pair, and for a constant
truth one if all is explained and zero otherwise. -/
def explained (add : Adding) (ps : List (Float × Float)) : Float :=
  if ps.length < 2 then Decimal.notANumber
  else
    let center := meanBy add (ps.map (·.1))
    let rest := add (ps.map fun p => square (p.1 - p.2))
    let whole := add (ps.map fun p => square (p.1 - center))
    if rest == 0.0 then 1.0 else if whole == 0.0 then 0.0 else 1.0 - rest / whole

end ColumnFlow.Distance
