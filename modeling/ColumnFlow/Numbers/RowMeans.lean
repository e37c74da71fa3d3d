import ColumnFlow.Numbers.Basic
import ColumnFlow.Value.Domain

/-!
Means of the rows of a frame. Missing cells are left out, and a row without cells has no mean.
Numbers have binary means. Where there are objects, or truth values beside numbers, the means are
objects too; texts of one row are then joined and count as the number that they spell, if they spell
one. Moments have a mean moment. Columns of texts and of categories have no means.
-/
namespace ColumnFlow.RowMeans

/-- What the cells of a row of objects add up to. -/
inductive Total where
  | whole (n : Int)
  | binary (x : Float)
  | joined (s : String)

def present (row : List Value) : List Value := row.filter fun v => !v.isMissing

/-- The texts of a row, if all its cells are texts. -/
def texts? (row : List Value) : Option (List String) :=
  row.mapM fun
    | .scalar (.text s) => some s
    | _ => none

/-- The total of a row of objects: a whole one of nothing but whole numbers and truth values. -/
def totalOf (row : List Value) : Except Failure Total :=
  match (present row).mapM Domain.whole?, (present row).mapM Value.number?, texts? row with
  | some ns, _, _ => .ok (.whole (ns.foldl (· + ·) 0))
  | none, some xs, _ => .ok (.binary (xs.foldl (· + ·) 0.0))
  | none, none, some (s :: rest) => .ok (.joined (rest.foldl (· ++ ·) s))
  | _, _, _ => .error (.unusable .type)

namespace Total

def isWhole : Total → Bool
  | .whole _ => true
  | _ => false

def isJoined : Total → Bool
  | .joined _ => true
  | _ => false

def number : Total → Except Failure Float
  | .whole n => (Field.binaryOf n).elim (.error (.unusable .overflow)) .ok
  | .binary x => .ok x
  | .joined s => (Field.spelled? s).elim (.error (.unusable .type)) .ok

/-- The numbers of all totals. Joined texts are numbers only beside whole totals. -/
def numbers (totals : List Total) : Except Failure (List Float) :=
  if totals.any isJoined && !totals.any isWhole then .error (.unusable .type)
  else totals.mapM number

end Total

/-- How many cells of a row are there, as a divisor. -/
def count (row : List Value) : Float := Float.ofNat (present row).length

def ofObjects (rows : List (List Value)) : Except Failure (List Value) := do
  let totals ← Total.numbers (← rows.mapM totalOf)
  return totals.zipWith (fun total row => .float (total / count row)) rows

/-- The mean of the numbers of a row. -/
def ofNumbers (row : List Value) : Value :=
  let numbers := (present row).filterMap Value.number?
  .float (numbers.foldl (· + ·) 0.0 / Float.ofNat numbers.length)

/-- How many nanoseconds moments are apart at least. -/
def step : Precision → Int
  | .nanoseconds => 1
  | .seconds => Moment.second

/-- The mean of the moments of a row, in whole steps. -/
def ofMoments (precision : Precision) (row : List Value) : Value :=
  let steps := row.filterMap fun
    | .scalar (.moment t) => some (Float.ofInt (t.nanoseconds.fdiv (step precision)))
    | _ => none
  if steps.isEmpty then .scalar .never
  else
    let mean := steps.foldl (· + ·) 0.0 / Float.ofNat steps.length
    .scalar (.moment ⟨mean.toInt64.toInt * step precision⟩)

/-- The precision of columns of moments, which is that of the first one. -/
def precisionOf (f : Frame) : Precision :=
  match f.columns with
  | ⟨_, .datetime precision, _⟩ :: _ => precision
  | _ => .nanoseconds

/-- Whether truth values stand beside other columns. -/
def mixesTruth (f : Frame) : Bool :=
  f.columns.any (fun c => Numbers.isBool c.dtype) && !f.columns.all fun c => Numbers.isBool c.dtype

/-- The mean of every row. -/
def ofFrame (f : Frame) : Except Failure Series := do
  let rows := f.rowCells
  let series (dtype : Dtype) (cells : List Value) : Series := ⟨⟨.null, dtype, cells⟩, f.index⟩
  if f.columns.any fun c => Numbers.isExtended c.dtype then throw (.unusable .type)
  else if Numbers.areMoments f then
    return series (.datetime (precisionOf f)) (rows.map (ofMoments (precisionOf f)))
  else if mixesTruth f || f.columns.any fun c => !Numbers.isBool c.dtype && !c.dtype.isNumeric then
    return series .object (← ofObjects rows)
  else return series .float64 (rows.map ofNumbers)

end ColumnFlow.RowMeans
