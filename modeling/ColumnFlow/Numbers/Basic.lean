import ColumnFlow.Frame.Basic

/-!
Frames as numbers, column by column. Texts that spell a number count as that number; other texts
are refused, and so are infinite numbers, frames without rows or columns, and frames whose column
labels are texts only in part, or repeat. Missing cells are what is not a number, where they are
allowed. A frame of moments alone has their nanoseconds as its numbers.
-/
namespace ColumnFlow.Numbers

/-- The number of a cell, if it has one. -/
def ofCell (v : Value) : Except Failure Float :=
  match v with
  | .scalar (.text s) =>
    match Field.spelled? s with
    | some x => .ok x
    | none => .error (.unusable .value)
  | .scalar (.int n) => (Field.binaryOf n).elim (.error (.unusable .overflow)) .ok
  | .scalar (.moment _) | .scalar (.tuple _) | .dict _ => .error (.unusable .type)
  | .scalar s => .ok (s.number?.getD Decimal.notANumber)
  | .list _ | .tuple _ => .error (.unusable .value)

/-- The number of a moment where all cells are moments. -/
def ofMoment (v : Value) : Float :=
  match v with
  | .scalar (.moment t) => t.number
  | _ => Moment.numberOfNever

/-- Labels that are all different, and all texts or none of them. -/
def checkLabels (labels : List Label) : Except Failure Unit :=
  if Frame.hasRepeats labels then .error (.unusable .duplicate)
  else if labels.all Label.isText || labels.all (fun l => !l.isText) then .ok ()
  else .error (.unusable .type)

/-- Labels that are all the same, in order. -/
def isSameList (a b : List Label) : Bool :=
  a.length == b.length && (a.zip b).all fun p => p.1.same p.2

/-- Labels must be those that were learned from, if both are texts, and otherwise as many. -/
def matchLabels (learned labels : List Label) : Except Failure Unit := do
  checkLabels labels
  let matching :=
    if learned.all Label.isText && labels.all Label.isText then isSameList learned labels
    else learned.length == labels.length
  if matching then return () else throw (.unusable .value)

/-- Whether some number may stand among features. -/
def isAllowed (missing : Bool) (x : Float) : Bool := !x.isInf && (missing || !x.isNaN)

/-- Numbers, of which some are refused. -/
def checkNumbers (missing : Bool) (numbers : List Float) : Except Failure (List Float) :=
  if numbers.all (isAllowed missing) then .ok numbers else .error (.unusable .value)

/-- The numbers of some cells. -/
def ofCells (missing : Bool) (cells : List Value) : Except Failure (List Float) := do
  checkNumbers missing (← cells.mapM ofCell)

def isMoment : Dtype → Bool
  | .datetime _ => true
  | _ => false

/-- Columns that are nothing but moments count as the numbers of their nanoseconds. -/
def areMoments (f : Frame) : Bool := f.columns.all fun c => isMoment c.dtype

/-- The numbers of all columns, whatever they are. -/
def raw (f : Frame) : Except Failure (List (List Float)) :=
  if areMoments f then .ok (f.columns.map fun c => c.cells.map ofMoment)
  else f.columns.mapM fun c => c.cells.mapM ofCell

/-- The numbers of all columns, of which there must be one, and one row. -/
def ofColumns (missing : Bool) (f : Frame) : Except Failure (List (List Float)) := do
  if f.rows = 0 || f.columns.isEmpty then throw (.unusable .value)
  (← raw f).mapM (checkNumbers missing)

/-- The numbers of all columns under labels that can be told apart. -/
def ofFrame (missing : Bool) (f : Frame) : Except Failure (List (List Float)) := do
  checkLabels f.labels
  ofColumns missing f

def isBool : Dtype → Bool
  | .bool => true
  | _ => false

def isShort : Dtype → Bool
  | .int8 | .bool => true
  | _ => false

/-- Whole numbers with a sign, and truth values. -/
def isWhole : Dtype → Bool
  | .int64 | .int8 | .bool => true
  | _ => false

/-- Whole numbers without a sign, and truth values. -/
def isNatural : Dtype → Bool
  | .uint64 | .bool => true
  | _ => false

def isObject : Dtype → Bool
  | .object => true
  | _ => false

/-- Texts and categories, which have kinds of their own. -/
def isExtended : Dtype → Bool
  | .text | .category .. => true
  | _ => false

/-- The narrowest kind that takes the cells of all columns. Texts beside truth values must be
numbers, and moments beside numbers have no common kind. -/
def commonKind (f : Frame) : Except Failure Dtype :=
  let all (p : Dtype → Bool) : Bool := f.columns.all fun c => p c.dtype
  let any (p : Dtype → Bool) : Bool := f.columns.any fun c => p c.dtype
  if all isBool then .ok .bool
  else if all isShort then .ok .int8
  else if all isWhole then .ok .int64
  else if all isNatural then .ok .uint64
  else if all fun d => isBool d || d.isNumeric then .ok .float64
  else if any isObject then .ok .object
  else if any isExtended then .ok (if any isBool then .float64 else .object)
  else if all isMoment then .ok (.datetime .nanoseconds)
  else .error (.unusable .type)

/-- Rows of numbers from columns of numbers. -/
def rowsOf (count : Nat) (columns : List (List Float)) : List (List Float) :=
  let table := columns.map List.toArray
  (List.range count).map fun i => table.filterMap fun column => column[i]?

/-- The numbers of all rows. -/
def rowsOfFrame (missing : Bool) (f : Frame) : Except Failure (List (List Float)) := do
  return rowsOf f.rows (← ofFrame missing f)

end ColumnFlow.Numbers
