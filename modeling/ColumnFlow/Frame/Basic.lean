import ColumnFlow.Failure
import ColumnFlow.Frame.Labels

/-!
Frames: columns of equal length with labels, over rows with labels. Column labels may repeat, and
so may row labels. Selecting by a label takes every column with that label. Rows are taken by
position, in any order and with repeats.
-/
namespace ColumnFlow

/-- How finely moments are told apart. -/
inductive Precision where
  | seconds
  | nanoseconds
  deriving Inhabited, DecidableEq

/-- What the cells of a column are. A category column lists its levels and says what they are. -/
inductive Dtype where
  | int64
  | int8
  | uint64
  | float64
  | bool
  | text
  | object
  | category (kind : Dtype) (levels : List Value)
  | datetime (precision : Precision)
  deriving Inhabited

namespace Dtype

def name : Dtype → String
  | .int64 => "int64"
  | .int8 => "int8"
  | .uint64 => "uint64"
  | .float64 => "float64"
  | .bool => "bool"
  | .text => "str"
  | .object => "object"
  | .category .. => "category"
  | .datetime .nanoseconds => "datetime64[ns]"
  | .datetime .seconds => "datetime64[s]"

/-- Whole and binary numbers; truth values are not numbers. -/
def isNumeric : Dtype → Bool
  | .int64 | .int8 | .uint64 | .float64 => true
  | _ => false

def isCategorical : Dtype → Bool
  | .object | .text | .category .. | .bool => true
  | _ => false

end Dtype

structure Column where
  label : Label
  dtype : Dtype
  cells : List Value
  deriving Inhabited

/-- A column over labelled rows. The label is null where a series has no name. -/
structure Series where
  column : Column
  index : List Label
  deriving Inhabited

structure Frame where
  index : List Label
  columns : List Column
  deriving Inhabited

/-- The items at some positions, in their order. -/
def pick {α : Type} (positions : List Nat) (items : List α) : List α :=
  let table := items.toArray
  positions.filterMap fun i => table[i]?

/-- The labels 0, 1, … -/
def rangeIndex (n : Nat) : List Label := (List.range n).map fun (i : Nat) => .int i

namespace Column

def takeRows (c : Column) (positions : List Nat) : Column :=
  { c with cells := pick positions c.cells }

def rename (c : Column) (label : Label) : Column := { c with label }

/-- The cells as numbers; what has no number is not a number. -/
def numbers (c : Column) : List Float := c.cells.map fun v => v.number?.getD Decimal.notANumber

def ofNumbers (label : Label) (xs : List Float) : Column :=
  ⟨label, .float64, xs.map .float⟩

end Column

namespace Series

def name (s : Series) : Label := s.column.label

def cells (s : Series) : List Value := s.column.cells

def dtype (s : Series) : Dtype := s.column.dtype

def rows (s : Series) : Nat := s.column.cells.length

def takeRows (s : Series) (positions : List Nat) : Series :=
  ⟨s.column.takeRows positions, pick positions s.index⟩

def toFrame (s : Series) : Frame := ⟨s.index, [s.column]⟩

def withIndex (s : Series) (index : List Label) : Series := { s with index }

/-- A column over rows with labels as they were given. -/
def labelled (index : List Label) (c : Column) : Series := ⟨c, Labels.unified index⟩

end Series

namespace Frame

def rows (f : Frame) : Nat := f.index.length

def labels (f : Frame) : List Label := f.columns.map (·.label)

/-- The frame of some columns over labelled rows, where the labels of both are as they were
given. -/
def labelled (index : List Label) (columns : List Column) : Frame :=
  ⟨Labels.unified index,
    columns.zipWith Column.rename (Labels.unified (columns.map (·.label)))⟩

def has (f : Frame) (l : Label) : Bool := f.labels.any (Labels.foundAlone f.labels l)

/-- The columns with a label. -/
def named (f : Frame) (l : Label) : List Column :=
  let found := Labels.foundAlone f.labels l
  f.columns.filter fun c => found c.label

/-- What each of some labels finds, all of which must find some column. -/
def lookUp (f : Frame) (labels : List Label) : Except Failure (List (Label → Bool)) :=
  let lookups := (Labels.unified labels).map (Labels.found f.labels)
  if lookups.all f.labels.any then .ok lookups else .error (.unusable .key)

def takeRows (f : Frame) (positions : List Nat) : Frame :=
  ⟨pick positions f.index, f.columns.map (·.takeRows positions)⟩

/-- The position that the end of a range stands for: a negative one counts from the last row. -/
def boundOf (rows : Nat) (i : Int) : Nat := if i < 0 then rows - i.natAbs else min i.toNat rows

/-- The same for a value; null leaves the end open. -/
def bound (f : Frame) (v : Value) (default : Nat) : Except Failure Nat :=
  match v with
  | .scalar .null => .ok default
  | .scalar (.int i) => .ok (boundOf f.rows i)
  | _ => .error (.unusable .type)

/-- The rows from one position to another. -/
def rowsBetween (f : Frame) (low high : Value) : Except Failure Frame := do
  let low ← f.bound low 0
  let high ← f.bound high f.rows
  return f.takeRows ((List.range high).drop low)

/-- The position of a row, counted from the last one if it is negative. -/
def positionOf (f : Frame) (v : Value) : Except Failure Nat :=
  match v with
  | .scalar (.int i) =>
    if -(f.rows : Int) ≤ i ∧ i < f.rows then .ok (boundOf f.rows i) else .error (.unusable .index)
  | _ => .error (.unusable .type)

/-- The rows at some positions. -/
def rowsAt (f : Frame) (positions : List Value) : Except Failure Frame := do
  return f.takeRows (← positions.mapM f.positionOf)

/-- The rows that are marked by true, of marks for all rows. -/
def marked (f : Frame) (marks : List Label) : Except Failure Frame :=
  if marks.length = f.rows then
    .ok (f.takeRows ((marks.zipIdx.filter fun m => m.1.isTrue).map (·.2)))
  else .error (.unusable .value)

/-- The columns of each label in turn, every column with that label. A list of nothing but truth
values chooses rows. -/
def select (f : Frame) (labels : List Label) : Except Failure Frame := do
  if !labels.isEmpty && labels.all Label.isBool then f.marked labels
  else
    let lookups ← f.lookUp labels
    return { f with columns := lookups.flatMap fun found => f.columns.filter (found ·.label) }

/-- The frame without the columns of some labels, all of which must be there. -/
def drop (f : Frame) (labels : List Label) : Except Failure Frame := do
  let lookups ← f.lookUp labels
  return { f with columns := f.columns.filter fun c => !lookups.any fun found => found c.label }

/-- Several columns, or a single one. -/
inductive Extract where
  | frame (f : Frame)
  | series (s : Series)

def Extract.toFrame : Extract → Frame
  | .frame f => f
  | .series s => s.toFrame

/-- The columns that a value names: a list several, and anything else those it is the label of. -/
def extract (f : Frame) : Value → Except Failure Extract
  | .list items =>
    match Value.labels? items with
    | some labels => (f.select labels).map .frame
    | none => .error (.unusable .type)
  | v =>
    match v.label? with
    | some l =>
      match f.named l with
      | [] => .error (.unusable .key)
      | [c] => .ok (.series ⟨c, f.index⟩)
      | columns => .ok (.frame { f with columns })
    | none => .error (.unusable .type)

def withIndex (f : Frame) (index : List Label) : Frame := { f with index }

/-- The columns of one frame, then those of the other, over the rows of the first. -/
def beside (f g : Frame) : Frame := { f with columns := f.columns ++ g.columns }

/-- Gives the columns new labels, from the left. -/
def relabel (f : Frame) (labels : List Label) : Frame :=
  { f with columns := f.columns.zipWith Column.rename (Labels.unified labels) }

def firstColumn? (f : Frame) : Option Series := f.columns.head?.map fun c => ⟨c, f.index⟩

/-- Whether some label stands twice. -/
def hasRepeats : List Label → Bool
  | [] => false
  | l :: rest => rest.any l.finds || hasRepeats rest

/-- As many new labels as there are columns. -/
def relabelAll (f : Frame) (labels : List Label) : Except Failure Frame :=
  if labels.length = f.columns.length then .ok (f.relabel labels) else .error (.unusable .value)

/-- New columns under the labels that a value lists, or under numbers if it is null. -/
def relabelAs (f : Frame) : Value → Except Failure Frame
  | .scalar .null => .ok (f.relabel (rangeIndex f.columns.length))
  | .list items | .tuple items =>
    match Value.labels? items with
    | some labels => f.relabelAll labels
    | none => .error (.unusable .type)
  | .dict entries => f.relabelAll (entries.map (·.1))
  | .scalar _ => .error (.unusable .type)

/-- The rows of a frame as lists of cells. -/
def rowCells (f : Frame) : List (List Value) :=
  (List.range f.rows).map fun i => f.columns.filterMap fun c => c.cells[i]?

end Frame
end ColumnFlow
