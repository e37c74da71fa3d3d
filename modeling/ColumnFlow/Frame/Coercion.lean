import ColumnFlow.Frame.Inference

/-!
Features and targets from data of any form. Features become a frame, with the names x0, x1, … where
the data has none. A target becomes a series of the features' rows: its values in their own order,
under the features' row labels, whatever labels it had itself.
-/
namespace ColumnFlow

inductive Data where
  | frame (f : Frame)
  | series (s : Series)
  | mapping (entries : List (Label × Value))
  | array (values : Value) (dtype : Option String)
  | plain (value : Value)
  deriving Inhabited

namespace Data

def positional (i : Nat) : Label := .text s!"x{i}"

/-- One column as it is, or a column for every position of a row. -/
def ofGrid (g : Grid) : Except Failure Frame :=
  match g.shape with
  | [rows] => .ok ⟨rangeIndex rows, [Grid.column (positional 0) g.dtype g.cells]⟩
  | [rows, width] =>
    .ok ⟨rangeIndex rows, (List.range width).map fun i =>
      Grid.column (positional i) g.dtype (Grid.stride g.cells width i rows)⟩
  | shape => .error (.mismatch (.featureDimensions shape.length))

def itemsOf : Value → Option (List Value)
  | .list items | .tuple items => some items
  | _ => none

/-- A column of a table of columns: a list, which holds binary numbers if it is empty, a table of
cells by row label, where none is not a number, or a single value repeated, whose kind does not
depend on how often. -/
def mappedColumn (index : List Label) (label : Label) (v : Value) : Column :=
  match v with
  | .list [] | .tuple [] => ⟨label, .float64, []⟩
  | .list cells | .tuple cells => Column.infer label cells
  | .dict cells => Column.infer label (index.map fun row =>
      (cells.find? fun e => e.1.same row).elim (.float Decimal.notANumber) (·.2))
  | v => { Column.infer label [v] with cells := index.map fun _ => v }

/-- The labels of the rows of columns that are tables, each once. -/
def rowLabels (entries : List (Label × Value)) : Option (List Label) :=
  let tables := entries.filterMap fun e =>
    match e.2 with
    | .dict cells => some (cells.map (·.1))
    | _ => none
  if tables.isEmpty then none
  else some (tables.flatten.foldl (fun found l => if l.isIn found then found else found ++ [l]) [])

/-- A table of columns: lists of one length or tables of cells, but not both, and single values
repeated for every row. -/
def ofMapping (entries : List (Label × Value)) : Except Failure Frame :=
  let frame (index : List Label) : Except Failure Frame :=
    .ok ⟨index, entries.map fun e => mappedColumn index e.1 e.2⟩
  match entries.filterMap fun e => (itemsOf e.2).map List.length, rowLabels entries with
  | [], some index => frame index
  | [], none => if entries.isEmpty then frame [] else .error (.unusable .value)
  | rows :: others, none =>
    if others.all (· == rows) then frame (rangeIndex rows) else .error (.unusable .value)
  | _, _ => .error (.unusable .value)

/-- Features as a frame. -/
def toFrame : Data → Except Failure Frame
  | .frame f => .ok f
  | .series s =>
    match s.name with
    | .null => .ok (Series.toFrame ⟨s.column.rename (positional 0), s.index⟩)
    | _ => .ok s.toFrame
  | .mapping entries => ofMapping entries
  | .array v dtype => do ofGrid (← Grid.ofValue v dtype)
  | .plain v => do ofGrid (← Grid.ofValue v none)

/-- The number of items, where there is one. -/
def length : Data → Except Failure Nat
  | .frame f => .ok f.rows
  | .series s => .ok s.rows
  | .mapping entries => .ok entries.length
  | .array v _ =>
    match itemsOf v with
    | some items => .ok items.length
    | none => .error (.unusable .type)
  | .plain v =>
    match v with
    | .list items | .tuple items => .ok items.length
    | .dict entries => .ok entries.length
    | .scalar (.text s) => .ok s.length
    | _ => .error (.unusable .type)

def isNone : Data → Bool
  | .plain v => v.isNull
  | _ => false

end Data

/-- Features and target must have equally many rows. -/
def checkLengths (f : Frame) (target : Nat) : Except Failure Unit :=
  if f.rows = target then .ok () else .error (.mismatch (.lengths f.rows target))

/-- Fails unless the data has as many items as the features have rows. -/
def checkAlignment (f : Frame) (d : Data) : Except Failure Unit := do
  checkLengths f (← d.length)

namespace Series

/-- The plain column that a column stands for: categories become what their levels are. -/
def dissolve (c : Column) : Column :=
  match c.dtype with
  | .category kind _ =>
    match kind with
    | .int64 | .int8 | .uint64 | .float64 =>
      if c.cells.any Value.isMissing then ⟨c.label, .float64, c.cells.map Column.asFloat⟩
      else ⟨c.label, kind, c.cells⟩
    | .bool =>
      if c.cells.any Value.isMissing then Column.ofObjects c.label c.cells
      else ⟨c.label, .bool, c.cells⟩
    | .datetime p => ⟨c.label, .datetime p, c.cells.map Column.neverIfMissing⟩
    | _ => Column.ofObjects c.label c.cells
  | .text | .object => Column.ofObjects c.label c.cells
  | _ => c

/-- A target for some features: the same values under the features' row labels. -/
def align (s : Series) (f : Frame) : Except Failure Series := do
  checkLengths f s.rows
  return ⟨dissolve s.column, f.index⟩

/-- The same for a column that is a plain one already. -/
def place (s : Series) (f : Frame) : Except Failure Series := do
  checkLengths f s.rows
  return s.withIndex f.index

end Series

/-- A grid of one dimension as a series named `target`. -/
def Grid.toSeries (g : Grid) : Except Failure Series :=
  match g.shape with
  | [rows] => .ok ⟨Grid.column (.text "target") g.dtype g.cells, rangeIndex rows⟩
  | shape => .error (.mismatch (.targetDimensions shape.length))

/-- A target from data of any form, under its own row labels; the name is that of a series, and
`target` otherwise. -/
def Data.toSeries (d : Data) : Except Failure (Option Series) :=
  match d with
  | .series s => .ok (some s)
  | .frame t =>
    match t.columns with
    | [c] => .ok (some ⟨c, t.index⟩)
    | _ => .error (.mismatch (.targetColumns t.labels))
  | .mapping _ => .error (.mismatch (.targetDimensions 0))
  | .array v dtype => do return some (← (← Grid.ofValue v dtype).toSeries)
  | .plain v =>
    if v.isNull then .ok none else do return some (← (← Grid.ofValue v none).toSeries)

/-- A target that may be absent, for some features. -/
def alignTarget (y : Option Series) (f : Frame) : Except Failure (Option Series) :=
  match y with
  | none => .ok none
  | some s => (s.align f).map some

/-- A target for some features from data of any form. A grid that has become a series is not taken
apart again, so that a grid of texts is a target of texts also where it has no cells. -/
def Data.toTarget (d : Data) (f : Frame) : Except Failure (Option Series) := do
  let y ← d.toSeries
  match d with
  | .array .. | .plain .. => y.mapM (·.place f)
  | _ => alignTarget y f

end ColumnFlow
