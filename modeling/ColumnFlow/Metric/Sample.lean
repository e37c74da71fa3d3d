import ColumnFlow.Frame.Coercion

/-!
Samples: the values that a metric compares, in rows, or in nested rows of one shape. A frame gives
its first column. Objects that are all of one kind are taken as that kind, missing numbers make a
sample one of binary numbers, and texts of a column stay objects.
-/
namespace ColumnFlow

/-- Values of one kind, last dimension first to vary. -/
structure Sample where
  shape : List Nat
  dtype : Dtype
  cells : List Value

namespace Sample

/-- Texts of a column are objects, as missing ones may be among them. -/
def boxed : Dtype → Dtype
  | .text => .object
  | dtype => dtype

def line (dtype : Dtype) (cells : List Value) : Sample := ⟨[cells.length], boxed dtype, cells⟩

def ofColumn (c : Column) : Sample :=
  let plain := Series.dissolve c
  match plain.dtype with
  | .object =>
    let inferred := Column.infer c.label plain.cells
    line inferred.dtype inferred.cells
  | dtype => line dtype plain.cells

/-- Objects can be told apart in one dimension only. -/
def ofGrid (g : Grid) : Except Failure Sample :=
  match g.dtype with
  | .object =>
    if g.shape.length ≤ 1 then .ok (ofColumn (Column.ofObjects .null g.cells))
    else .error (.unusable .value)
  | dtype => .ok ⟨g.shape, dtype, g.cells⟩

def ofSeries (s : Series) : Sample := ofColumn s.column

def ofFrame (f : Frame) : Except Failure Sample :=
  match f.columns with
  | c :: _ => .ok (ofColumn c)
  | [] => .error (.unusable .index)

def ofData : Data → Except Failure Sample
  | .frame f => ofFrame f
  | .series s => .ok (ofSeries s)
  | .mapping entries => .ok (line .object [.dict entries])
  | .array v dtype => do ofGrid (← Grid.ofValue v dtype)
  | .plain v => do ofGrid (← Grid.ofValue v none)

/-- The number of rows; a single value has none. -/
def rows (s : Sample) : Except Failure Nat :=
  match s.shape with
  | n :: _ => .ok n
  | [] => .error (.unusable .type)

/-- How many values stand in a row. -/
def width (s : Sample) : Nat :=
  match s.shape with
  | [_, width] => width
  | _ => 1

/-- Whether the sample is a list of rows of several values. -/
def isWide (s : Sample) : Bool :=
  match s.shape with
  | [_, width] => 1 < width
  | _ => false

def isBinary (s : Sample) : Bool :=
  match s.dtype with
  | .float64 => true
  | _ => false

/-- Whether the values are whole numbers or truth values. -/
def isWhole (s : Sample) : Bool :=
  match s.dtype with
  | .int64 | .int8 | .uint64 | .bool => true
  | _ => false

def isObjects (s : Sample) : Bool :=
  match s.dtype with
  | .object => true
  | _ => false

/-- The first of two samples in the kind that both are compared in. -/
def comparable (s other : Sample) : List Value :=
  if s.isWhole && other.isBinary then s.cells.map Column.asFloat else s.cells

/-- The cells in rows. -/
def table (s : Sample) : List (List Value) :=
  let cells := s.cells.toArray
  (List.range (s.shape.headD 1)).map fun i =>
    (List.range s.width).filterMap fun j => cells[i * s.width + j]?

end Sample

/-- Shapes that agree when single rows are repeated; the last dimension stands first. -/
def commonShape? : List Nat → List Nat → Option (List Nat)
  | [], t => some t
  | s, [] => some s
  | a :: s, b :: t =>
    if a = b ∨ b = 1 then (commonShape? s t).map (a :: ·)
    else if a = 1 then (commonShape? s t).map (b :: ·)
    else none

/-- Where the cell at a position of the common shape stands in a shape. -/
def positionIn : List Nat → List Nat → Nat → Nat
  | a :: s, b :: t, k => (if a = 1 then 0 else k % b) + a * positionIn s t (k / b)
  | _, _, _ => 0

namespace Sample

/-- The cells, repeated to a common shape. -/
def spread (cells : List Value) (shape common : List Nat) : List Value :=
  let table := cells.toArray
  (List.range (common.foldl (· * ·) 1)).filterMap fun k => table[positionIn shape common k]?

/-- How many pairs of values are equal. -/
def hits (truth guess : Sample) : Except Failure Nat :=
  let s := truth.shape.reverse
  let t := guess.shape.reverse
  match commonShape? s t with
  | some common =>
    let xs := spread (truth.comparable guess) s common
    let ys := spread (guess.comparable truth) t common
    .ok ((xs.zip ys).countP fun p => p.1.equals p.2)
  | none => .error (.unusable .value)

end Sample
end ColumnFlow
