import ColumnFlow.Frame.Basic
import ColumnFlow.Value.Options

/-!
Choosing columns. Numeric columns hold numbers other than truth values; categorical columns hold
texts, categories, truth values or mixed objects. A numeric column has low cardinality when it has
few distinct values, and indicator columns of zeros and ones always have. `resolve` prefers the
columns named in the options to a default choice.
-/
namespace ColumnFlow.Columns
open Decimal

/-- Numeric columns in frame order. A label that stands twice names no single column. -/
def numeric (f : Frame) : Except Failure (List Label) :=
  if Frame.hasRepeats f.labels then .error (.unusable .attribute)
  else .ok ((f.columns.filter (·.dtype.isNumeric)).map (·.label))

def categorical (f : Frame) : List Label :=
  (f.columns.filter (·.dtype.isCategorical)).map (·.label)

/-- Within a hundred-thousandth of `b`, and a hundred-millionth. -/
def isClose (a b : Float) : Bool := (a - b).abs ≤ 1e-8 + 1e-5 * b.abs

/-- The values that differ, each once, in the order of their first occurrence. -/
def distinct (cells : List Value) : List Key :=
  Key.distinct ((cells.filterMap Value.label?).map Scalar.key)

def present (c : Column) : List Value := c.cells.filter fun v => !v.isMissing

/-- Zeros and ones only, up to rounding. -/
def isIndicator (cells : List Value) : Bool :=
  (distinct cells).length ≤ 2 &&
    cells.all fun v => match v.number? with
      | some x => isClose x 0.0 || isClose x 1.0
      | none => false

/-- Whether a column has few distinct values; a limit is needed only for columns that are not
indicators, and it must be a number. -/
def isLow (limit : Value) (c : Column) : Except Failure Bool :=
  let cells := present c
  if cells.isEmpty then .ok false
  else if isIndicator cells then .ok true
  else match limit.number? with
    | some k => .ok (Float.ofNat (distinct cells).length ≤ k)
    | none => .error (.unusable .type)

def lowCardinality (limit : Value) (f : Frame) : Except Failure (List Label) := do
  let _ ← numeric f
  let low ← (f.columns.filter (·.dtype.isNumeric)).filterM (isLow limit)
  return low.map (·.label)

/-- The items of a value that lists some: a text its characters, and a table its keys. -/
def items : Value → Except Failure (List Value)
  | .list items | .tuple items => .ok items
  | .scalar (.text s) => .ok (s.toList.map fun c => .text (String.singleton c))
  | .dict entries => .ok (entries.map fun e => .scalar e.1)
  | _ => .error (.unusable .type)

/-- The labels that a value lists. -/
def listed (v : Value) : Except Failure (List Label) := do
  (← items v).mapM fun v => v.label?.elim (.error (.unusable .type)) .ok

/-- The columns a node acts on: those named in the options that the frame has, or else the default
choice, or else all. -/
def resolve (f : Frame) (options : Options)
    (choose : Option (Frame → Except Failure (List Label))) : Except Failure (List Label) := do
  let given := options.getD "columns" .null
  if given.isTrue then return (← listed given).filter f.has
  match choose with
  | some choose => return (← choose f).filter f.has
  | none => return f.labels

end ColumnFlow.Columns
