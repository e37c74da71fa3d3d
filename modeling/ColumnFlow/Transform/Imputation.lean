import ColumnFlow.Frame.Inference
import ColumnFlow.Transform.Mapping

/-!
Filling missing cells, which are told by what is not a number or by another value. Every column has
one filler: its mean, its median, its most frequent value or a constant. Columns without any value
are filled with zero, or dropped. Indicator columns may tell
where cells were missing. The most frequent value and a constant can also fill texts, and they
leave whole numbers whole.
-/
namespace ColumnFlow.Imputation

inductive Strategy where
  | mean
  | median
  | mostFrequent
  | constant

namespace Strategy

def names : List String := ["mean", "median", "most_frequent", "constant"]

def read (o : Options) : Strategy :=
  match Parameters.choice o "strategy" "mean" with
    | "mean" => .mean
    | "median" => .median
    | "most_frequent" => .mostFrequent
    | _ => .constant

/-- Whether the columns need not be numbers. -/
def takesTexts : Strategy → Bool
  | .mostFrequent | .constant => true
  | _ => false

end Strategy

structure Choices where
  strategy : Strategy
  /-- The value that stands for a missing cell. -/
  gap : Value
  filler : Value
  indicators : Bool
  keepEmpty : Bool

def isNotANumber : Value → Bool
  | .scalar s => s.isNotANumber
  | _ => false

/-- Whether a cell differs from itself, as what is not a number does. -/
def isUnequal : Value → Bool
  | .scalar .never => true
  | v => isNotANumber v

namespace Choices

def read (o : Options) : Choices :=
  ⟨.read o, o.getD "missing_values" (.float Decimal.notANumber), o.getD "fill_value" .null,
    Parameters.flag o "add_indicator" false, Parameters.flag o "keep_empty_features" false⟩

/-- Whether missing cells are those that are not a number. -/
def skips (c : Choices) : Bool := isNotANumber c.gap

/-- Whether a cell is missing. -/
def isGap (c : Choices) (v : Value) : Bool :=
  if c.skips then isUnequal v else v.equals c.gap

def present (c : Choices) (cells : List Value) : List Value := cells.filter fun v => !c.isGap v

end Choices

/-- The kind of all cells: whole numbers, binary numbers or objects. -/
inductive Family where
  | whole (dtype : Dtype)
  | binary
  | objects

def Family.isObjects : Family → Bool
  | .objects => true
  | _ => false

/-- The kind of the cells of a frame; truth values alone are refused, and so are moments. -/
def Family.ofFrame (f : Frame) : Except Failure Family := do
  match ← Numbers.commonKind f with
  | .bool | .datetime _ => throw (.unusable .value)
  | .float64 => return .binary
  | .object => return .objects
  | kind => return .whole kind

/-- Cells that are not a number are refused where they do not stand for missing ones. -/
def checkObjects (choices : Choices) (columns : List (List Value)) : Except Failure Unit :=
  if choices.skips || columns.all (fun cells => cells.all fun v => !isUnequal v) then .ok ()
  else .error (.unusable .value)

/-- Among numbers missing cells are told by a number. -/
def checkGap (choices : Choices) (family : Family) : Except Failure Unit :=
  match family with
  | .objects => .ok ()
  | _ => if choices.gap.number?.isSome then .ok () else .error (.unusable .value)

/-- The cells of all columns in a family. -/
def cellsIn (choices : Choices) (f : Frame) : Family → Except Failure (List (List Value))
  | .whole _ => return f.columns.map fun c => c.cells.map Grid.intOf
  | .objects => do
    let columns := f.columns.map (·.cells)
    checkObjects choices columns
    return columns
  | .binary => do
    return (← Numbers.ofFrame choices.skips f).map fun xs => xs.map .float

/-- The cells of all columns in the kind that the strategy works on. What has learned from objects
takes all cells for objects. -/
def read (choices : Choices) (asObjects : Bool) (f : Frame) :
    Except Failure (Family × List (List Value)) := do
  Numbers.checkLabels f.labels
  if f.rows = 0 || f.columns.isEmpty then throw (.unusable .value)
  let family ←
    if choices.strategy.takesTexts then if asObjects then pure .objects else Family.ofFrame f
    else pure .binary
  let cells ← cellsIn choices f family
  checkGap choices family
  return (family, cells)

def numbersOf (cells : List Value) : List Float := cells.filterMap Value.number?

/-- The order of cells of one kind, where they have one. -/
def precedes? (a b : Value) : Option Bool :=
  match a, b with
  | .scalar (.text s), .scalar (.text t) => some (decide (s < t))
  | .scalar (.moment s), .scalar (.moment t) => some (decide (s.nanoseconds < t.nanoseconds))
  | .scalar s, .scalar t =>
    match s.number?, t.number? with
    | some _, some _ => some (Key.le s.key t.key && s.key != t.key)
    | _, _ => none
  | _, _ => none

/-- The order of cells of different kinds: that of the words for their kinds. -/
def precedes (a b : Value) : Bool :=
  if a.kind == b.kind then (precedes? a b).getD false else decide (a.kind < b.kind)

/-- The first of some cells in their common order, or else by kind. -/
def smallest (cells : List Value) : Value :=
  let comparable := cells.all fun a => cells.all fun b =>
    a.sameLabel b || (precedes? a b).isSome
  let before (a b : Value) : Bool :=
    if comparable then (precedes? a b).getD false else precedes a b
  match cells with
  | [] => .null
  | first :: rest => rest.foldl (fun m v => if before v m then v else m) first

/-- The smallest of the most frequent cells. -/
def commonest (cells : List Value) : Value :=
  let count (v : Value) : Nat := cells.countP v.sameLabel
  let best := cells.foldl (fun m v => max m (count v)) 0
  smallest (cells.filter fun v => count v == best)

/-- A number in the kind of the other cells. -/
def ofNumber (family : Family) (x : Float) : Value :=
  match family with
  | .whole _ => Column.wholeOf (.float x)
  | _ => .float x

/-- What fills a column, if it has any value to learn from. -/
def fillerOf (choices : Choices) (family : Family) (cells : List Value) : Option Value :=
  let known := choices.present cells
  match choices.strategy with
  | .constant =>
    if choices.filler.isNull then
      match family with
      | .objects => some (.text "missing_value")
      | _ => some (ofNumber family 0.0)
    else some choices.filler
  | .mean => if known.isEmpty then none else some (.float (Numbers.mean (numbersOf known)))
  | .median => if known.isEmpty then none else some (.float (Numbers.median (numbersOf known)))
  | .mostFrequent =>
    if known.isEmpty then none
    else match family with
      | .objects => some (commonest known)
      | _ => some (ofNumber family (Numbers.mode (numbersOf known)))

/-- Whether whole numbers of one kind may stand among those of another. -/
def fits (learned current : Dtype) : Bool :=
  match learned, current with
  | .uint64, .uint64 => true
  | .uint64, _ => true
  | _, .uint64 => false
  | _, _ => true

/-- A constant must be of the kind of the cells it fills. -/
def checkFiller (choices : Choices) (family : Family) : Except Failure Unit :=
  match choices.strategy, family with
  | .constant, .whole dtype =>
    match choices.filler with
    | .scalar .null | .scalar (.bool _) => .ok ()
    | .scalar (.int n) =>
      if fits .int64 dtype then (Grid.bounded dtype n).map fun _ => ()
      else .error (.unusable .value)
    | _ => .error (.unusable .value)
  | .constant, .binary =>
    match choices.filler with
    | .scalar .null | .scalar (.bool _) | .scalar (.float _) => .ok ()
    | .scalar (.int n) => (Field.binaryOf n).elim Grid.overflow fun _ => .ok ()
    | _ => .error (.unusable .value)
  | _, _ => .ok ()

/-- A constant that was learned must also be of the kind of the cells it fills later. -/
def checkLearned (choices : Choices) (learned current : Family) : Except Failure Unit :=
  match choices.strategy, learned, current with
  | .constant, .binary, .whole _ => .error (.unusable .value)
  | .constant, .whole d, .whole e => if fits d e then .ok () else .error (.unusable .value)
  | _, _, _ => .ok ()

/-- Fills the missing cells of a column. -/
def fill (choices : Choices) (family : Family) (filler : Value) (cells : List Value) : Column :=
  let filled := cells.map fun v => if choices.isGap v then filler else v
  match family with
  | .whole dtype => ⟨.null, dtype, filled⟩
  | .binary => ⟨.null, .float64, filled.map Column.asFloat⟩
  | .objects => Column.ofObjects .null filled

/-- Ones where cells are missing, as numbers or as truth values among objects. -/
def indicator (choices : Choices) (family : Family) (cells : List Value) : Column :=
  match family with
  | .whole dtype => ⟨.null, dtype, cells.map fun v => .int (if choices.isGap v then 1 else 0)⟩
  | .binary => Column.ofNumbers .null (cells.map fun v => if choices.isGap v then 1.0 else 0.0)
  | .objects => ⟨.null, .object, cells.map fun v => .bool (choices.isGap v)⟩

/-- What becomes of a column: its filler, if it is kept, and whether it gets an indicator. -/
structure Treatment where
  label : Label
  filler : Option Value
  flagged : Bool

namespace Treatment

/-- Without a value to learn from, a column is filled with zero if it is to be kept. Of columns that
are not to be kept, those go too whose filler is not a number. -/
def learn (choices : Choices) (family : Family) (label : Label) (cells : List Value) : Treatment :=
  let found := fillerOf choices family cells
  let isEmpty := (choices.present cells).isEmpty
  let kept :=
    if choices.keepEmpty then some (found.getD (ofNumber family 0.0))
    else if isEmpty then none
    else found.filter fun v => !isUnequal v
  ⟨label, kept, choices.indicators && cells.any choices.isGap⟩

/-- The name of the filled column; one that is filled with what is not a number has none. -/
def name? (t : Treatment) : Option String :=
  t.filler.bind fun v => if isUnequal v then none else some t.label.plain

def indicatorName (t : Treatment) : String := "missingindicator_" ++ t.label.plain

end Treatment

/-- The names of the filled columns, then those of the indicators. -/
def names (treatments : List Treatment) : List String :=
  treatments.filterMap Treatment.name?
    ++ (treatments.filter (·.flagged)).map Treatment.indicatorName

/-- Cells can be counted only where all of them are labels. -/
def checkCounted (choices : Choices) (columns : List (List Value)) : Except Failure Unit :=
  match choices.strategy with
  | .mostFrequent =>
    if columns.all fun cells => cells.all fun v => v.label?.isSome then .ok ()
    else .error (.unusable .type)
  | _ => .ok ()

def apply (choices : Choices) (learned : Family) (treatments : List Treatment) (X : Frame) :
    Except Failure (List Column) := do
  let (family, cells) ← read choices learned.isObjects X
  checkLearned choices learned family
  let filled := (treatments.zip cells).filterMap fun p =>
    p.1.filler.map fun filler => fill choices family filler p.2
  let flags := (treatments.zip cells).filterMap fun p =>
    if p.1.flagged then some (indicator choices family p.2) else none
  return filled ++ flags

def simple : Method where
  name := "SimpleImputer"
  parameters := [⟨"missing_values", [.single]⟩, .choice "strategy" Strategy.names,
    ⟨"fill_value", [.anything]⟩, .flag "copy", .flag "add_indicator", .flag "keep_empty_features"]
  learn o f := do
    let choices := Choices.read o
    let (family, cells) ← read choices false f
    checkFiller choices family
    checkCounted choices cells
    let treatments := (f.labels.zip cells).map fun p => Treatment.learn choices family p.1 p.2
    let names := names treatments
    return ⟨some names, names.length, apply choices family treatments⟩

end ColumnFlow.Imputation
