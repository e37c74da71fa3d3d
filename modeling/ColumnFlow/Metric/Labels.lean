import ColumnFlow.Frame.Detection
import ColumnFlow.Metric.Sample

/-!
Labels to compare. The values of a sample are labels when they are texts, moments or numbers without
fraction. Both sides must have equally many rows and labels of one family. Rows of several zeros and
ones mark several labels at once, and are compared mark by mark.
-/
namespace ColumnFlow

/-- The kinds of labels that can be compared with each other. -/
inductive LabelFamily where
  | texts
  | numbers
  | moments
  deriving DecidableEq

/-- What the values of a sample stand for. -/
inductive TargetKind where
  | unknown
  | continuous
  | classes
  | marks
  | several
  deriving DecidableEq

/-- Pairs of a true and a guessed label. -/
structure Pairs where
  pairs : List (Key × Key)

/-- Pairs of a true and a guessed mark, column by column. -/
structure Marks where
  columns : List (List (Float × Float))

/-- Two samples that can be compared. -/
inductive Compared where
  | labels (p : Pairs)
  | marks (m : Marks)

namespace Sample

def isText : Value → Bool
  | .scalar (.text _) => true
  | _ => false

/-- Whether the values can be put in order, which a single value always can. -/
def isSortable (s : Sample) : Bool :=
  !s.isObjects || s.cells.length ≤ 1 || s.cells.all isText
    || s.cells.all fun v => v.number?.isSome

/-- A number without fraction, within 64 bits. -/
def isIntegral (v : Value) : Bool :=
  match v with
  | .scalar (.float x) =>
    match Decimal.Exact.ofFloat x with
    | .finite q => q.den == 1 && -Decimal.wordBound ≤ q.num && q.num < Decimal.wordBound
    | _ => false
  | _ => true

/-- Rows of several marks, of which there are two at most. -/
def areMarks (s : Sample) : Bool :=
  s.isWide && (s.isWhole || (s.isBinary && s.cells.all isIntegral))
    && (Columns.distinct s.cells).length < 3

def startsWithText (s : Sample) : Bool :=
  match s.cells with
  | v :: _ => isText v
  | [] => false

def isFinite (v : Value) : Bool :=
  match v.number? with
  | some x => !(x.isNaN || x.isInf)
  | none => false

/-- What the values stand for. Fractions are refused when some numbers are not finite. -/
def targetKind (s : Sample) : Except Failure TargetKind :=
  if s.areMarks then .ok .marks
  else if s.shape.length ≠ 1 && s.shape.length ≠ 2 then .ok .unknown
  else if s.cells.isEmpty then .ok (if s.shape.length = 1 then .classes else .unknown)
  else if s.isObjects && !s.startsWithText then .ok .unknown
  else if s.isBinary && !s.cells.all isIntegral then
    if s.cells.all isFinite then .ok .continuous else .error (.unusable .value)
  else if !s.isSortable then .error (.unusable .type)
  else .ok (if s.isWide then .several else .classes)

def family (s : Sample) : LabelFamily :=
  match s.dtype with
  | .text | .object => .texts
  | .datetime _ => .moments
  | _ => .numbers

/-- The labels of the first of two samples, none of them missing. -/
def keys (s other : Sample) : Except Failure (List Key) :=
  (s.comparable other).mapM fun v =>
    match v.label? with
    | some l => if l.isMissing then .error (.unusable .value) else .ok l.key
    | none => .error (.unusable .type)

/-- Labels of different families: one of two numbers and one of two objects are told apart as
objects, and all others as labels. -/
def mixed (truth guess : Sample) : Failure :=
  let few (s : Sample) : Bool := (Columns.distinct s.cells).length ≤ 2
  if (truth.isObjects || guess.isObjects) && few truth && few guess then .unusable .type
  else .unusable .value

/-- The marks of two samples with equally many columns. -/
def marks (truth guess : Sample) : Except Failure Marks :=
  if truth.width ≠ guess.width then .error (.unusable .value)
  else
    let numbers (s : Sample) : List (List Float) :=
      s.table.map fun row => row.map fun v => v.number?.getD 0.0
    let rows := (numbers truth).zip (numbers guess)
    .ok ⟨(List.range truth.width).map fun j =>
      rows.map fun p => (p.1.getD j 0.0, p.2.getD j 0.0)⟩

end Sample

namespace Compared

/-- Two samples of as many rows, none of them empty. -/
def ofSamples (truth guess : Sample) : Except Failure Compared := do
  if (← truth.rows) ≠ (← guess.rows) then throw (.unusable .value)
  let kind ← truth.targetKind
  let other ← guess.targetKind
  if truth.cells.isEmpty || guess.cells.isEmpty || kind ≠ other then throw (.unusable .value)
  match kind with
  | .marks => return .marks (← Sample.marks truth guess)
  | .classes =>
    if truth.family ≠ guess.family then throw (Sample.mixed truth guess)
    return .labels ⟨(← truth.keys guess).zip (← guess.keys truth)⟩
  | _ => throw (.unusable .value)

/-- As before, but values that cannot be put in order are refused first of all. -/
def ofSorted (truth guess : Sample) : Except Failure Compared :=
  if truth.isSortable && guess.isSortable then ofSamples truth guess
  else .error (.unusable .type)

end Compared
namespace Marks

def size (m : Marks) : Nat := m.columns.foldl (fun n column => n + column.length) 0

def rows (m : Marks) : Nat := (m.columns.headD []).length

/-- Pairs of marks that differ. -/
def differing (m : Marks) : Nat :=
  m.columns.foldl (fun n column => n + column.countP fun p => p.1 != p.2) 0

/-- Rows in which all marks are the same. -/
def agreeing (m : Marks) : Nat :=
  (List.range m.rows).countP fun i => m.columns.all fun column =>
    match column[i]? with
    | some p => p.1 == p.2
    | none => true

end Marks

namespace Pairs

def size (p : Pairs) : Nat := p.pairs.length

/-- The labels of both sides in increasing order. -/
def labels (p : Pairs) : List Key :=
  (Key.distinct (p.pairs.map (·.1) ++ p.pairs.map (·.2))).mergeSort Key.le

/-- Pairs with the same label on both sides. -/
def agreeing (p : Pairs) : Nat := p.pairs.countP fun t => t.1 == t.2

def inBoth (p : Pairs) (k : Key) : Nat := p.pairs.countP fun t => t.1 == k && t.2 == k

def inTruth (p : Pairs) (k : Key) : Nat := p.pairs.countP fun t => t.1 == k

def inGuess (p : Pairs) (k : Key) : Nat := p.pairs.countP fun t => t.2 == k

end Pairs
end ColumnFlow
