import ColumnFlow.Learn.Samples
import ColumnFlow.Numbers.Statistics

/-!
Learners that look at one column or at none. They read the cells as they are, so that features need
not be numbers, and their answers are as narrow as the cells allow.
-/
namespace ColumnFlow.Learn

/-- A model with labels only. -/
def labelsOnly (predict : Frame → Logged (List Value)) : Model :=
  ⟨fun X => do return Column.infer .null (← predict X), none⟩

/-- The column named in the options, or else the first. A label that stands twice names none. -/
def columnOf (options : Options) (X : Frame) : Except Failure Column := do
  let label ← match options.getD "column" .null with
    | .scalar .null =>
      match X.labels with
      | l :: _ => pure l
      | [] => throw (.unusable .index)
    | v =>
      match v.label? with
      | some l => pure l
      | none => throw (.unusable .type)
  match X.named label with
  | [c] => return c
  | [] => throw (.unusable .key)
  | _ => throw (.unusable .attribute)

/-- How far apart two cells are: whole numbers and moments exactly. What is not a number has no
distance, and cells of different kinds cannot be compared. -/
def apart (a b : Value) : Except Failure Decimal.Exact :=
  match a, b with
  | .scalar (.moment s), .scalar (.moment t) => .ok (.finite (s.nanoseconds - t.nanoseconds).natAbs)
  | .scalar .never, .scalar (.moment _) | .scalar (.moment _), .scalar .never
  | .scalar .never, .scalar .never => .ok .nan
  | _, _ =>
    match Domain.whole? a, Domain.whole? b with
    | some m, some n => .ok (.finite (m - n).natAbs)
    | _, _ =>
      match a.number?, b.number? with
      | some x, some y => .ok (Decimal.Exact.ofFloat (x - y).abs)
      | _, _ => .error (.unusable .type)

/-- The position of the nearest cell, the first of equally near ones. -/
def nearestAt (v : Value) (known : List Value) : Except Failure Nat := do
  match ← known.mapM fun k => apart k v with
  | [] => throw (.unusable .value)
  | first :: rest =>
    let (place, _) := rest.zipIdx.foldl (fun (best : Nat × Decimal.Exact) p =>
      if p.1.less best.2 then (p.2 + 1, p.1) else best) (0, first)
    return place

/-- Answers with the target of the training row that is nearest in one column. -/
def nearest (options : Options) (X : Frame) (y : Series) : Logged (Option Model) := do
  let known := (← columnOf options X).cells
  let targets := y.cells.toArray
  return some (labelsOnly fun X => do
    let asked := (← columnOf options X).cells
    asked.mapM fun v => do return targets.getD (← nearestAt v known) .null)

/-- Labels with their counts, in the order of first occurrence. -/
def counts (cells : List Value) : List (Value × Nat) :=
  cells.foldl (fun found v =>
    if found.any fun p => p.1.sameLabel v then
      found.map fun p => if p.1.sameLabel v then (p.1, p.2 + 1) else p
    else found ++ [(v, 1)]) []

/-- The most frequent label, the first of equally frequent ones. -/
def commonest (found : List (Value × Nat)) : Value :=
  let best := found.foldl (fun m p => max m p.2) 0
  ((found.find? fun p => p.2 == best).map (·.1)).getD .null

/-- Answers with the most frequent target, of which there must be one; its probabilities are the
shares of the targets. -/
def majority (_ : Frame) (y : Series) : Logged (Option Model) := do
  if !y.cells.all fun v => v.label?.isSome then Logged.fail .type
  let found := counts y.cells
  let winner := commonest found
  let total := Float.ofNat y.rows
  return some ⟨fun X =>
      if found.isEmpty then Logged.fail .value
      else return Column.infer .null (List.replicate X.rows winner),
    some fun X => return ⟨X.index, found.map fun p =>
      Column.ofNumbers (Target.labelOf p.1) (List.replicate X.rows (Float.ofNat p.2 / total))⟩⟩

/-- The sum of whole numbers and truth values, if all cells are such. -/
def wholeSum? (cells : List Value) : Option Int :=
  cells.foldlM (fun total v => (Domain.whole? v).map (total + ·)) 0

def asNumber (v : Value) : Except Failure Float :=
  match v with
  | .scalar (.int n) => (Field.binaryOf n).elim (.error (.unusable .overflow)) .ok
  | v => v.number?.elim (.error (.unusable .type)) .ok

/-- The sum of numbers, exact for whole ones. -/
def totalOf (cells : List Value) : Except Failure Float :=
  match wholeSum? cells with
  | some n => asNumber (.int n)
  | none => (cells.mapM asNumber).map Numbers.sumInOrder

/-- Answers with the mean of the targets. -/
def mean (_ : Frame) (y : Series) : Logged (Option Model) := do
  let total ← totalOf y.cells
  let m := total / Float.ofNat y.rows
  return some (labelsOnly fun X => return List.replicate X.rows (.float m))

/-- Answers with the cells of one column. -/
def echo (options : Options) (_ : Frame) (_ : Series) : Logged (Option Model) :=
  return some (labelsOnly fun X => do return (← columnOf options X).cells)

/-- Answers with the number of rows it was trained on. -/
def count (X : Frame) (_ : Series) : Logged (Option Model) :=
  let rows : Value := .nat X.rows
  return some (labelsOnly fun X => return List.replicate X.rows rows)

end ColumnFlow.Learn
