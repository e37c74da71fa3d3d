import ColumnFlow.Frame.Inference

/-!
Row-wise majority. In every row the label that most columns hold wins, and of labels held equally
often the one that stands furthest to the left. Missing texts are one label, and so are missing
moments and nulls; what is not a number is never the same label twice.
-/
namespace ColumnFlow.Majority

/-- How often a label of a row stands in the row. -/
def votes (row : List Value) (v : Value) : Nat := max 1 (row.countP v.sameLabel)

def mostVotes (row : List Value) : Nat := row.foldl (fun m v => max m (votes row v)) 0

/-- The position of the winning label. -/
def winner? (row : List Value) : Option Nat :=
  row.findIdx? fun v => votes row v == mostVotes row

/-- The winning cell of a row. -/
def winnerOf (row : List Value) : Except Failure Value :=
  if row.all fun v => v.label?.isSome then
    match (winner? row).bind fun i => row[i]? with
    | some v => .ok v
    | none => .error (.unusable .value)
  else .error (.unusable .type)

/-- The winners of all rows, as a series of the frame's rows. -/
def ofFrame (f : Frame) : Except Failure Series := do
  let winners ← f.rowCells.mapM winnerOf
  return ⟨Column.infer .null winners, f.index⟩

end ColumnFlow.Majority
