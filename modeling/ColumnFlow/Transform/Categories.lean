import ColumnFlow.Frame.Basic

/-!
Category labels as texts. Every cell becomes its text, so that a frame seen later has the same
labels as the frame seen first. Missing cells stay missing, or become a text of their own; a
category column cannot take that text unless it is one of its levels.
-/
namespace ColumnFlow.Categories

def missingText : String := "__missing__"

/-- The moments of a column. -/
def moments (cells : List Value) : List Moment :=
  cells.filterMap fun v => match v with
    | .scalar (.moment t) => some t
    | _ => none

/-- The text of a moment among others: without the time of day if all fall on midnight, and
otherwise with as many decimals as one of them needs. -/
def momentText (others : List Moment) : Value → String
  | .scalar (.moment t) =>
    if others.all Moment.isMidnight then t.dateText
    else t.renderTo (others.foldl (fun most m => max most m.decimals) 0) " "
  | v => v.plain

def hasLevel (levels : List Value) (s : String) : Bool :=
  levels.any fun v => match v with
    | .scalar (.text t) => t == s
    | _ => false

/-- The text of a cell that is not missing, and `missing` otherwise. -/
def textCell (missing : Value) (text : Value → String) (v : Value) : Value :=
  if v.isMissing then missing else .text (text v)

/-- The texts of a column. -/
def prepareColumn (includeMissing : Bool) (c : Column) : Except Failure Column := do
  let filled := includeMissing && c.cells.any Value.isMissing
  let missing : Value := if filled then .text missingText else .scalar .absent
  match c.dtype with
  | .category _ levels =>
    if filled && !hasLevel levels missingText then throw (.unusable .type)
    return ⟨c.label, .text, c.cells.map (textCell missing Value.plain)⟩
  | .datetime _ =>
    let text := if filled then Value.plain else momentText (moments c.cells)
    return ⟨c.label, .text, c.cells.map (textCell missing text)⟩
  | _ => return ⟨c.label, .text, c.cells.map (textCell missing Value.plain)⟩

def prepare (f : Frame) (includeMissing : Bool) : Except Failure Frame := do
  return { f with columns := ← f.columns.mapM (prepareColumn includeMissing) }

end ColumnFlow.Categories
