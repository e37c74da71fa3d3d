import ColumnFlow.Numbers.Statistics
import ColumnFlow.Numbers.Basic
import ColumnFlow.Text.Characters
import ColumnFlow.Transform.Selection
import ColumnFlow.Value.Parameters

/-!
Mappings of some columns to new ones. A method learns a mapping from the columns named in the
options, or from all numeric columns. New columns that keep the labels of the old ones take their
places; any others are put last, and the old ones are dropped.
-/
namespace ColumnFlow

/-- What a method has learned: the names of the new columns, if it has names for them, how many
there are, and how they come from the old ones. The labels of the new columns do not matter. -/
structure Mapping where
  names : Option (List String)
  width : Nat
  map : Frame → Except Failure (List Column)

structure Method where
  name : String
  parameters : List Parameter
  learn : Options → Frame → Except Failure Mapping

namespace Mapping

/-- The labels of the new columns: those of the old ones where the texts agree. -/
def labels (m : Mapping) (method : String) (old : List Label) : List Label :=
  match m.names with
  | some names => if names == old.map Scalar.plain then old else names.map .text
  | none => (List.range m.width).map fun i => .text (Text.lower method ++ toString i)

/-- The new column for the first of some labels that finds an old one, whose label it takes over. -/
def successor (labels : List Label) (new : List Column) (c : Column) : Column :=
  match (labels.zip new).find? fun p => p.1.finds c.label with
  | some (_, d) => d.rename c.label
  | none => c

/-- Puts new columns in the places of the columns with some labels. -/
def replace (X : Frame) (labels : List Label) (new : List Column) : Frame :=
  { X with columns := X.columns.map (successor labels new) }

/-- The columns that the parameters name; a single column is no frame. -/
def chosen (columns : Value) (X : Frame) : Except Failure Frame := do
  match ← X.extract columns with
  | .frame f => return f
  | .series _ => throw (.unusable .value)

/-- The labels that a value stands for where columns are dropped. -/
def labelsIn (columns : Value) : List Label :=
  match columns with
  | .list items => (Value.labels? items).getD []
  | v => v.label?.toList

/-- Whether two values list the same labels. -/
def isSameListing (a b : Value) : Bool :=
  match a, b with
  | .list xs, .list ys => isSameLabels (Value.labels? xs) (Value.labels? ys)
  | _, _ => false
where
  isSameLabels : Option (List Label) → Option (List Label) → Bool
    | some a, some b => Numbers.isSameList a b
    | _, _ => false

/-- New columns must have a cell for every row. Labels that are truth values may have chosen
fewer. -/
def checkRows (old X : Frame) : Except Failure Unit :=
  if old.rows = X.rows then .ok () else .error (.unusable .value)

/-- Maps the chosen columns of a frame, which must be those that were learned from. -/
def apply (m : Mapping) (learned : List Label) (params : Options) (X : Frame) :
    Logged Frame.Extract := do
  let columns := params.getD "columns" .null
  if !columns.isTrue then return .frame X
  Fitted.check params "transformer_object"
  let old ← chosen columns X
  if m.names.isSome then Numbers.matchLabels learned old.labels
  let names := params.getD "feature_names" .null
  let new ← m.map old
  checkRows old X
  let new ← Frame.relabelAs ⟨X.index, new⟩ names
  if isSameListing names columns then return .frame (replace X (labelsIn columns) new.columns)
  return .frame ((← X.drop (labelsIn columns)).beside new)

def returnsInput (params : Options) (_ : Frame) : Bool := !(params.getD "columns" .null).isTrue

/-- Whole columns of numbers. -/
def ofNumbers (columns : List (List Float)) : List Column :=
  columns.map (Column.ofNumbers .null)

/-- One function for every column, each with the names of the old columns. -/
def columnwise (missing : Bool) (f : Frame) (functions : List (Float → Float)) : Mapping :=
  ⟨some (f.labels.map Scalar.plain), functions.length, fun X => do
    let columns ← Numbers.ofFrame missing X
    return ofNumbers (columns.zipWith (fun xs g => xs.map g) functions)⟩

end Mapping

namespace Method

/-- The transformer of a method with some defaults. -/
def transformer (m : Method) (binding : String) (defaults options : Options) : Transformer :=
  ⟨binding, options, fun X => do
    let labels ← Columns.resolve X options (some Columns.numeric)
    if labels.isEmpty then return some .identity
    let parameters ← Options.merge defaults options ["columns", "type"]
    Parameters.check m.parameters parameters
    let chosen ← X.select labels
    let mapping ← m.learn parameters chosen
    let params : Options := [
      (.text "type", .text m.name),
      (.text "columns", .ofLabels labels),
      (.text "feature_names", .ofLabels (mapping.labels m.name chosen.labels))]
    return some ⟨params, mapping.apply chosen.labels, Mapping.returnsInput⟩⟩

end Method
end ColumnFlow
