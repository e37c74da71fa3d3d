import ColumnFlow.Frame.Coercion
import ColumnFlow.Frame.Majority
import ColumnFlow.Node.View
import ColumnFlow.Numbers.RowMeans

/-!
Answers of fitted leaves, and what ensembles make of the answers of their members. A learner uses
the columns it was fitted with, in their order, and ignores all others. Labels of members are put
side by side under their names, which are made distinct.
-/
namespace ColumnFlow

/-- A single column, with one cell for every row, over the rows of a frame. -/
def Series.over (c : Column) (X : Frame) : Logged Series :=
  if c.cells.length = X.rows then return ⟨Series.dissolve c, X.index⟩ else Logged.fail .value

namespace Memory

/-- The columns a node was fitted with that a frame lacks. -/
def lacking (m : Memory) (s : Site) (X : Frame) : List Label :=
  ((m.inputColumns s).getD []).filter fun c => !X.has c

/-- Goes on only for a fitted node and a frame with all its columns. -/
def guarded {α : Type} (m : Memory) (s : Site) (fitted : Bool) (X : Frame)
    (body : Unit → Logged α) : Logged α :=
  if !fitted then throw (.notFitted (m.label s))
  else
    match m.lacking s X with
    | [] => body ()
    | labels => Logged.mismatch (.columnsMissing (m.label s) labels)

/-- The part of a frame that a learner was fitted with. -/
def features (m : Memory) (s : Site) (X : Frame) : Logged Frame :=
  X.select ((m.inputColumns s).getD [])

def applyFitted (m : Memory) (s : Site) (X : Frame) : Logged Frame :=
  match (m.slot s.id).learned with
  | .fitted f => f.run X
  | _ => throw (.notFitted (m.label s))

def model (m : Memory) (s : Site) : Logged Model :=
  match (m.slot s.id).learned with
  | .model model => return model
  | _ => throw (.notFitted (m.label s))

/-- The labels a learner predicts, under its name. -/
def predictions (m : Memory) (s : Site) (X : Frame) : Logged Series := do
  let model ← m.model s
  let c ← model.predict (← m.features s X)
  Series.over (c.rename (m.label s)) X

/-- Probabilities under the names of the node and the classes. -/
def namedProbabilities (m : Memory) (s : Site) (X proba : Frame) : Logged Frame :=
  if proba.rows = X.rows then
    return (proba.relabel (proba.labels.map fun c => .text (m.name s ++ "_" ++ c.plain))).withIndex
      X.index
  else Logged.fail .value

/-- Labels as a frame; a column without a name is numbered. -/
def labelFrame (labels : Series) : Frame :=
  match labels.column.label with
  | .null => { labels with column := labels.column.rename (.int 0) }.toFrame
  | _ => labels.toFrame

/-- What a learner answers in its mode; without probabilities it answers with labels. -/
def answer (m : Memory) (l : Learner) (s : Site) (X : Frame) : Logged Frame := do
  match l.output with
  | .labels => return labelFrame (← m.predictions s X)
  | .probabilities =>
    let model ← m.model s
    match model.probabilities with
    | some f => m.namedProbabilities s X (← f (← m.features s X))
    | none =>
      Logged.note (.noProbabilities (m.name s))
      return labelFrame (← m.predictions s X)

/-- The one column of an output, as labels for the rows of the input. -/
def singleColumn (m : Memory) (s : Site) (X output : Frame) : Logged Series :=
  match output.columns with
  | [c] =>
    if c.cells.length = X.rows then return ⟨c, X.index⟩ else Logged.fail .value
  | _ => Logged.mismatch (.columnCount (m.label s) output.labels)

/-- Labels from any node: a learner predicts them in every mode, and the output of any other node
must be a single column. -/
def labels (m : Memory) (p : Plan) (s : Site) (X : Frame) (output : Unit → Logged Frame) :
    Logged Series :=
  match p with
  | .learner _ => m.guarded s (p.isFitted m s) X fun _ => m.predictions s X
  | _ => do m.singleColumn s X (← output ())

/-- The labels of some members side by side. -/
def besides (names : List Label) (members : List Series) (X : Frame) : Frame :=
  Frame.relabel ⟨X.index, members.map (·.column)⟩ (Labels.makeUnique names)

def labelsOf (m : Memory) (sites : List Site) : List Label := sites.map m.label

/-- Values as the only column of an ensemble's answer. -/
def output (m : Memory) (s : Site) (values : Series) (X : Frame) : Frame :=
  ⟨X.index, [Series.dissolve (values.column.rename (m.label s))]⟩

/-- The outputs of parts side by side. Rows are counted by the name of the part, so that of parts
with one name only the last is counted. -/
def concatenate (m : Memory) (s : Site) (names : List Label) (outputs : List Frame) (X : Frame) :
    Logged Frame :=
  let counts := names.zip (outputs.map Frame.rows)
  if (countTable counts).any fun c => c.2 != X.rows then
    Logged.mismatch (.rowCounts (m.label s) counts X.rows)
  else if outputs.any fun f => f.rows != X.rows then Logged.fail .value
  else
    let columns := outputs.flatMap (·.columns)
    let labels := Labels.joined (columns.map (·.label))
    return Frame.relabel ⟨X.index, columns⟩ (Labels.makeUnique labels)

end Memory

namespace Stacking

/-- The labels of a target in the order of their texts, each with its place. -/
def codes (y : Series) : Except Failure (List (Scalar × Nat)) := do
  let scalars ← y.cells.mapM fun
    | .scalar s => .ok s
    | _ => .error (.unusable .type)
  let distinct := scalars.foldl (fun found s =>
    if found.any fun t => t.key == s.key then found else found ++ [s]) []
  return (distinct.mergeSort fun a b => !decide (b.plain < a.plain)).zipIdx

/-- The place of a label, and -1 for a label that was not seen. -/
def code (codes : List (Scalar × Nat)) (v : Value) : Value :=
  match v with
  | .scalar s =>
    match codes.find? fun c => c.1.key == s.key || (c.1.isMissing && s.isMissing) with
    | some c => .int c.2
    | none => .int (-1)
  | _ => .int (-1)

def isPlainNumber : Dtype → Bool
  | .bool => true
  | d => d.isNumeric

/-- Numbers as they are, and other labels as their places. Categories whose levels were all seen
stay categories, which have no room for labels that were not. -/
def coded (codes : List (Scalar × Nat)) (c : Column) : Except Failure Column := do
  if isPlainNumber c.dtype then return c
  match c.dtype with
  | .category _ levels =>
    if c.cells.any Value.isMissing then
      if !codes.any fun e => e.1.key == Key.absent then throw (.unusable .key)
    else if levels.all fun v => codes.any fun e => v.sameLabel (.scalar e.1) then
      throw (.unusable .type)
  | _ => pure ()
  return ⟨c.label, .int64, c.cells.map (code codes)⟩

/-- What the stacker learns from: coded predictions, after the features themselves if they are to be
kept. -/
def features (codes : List (Scalar × Nat)) (keepOriginal : Bool) (predictions X : Frame) :
    Except Failure Frame := do
  let coded : Frame := { predictions with columns := ← predictions.columns.mapM (coded codes) }
  if keepOriginal then
    return X.beside (coded.relabel (coded.labels.map fun l => .text ("stack_" ++ l.plain)))
  else return coded

/-- The labels and places that a stack has stored. -/
def stored (m : Memory) (s : Site) : List (Scalar × Nat) :=
  match (m.slot s.id).learned with
  | .codes codes => codes
  | _ => []

end Stacking
end ColumnFlow
