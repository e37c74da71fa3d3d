import ColumnFlow.CrossValidation.Record

/-!
Failures, by cause. `message` is the text of a failure, `kind` its class in answers and in the
records of failed folds, and `detail` the values a caller may inspect. `Mismatch` holds the ways in
which rows or columns do not line up; `Unusable` stands for inputs that a computation cannot work
with and about which it says no more than their kind.
-/
namespace ColumnFlow

/-- Rows or columns that do not line up with what a node expects. -/
inductive Mismatch where
  | stated (message : String) (detail : Value)
  | featureDimensions (count : Nat)
  | targetDimensions (count : Nat)
  | targetColumns (labels : List Label)
  | lengths (features target : Nat)
  | columnsMissing (node : Label) (labels : List Label)
  | selectionMissing (labels : List Label)
  | rowCounts (node : Label) (counts : List (Label × Nat)) (rows : Nat)
  | learnerTarget (node : Label) (rows : Nat)
  | ensembleTarget (ensemble : String) (node : Label)
  | validationTarget (rows : Nat)
  | noRows
  | tooManyFolds (rows : Nat) (folds : Value)
  | columnCount (node : Label) (labels : List Label)

/-- A table with text keys. -/
def Value.record (entries : List (String × Value)) : Value :=
  .dict (entries.map fun e => (.text e.1, e.2))

def Value.nat (n : Nat) : Value := .int n

/-- Counts by name; a later equal name takes the place of the earlier. -/
def countTable (counts : List (Label × Nat)) : List (Label × Nat) :=
  counts.foldl (fun table c =>
    if table.any (fun e => e.1.same c.1) then
      table.map fun e => if e.1.same c.1 then (e.1, c.2) else e
    else table ++ [c]) []

namespace Mismatch

def countValue (counts : List (Label × Nat)) : Value :=
  .dict ((countTable counts).map fun e => (e.1, .nat e.2))

def message : Mismatch → String
  | .stated message _ => message
  | .featureDimensions n => s!"Features must be 2-dimensional, got {n} dimensions"
  | .targetDimensions n => s!"Target must be 1-dimensional, got {n} dimensions"
  | .targetColumns labels => s!"Target must have a single column, got {labels.length}"
  | .lengths features target => s!"Feature rows ({features}) and target length ({target}) differ"
  | .columnsMissing node labels =>
    "Node '" ++ node.plain ++ "' was fit with columns missing from the input: "
      ++ (Value.ofLabels labels).quoted
  | .selectionMissing labels =>
    "Selected columns missing from input: " ++ (Value.ofLabels labels).quoted
  | .rowCounts node counts rows =>
    "Parallel '" ++ node.plain ++ "' children returned differing row counts: "
      ++ (countValue counts).quoted ++ s!" (input has {rows})"
  | .learnerTarget node rows =>
    "Learner '" ++ node.plain ++ s!"' requires a target aligned with {rows} feature rows"
  | .ensembleTarget ensemble node => ensemble ++ " '" ++ node.plain ++ "' requires a target"
  | .validationTarget _ => "Cross-validation requires a target"
  | .noRows => "Input has no rows"
  | .tooManyFolds rows folds => s!"Cannot split {rows} rows into {folds.plain} folds"
  | .columnCount node labels =>
    "Node '" ++ node.plain ++ s!"' returns {labels.length} columns; "
      ++ "a single prediction column is required"

def detail : Mismatch → Value
  | .stated _ detail => detail
  | .featureDimensions n | .targetDimensions n => .record [("ndim", .nat n)]
  | .targetColumns labels => .record [("target_columns", .ofLabels labels)]
  | .lengths features target =>
    .record [("feature_rows", .nat features), ("target_rows", .nat target)]
  | .columnsMissing node labels =>
    .record [("node", .scalar node), ("missing_columns", .ofLabels labels)]
  | .selectionMissing labels => .record [("missing_columns", .ofLabels labels)]
  | .rowCounts _ counts rows =>
    .record [("input_rows", .nat rows), ("child_rows", countValue counts)]
  | .learnerTarget node rows =>
    .record [("node", .scalar node), ("feature_rows", .nat rows), ("target_rows", .nat 0)]
  | .ensembleTarget _ node => .record [("node", .scalar node)]
  | .validationTarget rows => .record [("feature_rows", .nat rows)]
  | .noRows => .record [("rows", .nat 0)]
  | .tooManyFolds rows folds => .record [("rows", .nat rows), ("n_folds", folds)]
  | .columnCount node labels => .record [("node", .scalar node), ("columns", .ofLabels labels)]

end Mismatch

/-- Kinds of input that a computation cannot use. -/
inductive Unusable where
  | value
  | notFinite
  | type
  | key
  | index
  | attribute
  | parameter
  | overflow
  | duplicate
  | directory

/-- A wrong argument that is answered with a text of its own. -/
inductive Misuse where
  | componentName (name : String)
  | componentExists (name : String)
  | childCount (node : String) (count : Nat)
  | learnerCount (node : String) (count : Nat)
  | outputMode (mode : Value)
  | task (name : Value)
  | sampleShare (share : Value)
  | foldCount (count : Value)
  | validationStrategy (name : Value)
  | selectionStrategy (name : Value)
  | nonFiniteScore (metric : String) (score : Float)

def Misuse.message : Misuse → String
  | .componentName name =>
    "Invalid component name '" ++ name ++ "': must match ^[A-Za-z_][A-Za-z0-9_]*$"
  | .componentExists name => "Component '" ++ name ++ "' is already registered"
  | .childCount node count => s!"{node} needs at least 2 children, got {count}"
  | .learnerCount node count => s!"{node} needs at least 2 learners, got {count}"
  | .outputMode mode => "output must be 'predict' or 'proba', got '" ++ mode.plain ++ "'"
  | .task name => "task must be 'classification' or 'regression', got '" ++ name.plain ++ "'"
  | .sampleShare share => "max_samples must be in (0, 1], got " ++ share.plain
  | .foldCount count => "n_folds must be at least 2, got " ++ count.plain
  | .validationStrategy name => "Unknown cross-validation strategy: " ++ name.plain
  | .selectionStrategy name => "Unknown selection strategy: " ++ name.plain
  | .nonFiniteScore metric score =>
    "Metric '" ++ metric ++ "' returned a non-finite score (" ++ Scalar.floatText score ++ ")"

/-- A value where a node or a text was needed. -/
inductive Misplaced where
  | component (name kind : String)
  | child (node kind : String)
  | member (kind : String)
  | operand (kind : String)
  | expression (kind : String)
  | form (name : String)
  | savedPipeline

def Misplaced.message : Misplaced → String
  | .component name kind => "Component '" ++ name ++ "' must be a Node, got " ++ kind
  | .child node kind => s!"{node} children must be Nodes, got {kind}"
  | .member kind => "Ensemble members must be Nodes, got " ++ kind
  | .operand kind => s!"Cannot compose {kind} with a Node"
  | .expression kind => "Expression must be a string, got " ++ kind
  | .form name => "Unsupported expression node: " ++ name
  | .savedPipeline => "PATH does not contain an ExpressionPipeline"

/-- What is wrong with the text of an expression, before its place is added. -/
inductive Problem where
  | empty
  | character (c : Char)
  | token (text : String)
  | ending
  | other (text : String)
  deriving DecidableEq

def Problem.text : Problem → String
  | .empty => "Empty expression"
  | .character c => "Unexpected character " ++ Text.quoted (String.singleton c)
  | .token t => "Unexpected token " ++ Text.quoted t
  | .ending => "Unexpected end of expression"
  | .other t => t

inductive Failure where
  | stated (message : String) (detail : Value)
  | mismatch (m : Mismatch)
  | unknownComponents (names : List Scalar) (available : List String)
  | malformed (problem : Problem) (expression : String) (position : Option Int)
  | notFitted (node : Label)
  | allFoldsFailed (records : List ScoreRecord)
  | unknownMetric (name : Scalar) (available : List String)
  | noFiniteScore (node : Label) (scores : List (Label × Float))
  | misuse (m : Misuse)
  | misplaced (m : Misplaced)
  | element (message : String)
  | unknownObject (name : String)
  | invalidFields (faults : List FieldFault)
  | unusable (u : Unusable)

namespace Failure

def kind : Failure → String
  | .stated .. | .noFiniteScore .. => "PipelineAlgebraError"
  | .mismatch _ => "ShapeMismatchError"
  | .unknownComponents .. => "UnknownComponentError"
  | .malformed .. => "ExpressionSyntaxError"
  | .notFitted _ => "NotFittedError"
  | .allFoldsFailed _ => "AllFoldsFailedError"
  | .unknownMetric .. => "UnknownMetricError"
  | .misuse _ => "ValueError"
  | .misplaced _ => "TypeError"
  | .element _ => "RuntimeError"
  | .unknownObject _ => "NoSuchObject"
  | .invalidFields _ => "ValidationError"
  | .unusable .value => "ValueError"
  | .unusable .notFinite => "IntCastingNaNError"
  | .unusable .type => "TypeError"
  | .unusable .key => "KeyError"
  | .unusable .index => "IndexError"
  | .unusable .attribute => "AttributeError"
  | .unusable .parameter => "InvalidParameterError"
  | .unusable .overflow => "OverflowError"
  | .unusable .duplicate => "DuplicateError"
  | .unusable .directory => "IsADirectoryError"

/-- Orders texts by code points. -/
def sortTexts (texts : List String) : List String :=
  texts.mergeSort fun a b => !decide (b < a)

def unknownText (names : List String) : String :=
  "Unknown component(s): " ++ Value.joined (names.map fun n => "'" ++ n ++ "'")

/-- A text with the place it is about. -/
def placedText (text position expression : String) : String :=
  text ++ " at position " ++ position ++ ": " ++ expression

def notFittedText (node : String) : String :=
  "Node '" ++ node ++ "' is not fitted. Call fit before transform."

def unknownMetricText (name : String) : String := "Unknown metric '" ++ name ++ "'"

/-- The text of a failure, where the library gives one. -/
def message? : Failure → Option String
  | .stated message _ | .element message => some message
  | .unknownObject name => some name
  | .mismatch m => some m.message
  | .unknownComponents names _ => some (unknownText (names.map Scalar.plain))
  | .malformed problem _ none => some problem.text
  | .malformed problem expression (some position) =>
    some (placedText problem.text (toString position) (Text.quoted expression))
  | .notFitted node => some (notFittedText node.plain)
  | .allFoldsFailed records => some s!"All {records.length} cross-validation folds failed"
  | .unknownMetric name _ => some (unknownMetricText name.plain)
  | .noFiniteScore node _ =>
    some ("BestLearner '" ++ node.plain ++ "': no candidate produced a finite score")
  | .misuse m => some m.message
  | .misplaced m => some m.message
  | .invalidFields _ | .unusable _ => none

def optionalText : Option String → Value
  | some s => .text s
  | none => .null

/-- The values that come with a failure of the library itself. -/
def detail? : Failure → Option Value
  | .stated _ detail => some detail
  | .mismatch m => some m.detail
  | .unknownComponents names available =>
    some (.record [("names", .ofLabels names), ("available", .ofTexts (sortTexts available))])
  | .malformed _ expression none => some (.record [("expression", .text expression)])
  | .malformed _ expression (some position) =>
    some (.record [("expression", .text expression), ("position", .int position)])
  | .notFitted node => some (.record [("node", .scalar node)])
  | .allFoldsFailed records =>
    some (.record [("errors", .list (records.map fun r => optionalText r.error))])
  | .unknownMetric name available =>
    some (.record [("metric", .scalar name), ("available", .ofTexts (sortTexts available))])
  | .noFiniteScore node scores =>
    some (.record [("node", .scalar node),
      ("scores", .list (scores.map fun s => .tuple [.scalar s.1, .float s.2]))])
  | _ => none

/-- The text under which a failed fold records a failure. -/
def foldText (f : Failure) : String := f.kind ++ ": " ++ f.message?.getD ""

end Failure
end ColumnFlow
