import ColumnFlow.Value.Field

/-!
Score records: the outcome of one fold of a cross-validation. A record is read from named values,
of which only the number of the fold is required; unknown names are ignored.
-/
namespace ColumnFlow

structure ScoreRecord where
  fold : Int
  score : Option Float
  failed : Bool
  error : Option String
  trainSize : Int
  testSize : Int

namespace ScoreRecord

def lookup (entries : List (String × Value)) (name : String) : Option Value :=
  (entries.reverse.find? fun e => e.1 == name).map (·.2)

/-- A field that must be given. -/
def required {α : Type} (entries : List (String × Value)) (name : String)
    (read : Value → Except Fault α) : Fields α :=
  Fields.ofField name (match lookup entries name with
    | some v => read v
    | none => .error .missing)

/-- A field that may be left out. -/
def optional {α : Type} (entries : List (String × Value)) (name : String) (default : α)
    (read : Value → Except Fault α) : Fields α :=
  Fields.ofField name (match lookup entries name with
    | some v => read v
    | none => .ok default)

/-- Reads a record; the faults are in the order of the field names. -/
def ofEntries (entries : List (String × Value)) : Fields ScoreRecord :=
  let error := optional entries "error" none (Field.readOptional Field.readText)
  let failed := optional entries "failed" false Field.readBool
  let fold := required entries "fold" Field.readInt
  let score := optional entries "score" none (Field.readOptional Field.readFloat)
  let testSize := optional entries "test_size" 0 Field.readInt
  let trainSize := optional entries "train_size" 0 Field.readInt
  (error.both (failed.both (fold.both (score.both (testSize.both trainSize))))).map
    fun (error, failed, fold, score, testSize, trainSize) =>
      ⟨fold, score, failed, error, trainSize, testSize⟩

end ScoreRecord
end ColumnFlow
