import ColumnFlow.CrossValidation.Record
import ColumnFlow.Numbers.Statistics

/-!
Summaries of score records: the mean and the spread of the scores of the folds that succeeded. The
spread is the root of the mean squared distance from the mean.
-/
namespace ColumnFlow

structure ScoreSummary where
  metric : String
  mean : Float
  std : Float
  foldCount : Nat
  failedCount : Nat

/-- The outcome of a cross-validation. -/
structure ValidationResult where
  expression : Option String
  summary : ScoreSummary
  folds : List ScoreRecord

namespace ScoreSummary

def spread (xs : List Float) : Float :=
  let center := Numbers.mean xs
  Float.sqrt (Numbers.mean (xs.map fun x => (x - center) * (x - center)))

/-- The scores of the folds that succeeded, in order. -/
def scoresOf (records : List ScoreRecord) : List Float :=
  records.filterMap fun r => if r.failed then none else r.score

def ofRecords (records : List ScoreRecord) (metric : String) : ScoreSummary :=
  ⟨metric, Numbers.mean (scoresOf records), spread (scoresOf records), records.length,
    records.countP (·.failed)⟩

end ScoreSummary
end ColumnFlow
