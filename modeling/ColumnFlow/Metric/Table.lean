import ColumnFlow.Metric.Agreement
import ColumnFlow.Metric.Distance

/-!
Metrics by name. A metric scores a guess against the truth and knows whether more is better. Some
metrics have second names. A metric may be added, or replaced, under any name.
-/
namespace ColumnFlow

structure Metric where
  name : String
  greaterIsBetter : Bool
  score : Sample → Sample → Except Failure Float

namespace Metric

/-- Strict: an equal score is not better, and neither is one that is not a number. -/
def isBetter (m : Metric) (candidate incumbent : Float) : Bool :=
  if m.greaterIsBetter then candidate > incumbent else candidate < incumbent

/-- As before, for values, which must have an order. -/
def prefers (m : Metric) (candidate incumbent : Value) : Except Failure Bool :=
  let order :=
    if m.greaterIsBetter then incumbent.before? candidate else candidate.before? incumbent
  order.elim (.error (.unusable .type)) .ok

/-- A score of labels or marks. -/
def ofSorted (f : Compared → Float) (truth guess : Sample) : Except Failure Float :=
  (Compared.ofSorted truth guess).map f

/-- A score of labels. -/
def onLabels (f : Pairs → Float) : Compared → Except Failure Float
  | .labels p => .ok (f p)
  | .marks _ => .error (.unusable .value)

/-- A score of labels, which may only be refused because they are of no order. -/
def ofLabels (f : Pairs → Float) (truth guess : Sample) : Except Failure Float := do
  onLabels f (← Compared.ofSamples truth guess)

def ofSortedLabels (f : Pairs → Float) (truth guess : Sample) : Except Failure Float := do
  onLabels f (← Compared.ofSorted truth guess)

/-- A score of numbers, column by column. -/
def ofNumbers (f : List (List (Float × Float)) → Float) (truth guess : Sample) :
    Except Failure Float :=
  (Distance.numbersOf truth guess).map f

open Agreement Distance in
def builtin : List Metric := [
  ⟨"accuracy", true, ofSorted accuracy⟩,
  ⟨"balanced_accuracy", true, ofLabels balanced⟩,
  ⟨"cohen_kappa", true, ofLabels kappa⟩,
  ⟨"jaccard", true, ofSorted (averaged overlap)⟩,
  ⟨"matthews_corrcoef", true, ofSortedLabels correlation⟩,
  ⟨"hamming_loss", false, ofSorted disagreement⟩,
  ⟨"zero_one_loss", false, ofSorted rowDisagreement⟩,
  ⟨"f1", true, ofSorted (averaged harmonic)⟩,
  ⟨"precision", true, ofSorted (averaged precision)⟩,
  ⟨"recall", true, ofSorted (averaged sensitivity)⟩,
  ⟨"r2", true, ofNumbers (averaged explained)⟩,
  ⟨"mean_squared_error", false, ofNumbers (averaged meanSquare)⟩,
  ⟨"mean_absolute_error", false, ofNumbers (averaged meanAbsolute)⟩,
  ⟨"root_mean_squared_error", false, ofNumbers rootMeanSquare⟩]

/-- Second names. -/
def aliases : List (String × String) := [
  ("accuracy_score", "accuracy"),
  ("balanced_accuracy_score", "balanced_accuracy"),
  ("cohen_kappa_score", "cohen_kappa"),
  ("kappa", "cohen_kappa"),
  ("jaccard_score", "jaccard"),
  ("matthews", "matthews_corrcoef"),
  ("mcc", "matthews_corrcoef"),
  ("f1_score", "f1"),
  ("precision_score", "precision"),
  ("recall_score", "recall"),
  ("r2_score", "r2"),
  ("mse", "mean_squared_error"),
  ("mae", "mean_absolute_error"),
  ("rmse", "root_mean_squared_error")]

/-- The name that a second name stands for. -/
def canonical (name : String) : String := (aliases.lookup name).getD name

end Metric

/-- Metrics by name, at most one for each. -/
structure MetricTable where
  entries : List (String × Metric)

namespace MetricTable

def builtin : MetricTable := ⟨Metric.builtin.map fun m => (m.name, m)⟩

/-- The names in increasing order. -/
def names (t : MetricTable) : List String := Failure.sortTexts (t.entries.map (·.1))

/-- Puts a metric under a name, in the place of the one that is there. -/
def register (t : MetricTable) (name : String) (m : Metric) : MetricTable :=
  ⟨t.entries.filter (fun e => e.1 != name) ++ [(name, m)]⟩

/-- The metric of a name or a second name; what can be no label cannot be looked up. -/
def get (t : MetricTable) (name : Value) : Except Failure Metric :=
  match name.label? with
  | none => .error (.unusable .type)
  | some label =>
    let found := match label with
      | .text s => t.entries.lookup (Metric.canonical s)
      | _ => none
    found.elim (.error (.unknownMetric label t.names)) .ok

end MetricTable
end ColumnFlow
