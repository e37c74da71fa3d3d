import ColumnFlow.Metric.Table

/-!
Scores that can be registered under any name: fixed numbers, the number of rows, the number of hits,
and a score that always fails.
-/
namespace ColumnFlow.Metric

abbrev Score := Sample → Sample → Except Failure Float

def fixed (x : Float) : Score := fun _ _ => .ok x

def rowCount : Score := fun truth _ => truth.rows.map Float.ofNat

def hitCount : Score := fun truth guess => (Sample.hits truth guess).map Float.ofNat

def broken : Score := fun _ _ => .error (.element "metric failed")

def probes : List (String × Score) := [
  ("nan", fixed Decimal.notANumber),
  ("inf", fixed Decimal.positiveInfinity),
  ("one", fixed 1.0),
  ("rows", rowCount),
  ("hits", hitCount),
  ("raise", broken)]

/-- The score of a name; a name that is not known gives one that fails. -/
def probe (name : String) : Score := (probes.lookup name).getD broken

end ColumnFlow.Metric
