import ColumnFlow.Metric.Labels
import ColumnFlow.Numbers.Statistics

/-!
Agreement of labels. All scores come from counts: how often a label stands on both sides, and on
either side. Averages over labels run over the labels of both sides in increasing order, and a share
of nothing counts as zero. Marks agree like labels: a mark that is set is a label that a row has.
-/
namespace ColumnFlow.Agreement

/-- A quotient of counts; nothing of nothing is zero. -/
def share (n d : Nat) : Float := if d = 0 then 0.0 else Float.ofNat n / Float.ofNat d

/-- How often a label stands on both sides, in truth and in the guess. -/
structure Shared where
  both : Nat
  truth : Nat
  guess : Nat

def Shared.ofLabel (p : Pairs) (k : Key) : Shared := ⟨p.inBoth k, p.inTruth k, p.inGuess k⟩

def isSet (x : Float) : Bool := x != 0.0

def Shared.ofMarks (column : List (Float × Float)) : Shared :=
  ⟨column.countP fun p => isSet p.1 && isSet p.2, column.countP fun p => isSet p.1,
    column.countP fun p => isSet p.2⟩

def precision (s : Shared) : Float := share s.both s.guess

def sensitivity (s : Shared) : Float := share s.both s.truth

def overlap (s : Shared) : Float := share s.both (s.truth + s.guess - s.both)

def harmonic (s : Shared) : Float := share (2 * s.both) (s.truth + s.guess)

/-- The mean of a score over all labels, or over all columns of marks. -/
def averaged (score : Shared → Float) : Compared → Float
  | .labels p => Numbers.mean (p.labels.map fun k => score (.ofLabel p k))
  | .marks m => Numbers.mean (m.columns.map fun column => score (.ofMarks column))

/-- The share of the rows that agree. -/
def accuracy : Compared → Float
  | .labels p => share p.agreeing p.size
  | .marks m => share m.agreeing m.rows

/-- The share of the rows that do not agree. -/
def rowDisagreement : Compared → Float
  | .labels p => share (p.size - p.agreeing) p.size
  | .marks m => share (m.rows - m.agreeing) m.rows

/-- The share of the labels, or of the marks, that do not agree. -/
def disagreement : Compared → Float
  | .labels p => share (p.size - p.agreeing) p.size
  | .marks m => share m.differing m.size

/-- The mean sensitivity over the labels that occur in truth. -/
def balanced (p : Pairs) : Float :=
  Numbers.mean
    ((p.labels.filter fun k => p.inTruth k != 0).map fun k => sensitivity (.ofLabel p k))

/-- Agreement beyond what equal label frequencies give by chance; undefined for a single label. -/
def kappa (p : Pairs) : Float :=
  let expected := p.labels.foldl (fun s k => s + p.inTruth k * p.inGuess k) 0
  let n := p.size
  -- pairs that differ, against those expected to differ, both times the number of pairs
  1.0 - Float.ofNat ((n - p.agreeing) * n) / Float.ofNat (n * n - expected)

/-- The correlation of the two labelings, zero when one of them is constant. -/
def correlation (p : Pairs) : Float :=
  let n : Int := p.size
  let dot (f g : Key → Nat) : Int := p.labels.foldl (fun s k => s + (f k : Int) * g k) 0
  let both := n * p.agreeing - dot p.inTruth p.inGuess
  let truth := n * n - dot p.inTruth p.inTruth
  let guess := n * n - dot p.inGuess p.inGuess
  if truth * guess = 0 then 0.0
  else Float.ofInt both / Float.sqrt (Float.ofInt (truth * guess))

end ColumnFlow.Agreement
