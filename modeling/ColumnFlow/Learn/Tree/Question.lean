import ColumnFlow.Draw.Xorshift
import ColumnFlow.Learn.Tree.Basic
import ColumnFlow.Learn.Tree.Impurity

/-!
The best question about some samples. Features are drawn without repetition until enough of them
have been tried; those that are constant among the samples do not count, and are passed on to the
nodes below. Of equally good questions the first one tried is asked. A threshold lies halfway
between two neighboring values, or anywhere between the ends where it is drawn. Rows that lack a
feature are tried on either side.
-/
namespace ColumnFlow.Learn.Tree
open Draw

structure Limits where
  criterion : Criterion
  /-- Whether thresholds are drawn. -/
  isRandom : Bool
  depth : Option Nat
  rowsToSplit : Nat
  rowsInLeaf : Nat
  weightInLeaf : Float
  /-- How many features are tried. -/
  features : Nat
  leaves : Option Nat
  improvement : Float
  /-- For every feature whether the first target may only rise with it, or only fall. -/
  trends : List Int

/-- A question with what lies on either side of it. -/
structure Cut where
  question : Question
  below : Sums
  above : Sums
  gain : Float

/-- Ends between which the first target must stay. -/
structure Corridor where
  low : Float
  high : Float

/-- Values that are closer than this are not told apart. -/
def resolution : Float32 := 1e-7

def isClose (a b : Float) : Bool := b.toFloat32 ≤ a.toFloat32 + resolution

/-- Halfway between two neighboring values, and never the upper one. -/
def halfway (a b : Float) : Float :=
  let m := a / 2.0 + b / 2.0
  if m == b || m.isInf then a else m

/-- The thresholds between values that can be told apart, with the sums of what is below. -/
def thresholds : List (Float × Sample) → Sums → List (Float × Sums)
  | (a, s) :: (b, t) :: rest, below =>
    let below := below.add (.ofSample s)
    if isClose a b then thresholds ((b, t) :: rest) below
    else (halfway a b, below) :: thresholds ((b, t) :: rest) below
  | _, _ => []

/-- The samples by one feature: those that have it, in its order, and the others. -/
structure Spread where
  feature : Nat
  present : List (Float × Sample)
  gaps : Sums
  whole : Sums

namespace Spread

def of (whole : Sums) (samples : List Sample) (feature : Nat) : Spread :=
  let values := samples.map fun s => (s.row.getD feature 0.0, s)
  let (missing, present) := values.partition fun p => p.1.isNaN
  ⟨feature, present.mergeSort fun a b => a.1 ≤ b.1,
    .ofSamples whole.totals.size (missing.map (·.2)), whole⟩

def least (s : Spread) : Float := (s.present.head?.map (·.1)).getD 0.0

def greatest (s : Spread) : Float := (s.present.getLast?.map (·.1)).getD 0.0

def isConstant (s : Spread) : Bool := s.present.isEmpty || isClose s.least s.greatest

/-- A cut at a threshold. Where no sample lacks the feature, rows without it go to the side with
more samples. -/
def cut (s : Spread) (c : Criterion) (isMissingBelow : Bool) (t : Float × Sums) : Cut :=
  let below := if isMissingBelow then t.2.add s.gaps else t.2
  let above := s.whole.without below
  let side := if s.gaps.rows = 0 then above.rows < below.rows else isMissingBelow
  ⟨⟨s.feature, t.1, side⟩, below, above, c.gain below above⟩

/-- All cuts in the order in which they are tried. -/
def cuts (s : Spread) (c : Criterion) : List Cut :=
  let known := thresholds s.present (.zero s.whole.totals.size)
  let cuts := known.map (s.cut c false)
  if s.gaps.rows = 0 then cuts
  else
    cuts ++ known.map (s.cut c true) ++ [s.cut c false (1.0 / 0.0, s.whole.without s.gaps)]

/-- One cut at a threshold that is drawn. -/
def drawnCut (s : Spread) (c : Criterion) (g : Xorshift) : Cut × Xorshift :=
  let (x, g) := g.between s.least s.greatest
  let (side, g) := if s.gaps.rows = 0 then (0, g) else g.below 2
  let threshold := if x == s.greatest then s.least else x
  let below := Sums.ofSamples s.whole.totals.size
    ((s.present.filter fun p => p.1 ≤ threshold).map (·.2))
  (s.cut c (side == 1) (threshold, below), g)

end Spread

/-- Whether the first target goes the right way, and stays in its corridor. -/
def keepsTrend (limits : Limits) (corridor : Corridor) (cut : Cut) : Bool :=
  let trend := limits.trends.getD cut.question.feature 0
  let first (s : Sums) : Float := s.means.getD 0 0.0
  let inside (x : Float) : Bool := corridor.low ≤ x && x ≤ corridor.high
  trend = 0 || cut.question.threshold.isInf
    || (inside (first cut.below) && inside (first cut.above)
      && (first cut.below - first cut.above) * Float.ofInt trend ≤ 0.0)

def isAllowed (limits : Limits) (corridor : Corridor) (cut : Cut) : Bool :=
  limits.rowsInLeaf ≤ cut.below.rows && limits.rowsInLeaf ≤ cut.above.rows
    && keepsTrend limits corridor cut
    && !(cut.below.weight < limits.weightInLeaf) && !(cut.above.weight < limits.weightInLeaf)

/-- The better of two cuts, the earlier of equally good ones. -/
def better (best : Option Cut) (cut : Cut) : Option Cut :=
  match best with
  | some b => if cut.gain > b.gain then some cut else some b
  | none => if cut.gain > -(1.0 / 0.0) then some cut else none

/-- The order in which features are drawn, in front of it those that are known to be constant. -/
structure Deck where
  features : Array Nat
  constants : Array Nat
  generator : Xorshift

/-- How far the draws have come: features up to `drawn` were known to be constant, `found` more
have turned out to be, and those from `last` on have been tried. -/
structure Trial where
  features : Array Nat
  generator : Xorshift
  drawn : Nat
  found : Nat
  visited : Nat
  last : Nat
  best : Option Cut

/-- What a search goes through. -/
structure Search where
  limits : Limits
  corridor : Corridor
  samples : List Sample
  whole : Sums
  /-- How many features are known to be constant. -/
  known : Nat

namespace Search

/-- Whether draws go on: features are left, and too few of those tried were not constant. -/
def goesOn (s : Search) (t : Trial) : Bool :=
  s.known + t.found < t.last
    && (t.visited < s.limits.features || t.visited ≤ t.found + t.drawn)

/-- Tries the feature at a place of the deck. -/
def tryFeature (s : Search) (place : Nat) (t : Trial) : Trial :=
  let spread := Spread.of s.whole s.samples (t.features.getD place 0)
  if spread.isConstant then
    { t with features := t.features.swapIfInBounds place (s.known + t.found), found := t.found + 1 }
  else
    let (cuts, generator) := if s.limits.isRandom then
        let (cut, g) := spread.drawnCut s.limits.criterion t.generator
        ([cut], g)
      else (spread.cuts s.limits.criterion, t.generator)
    let allowed := cuts.filter (isAllowed s.limits s.corridor)
    { t with
      features := t.features.swapIfInBounds (t.last - 1) place
      generator
      last := t.last - 1
      best := allowed.foldl better t.best }

/-- Draws one feature after the other. Every draw uses up one of them. -/
def drawAll (s : Search) : Nat → Trial → Trial
  | 0, t => t
  | fuel + 1, t =>
    if s.goesOn t then
      let (k, generator) := t.generator.below (t.last - t.found - t.drawn)
      let place := t.drawn + k
      let t := { t with generator, visited := t.visited + 1 }
      drawAll s fuel <|
        if place < s.known then
          { t with features := t.features.swapIfInBounds t.drawn place, drawn := t.drawn + 1 }
        else s.tryFeature (place + t.found) t
    else t

/-- The best cut, the deck after the search, and how many features are constant now. -/
def run (s : Search) (deck : Deck) : Option Cut × Deck × Nat :=
  let count := deck.features.size
  let t := s.drawAll count ⟨deck.features, deck.generator, 0, 0, 0, count, none⟩
  let constant := s.known + t.found
  let features := deck.constants.extract 0 s.known ++ t.features.extract s.known count
  let constants := deck.constants.extract 0 s.known ++ t.features.extract s.known constant
    ++ deck.constants.extract constant count
  (t.best, ⟨features, constants, t.generator⟩, constant)

end Search
end ColumnFlow.Learn.Tree
