import ColumnFlow.Learn.Tree.Question

/-!
Growing a tree. Nodes are split from the root down, what is below a question before what is above
it; where the number of leaves is limited, the node whose split improves most comes first. A node
stays a leaf when it is deep enough, has too few rows, is pure, or no question improves enough.
-/
namespace ColumnFlow.Learn.Tree
open Draw

/-- A node that grows. -/
structure Bud where
  samples : List Sample
  whole : Sums
  impurity : Float
  depth : Nat
  /-- How many features are known to be constant. -/
  known : Nat
  corridor : Corridor

/-- A bud with the question that it asks, the buds on either side, and how much that improves. -/
structure Split where
  question : Question
  below : Bud
  above : Bud
  improvement : Float

def epsilon : Float := 2.220446049250313e-16

/-- The answer to the samples; with trends its first number stays in the corridor, and the second
is the rest. -/
def answerAt (limits : Limits) (b : Bud) : Array Float :=
  let means := limits.criterion.answer b.whole
  if limits.trends.isEmpty then means
  else
    let x := means.getD 0 0.0
    let x := if x < b.corridor.low then b.corridor.low
      else if b.corridor.high < x then b.corridor.high else x
    (means.setIfInBounds 0 x).setIfInBounds 1 (1.0 - x)

def verdictAt (limits : Limits) (all : Float) (b : Bud) : Verdict :=
  ⟨answerAt limits b, b.whole.weight * b.impurity / all⟩

/-- Whether a node is a leaf without any search. -/
def isClosed (limits : Limits) (b : Bud) : Bool :=
  limits.depth.any (· ≤ b.depth) || b.whole.rows < limits.rowsToSplit
    || b.whole.rows < 2 * limits.rowsInLeaf || b.whole.weight < 2.0 * limits.weightInLeaf
    || b.impurity ≤ epsilon

/-- The corridors on both sides of a cut. -/
def corridors (limits : Limits) (b : Bud) (cut : Cut) : Corridor × Corridor :=
  let trend := limits.trends.getD cut.question.feature 0
  let middle := cut.below.totals.getD 0 0.0 / (2.0 * cut.below.weight)
    + cut.above.totals.getD 0 0.0 / (2.0 * cut.above.weight)
  if trend = 0 then (b.corridor, b.corridor)
  else if trend = 1 then (⟨b.corridor.low, middle⟩, ⟨middle, b.corridor.high⟩)
  else (⟨middle, b.corridor.high⟩, ⟨b.corridor.low, middle⟩)

/-- The best split of a node, if it has any that improves enough. -/
def splitOf (limits : Limits) (all : Float) (b : Bud) (deck : Deck) : Option Split × Deck :=
  if isClosed limits b then (none, deck)
  else
    let search : Search := ⟨limits, b.corridor, b.samples, b.whole, b.known⟩
    match search.run deck with
    | (none, deck, _) => (none, deck)
    | (some cut, deck, known) =>
      let improvement := limits.criterion.improvement all b.impurity cut.below cut.above
      if improvement + epsilon < limits.improvement then (none, deck)
      else
        let (low, high) := b.samples.partition fun s => cut.question.isBelow s.row
        let (lower, upper) := corridors limits b cut
        let bud (samples : List Sample) (whole : Sums) (corridor : Corridor) : Bud :=
          ⟨samples, whole, limits.criterion.impurity whole, b.depth + 1, known, corridor⟩
        (some ⟨cut.question, bud low cut.below lower, bud high cut.above upper, improvement⟩, deck)

/-- Grows a tree of at most `fuel` levels. Every question leaves samples on both sides, so a tree
has no more levels than there are samples. -/
def grow (limits : Limits) (all : Float) : Nat → Bud → Deck → Tree × Deck
  | 0, b, deck => (.leaf (verdictAt limits all b), deck)
  | fuel + 1, b, deck =>
    match splitOf limits all b deck with
    | (none, deck) => (.leaf (verdictAt limits all b), deck)
    | (some s, deck) =>
      let (below, deck) := grow limits all fuel s.below deck
      let (above, deck) := grow limits all fuel s.above deck
      (.ask (verdictAt limits all b) s.question below above, deck)

/-- A leaf that can be split, and where it is. -/
structure Candidate where
  path : List Bool
  verdict : Verdict
  split : Split

def candidateOf (limits : Limits) (all : Float) (path : List Bool) (b : Bud) (deck : Deck) :
    Option Candidate × Deck :=
  let (split, deck) := splitOf limits all b deck
  (split.map fun s => ⟨path, verdictAt limits all b, s⟩, deck)

/-- The candidate that improves most, the first of equals, and its place. -/
def foremost (candidates : List Candidate) : Option (Candidate × Nat) :=
  candidates.zipIdx.foldl (fun best p =>
    match best with
    | some b => if b.1.split.improvement < p.1.split.improvement then some p else some b
    | none => some p) none

/-- Splits leaves, the best candidates first, until no split is left. -/
def growBest (limits : Limits) (all : Float) : Nat → Tree → List Candidate → Deck → Tree
  | 0, tree, _, _ => tree
  | splits + 1, tree, candidates, deck =>
    match foremost candidates with
    | none => tree
    | some (c, place) =>
      let new := Tree.ask c.verdict c.split.question
        (.leaf (verdictAt limits all c.split.below)) (.leaf (verdictAt limits all c.split.above))
      let (below, deck) := candidateOf limits all (c.path ++ [true]) c.split.below deck
      let (above, deck) := candidateOf limits all (c.path ++ [false]) c.split.above deck
      growBest limits all splits (tree.graft c.path new)
        (candidates.eraseIdx place ++ below.toList ++ above.toList) deck

/-- The tree of some samples, which have rows and targets of some lengths. Samples without weight do
not count. -/
def ofSamples (limits : Limits) (width targets seed : Nat) (samples : List Sample) : Tree :=
  let samples := samples.filter fun s => s.weight != 0.0
  let whole := Sums.ofSamples targets samples
  let all := whole.weight
  let root : Bud := ⟨samples, whole, limits.criterion.impurity whole, 0, 0,
    ⟨-(1.0 / 0.0), 1.0 / 0.0⟩⟩
  let deck : Deck := ⟨Array.range width, Array.replicate width 0, ⟨UInt32.ofNat seed⟩⟩
  match limits.leaves with
  | none => (grow limits all samples.length root deck).1
  | some leaves =>
    let (first, deck) := candidateOf limits all [] root deck
    growBest limits all (leaves - 1) (.leaf (verdictAt limits all root)) first.toList deck

end ColumnFlow.Learn.Tree
