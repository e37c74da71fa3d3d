import ColumnFlow.Draw.Choice
import ColumnFlow.Split.Classes

/-!
Folds: splits of row positions into equally large test slices, each with the rows outside of it as
its training slice. Without classes the slices are consecutive parts of the rows, or of the rows in
random order; with classes every class is dealt evenly to the slices.
-/
namespace ColumnFlow

/-- Disjoint training and test positions. -/
structure Fold where
  index : Nat
  train : List Nat
  test : List Nat
  deriving Inhabited

namespace Fold

def sizeOf (n k i : Nat) : Nat := n / k + if i < n % k then 1 else 0

/-- Cuts a list into consecutive parts of given lengths. -/
def cut {α : Type} : List Nat → List α → List (List α)
  | [], _ => []
  | size :: sizes, items => items.take size :: cut sizes (items.drop size)

/-- The fold whose test slice holds the rows that are assigned to it. -/
def ofAssignment (n : Nat) (isTest : Nat → Bool) (index : Nat) : Fold :=
  ⟨index, (List.range n).filter fun r => !isTest r, (List.range n).filter isTest⟩

/-- Consecutive slices of some order of the rows. -/
def ofOrder (n k : Nat) (order : List Nat) : List Fold :=
  (cut ((List.range k).map (sizeOf n k)) order).zipIdx.map fun p =>
    ofAssignment n (fun r => p.1.contains r) p.2

/-- Every `k`-th item from `start` on. -/
def everyNth {α : Type} (k start : Nat) (items : List α) : List α :=
  (items.zipIdx.filter fun p => p.2 % k == start).map (·.1)

/-- How many rows of class `c` the fold `i` takes. -/
def quota (codes : List Nat) (k i c : Nat) : Nat :=
  (everyNth k i (codes.mergeSort fun a b => a ≤ b)).count c

/-- The fold numbers dealt to the rows of a class. -/
def dealt (codes : List Nat) (k c : Nat) : List Nat :=
  (List.range k).flatMap fun i => List.replicate (quota codes k i c) i

/-- The fold numbers for all classes, shuffled class by class if there is a source of draws. -/
def dealAll (codes : List Nat) (k : Nat) : List Nat → Option Draw.Twister → List (List Nat)
  | [], _ => []
  | c :: cs, none => dealt codes k c :: dealAll codes k cs none
  | c :: cs, some t =>
    let (numbers, t) := t.shuffle (dealt codes k c)
    numbers :: dealAll codes k cs (some t)

/-- Hands out the numbers of every class to its rows from the first row on. -/
def assign : List Nat → List (List Nat) → List Nat
  | [], _ => []
  | c :: codes, hands =>
    let hand := hands.getD c []
    hand.headD 0 :: assign codes (hands.set c hand.tail)

def ofNumbers (n k : Nat) (numbers : List Nat) : List Fold :=
  let table := numbers.toArray
  (List.range k).map fun i => ofAssignment n (fun r => table[r]? == some i) i

end Fold

/-- How rows are cut into folds. -/
structure FoldPlan where
  count : Nat
  stratified : Bool
  /-- The seed of the random order, if the order is random. -/
  seed : Option Int

namespace FoldPlan

/-- The source of draws; a seed out of range is refused. -/
def source (p : FoldPlan) : Except Failure (Option Draw.Twister) :=
  match p.seed with
  | none => .ok none
  | some seed =>
    if Draw.isSeed seed then .ok (some (.ofSeed seed.toNat)) else .error (.unusable .value)

def plainFolds (p : FoldPlan) (n : Nat) : Except Failure (List Fold) := do
  match ← p.source with
  | none => return Fold.ofOrder n p.count (List.range n)
  | some t => return Fold.ofOrder n p.count (t.permutation n).1

/-- Some class must have as many rows as there are folds. -/
def stratifiedFolds (p : FoldPlan) (s : Series) : Except Failure (List Fold) := do
  let source ← p.source
  let (codes, classes) := Classes.codes (← Classes.classKeys s)
  if (List.range classes).all fun c => codes.count c < p.count then throw (.unusable .value)
  let hands := Fold.dealAll codes p.count (List.range classes) source
  return Fold.ofNumbers codes.length p.count (Fold.assign codes hands)

/-- The folds for a target, one fold for every test slice. -/
def folds (p : FoldPlan) (s : Series) : Except Failure (List Fold) :=
  if p.stratified then p.stratifiedFolds s else p.plainFolds s.rows

end FoldPlan
end ColumnFlow
