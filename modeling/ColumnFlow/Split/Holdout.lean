import ColumnFlow.Draw.Choice
import ColumnFlow.Split.Classes
import ColumnFlow.Value.Domain

/-!
Holdout splits: training rows and held-out rows. The held-out part is a share of the rows, rounded
up, or a number of rows. A random split may keep the shares of the classes.
-/
namespace ColumnFlow

/-- Positions of the rows to learn from and of those held out. -/
structure Holdout where
  train : List Nat
  test : List Nat

namespace Holdout

/-- The size of the held-out part: a share strictly between 0 and 1, or a count of at least 1. -/
def size : Parameter := ⟨"test_size", [.share (.between 0.0 1.0), .atLeast 1]⟩

/-- A number from 0 on, rounded up to a whole one. -/
def roundUp (x : Float) : Nat :=
  let low := x.toUInt64.toNat
  if Float.ofNat low < x then low + 1 else low

/-- The count of held-out rows of `n`; some rows must remain. A truth value is no count. -/
def testCount (size : Value) (n : Nat) : Except Failure Nat :=
  let count? := match size with
    | .scalar (.int k) => some k.toNat
    | .scalar (.float x) => some (roundUp (x * Float.ofNat n))
    | _ => none
  match count? with
  | some count => if count < n then .ok count else .error (.unusable .value)
  | none => .error (.unusable .value)

/-- Rounds the shares of `draws` among classes down, and adds what is missing where the largest
parts were cut off, ties at random. -/
def apportion (counts : List Nat) (draws : Nat) (t : Draw.Twister) : List Nat × Draw.Twister :=
  let total := Float.ofNat (counts.foldl (· + ·) 0)
  let exact := counts.map fun c => Float.ofNat c / total * Float.ofNat draws
  let floors := exact.map fun x => x.floor.toUInt64.toNat
  let rests := exact.map fun x => x - x.floor
  let values := (rests.foldl (fun found r =>
    if found.any (· == r) then found else found ++ [r]) []).mergeSort fun a b => a ≥ b
  add rests values (draws - floors.foldl (· + ·) 0) floors t
where
  /-- Goes through the cut-off parts from the largest on. -/
  add (rests : List Float) : List Float → Nat → List Nat → Draw.Twister → List Nat × Draw.Twister
    | _, 0, floors, t => (floors, t)
    | [], _, floors, t => (floors, t)
    | value :: values, missing, floors, t =>
      let tied := (rests.zipIdx.filter fun p => p.1 == value).map (·.2)
      let now := min tied.length missing
      let (order, t) := t.permutation tied.length
      let chosen := (order.take now).filterMap fun i => tied[i]?
      let floors := floors.zipIdx.map fun p => if chosen.contains p.2 then p.1 + 1 else p.1
      add rests values (missing - now) floors t

/-- Splits every class: the first of its rows in random order are for training. -/
def splitClasses : List (List Nat × Nat × Nat) → Draw.Twister →
    List Nat × List Nat × Draw.Twister
  | [], t => ([], [], t)
  | (rows, trainCount, testCount) :: rest, t =>
    let (order, t) := t.permutation rows.length
    let shuffled := pick order rows
    let (train, test, t) := splitClasses rest t
    (shuffled.take trainCount ++ train, (shuffled.drop trainCount).take testCount ++ test, t)

/-- A random split that keeps the shares of the classes. -/
def stratified (n testCount : Nat) (s : Series) (t : Draw.Twister) : Except Failure Holdout := do
  let (codes, classes) ← Classes.sortedCodes (← Classes.keys s)
  let members := Classes.members codes classes
  let counts := members.map List.length
  if counts.any (· < 2) || n - testCount < classes || testCount < classes then
    throw (.unusable .value)
  let (trainCounts, t) := apportion counts (n - testCount) t
  let remaining := counts.zipWith (· - ·) trainCounts
  let (testCounts, t) := apportion remaining testCount t
  let (train, test, t) := splitClasses (members.zip (trainCounts.zip testCounts)) t
  let (train, t) := t.shuffle train
  let (test, _) := t.shuffle test
  return ⟨train, test⟩

/-- Splits `n` rows. Without a seed the held-out rows are the last ones; classes can only be kept in
a random split. -/
def split (n : Nat) (asked : Value) (seed : Option Value) (classes : Option Series) :
    Except Failure Holdout := do
  let isTaken := size.takes asked && seed.all Parameter.randomState.takes
  if !isTaken then throw (.unusable .parameter)
  let count ← testCount asked n
  match seed.map fun v => (Domain.whole? v).getD 0, classes with
  | none, none => return ⟨List.range (n - count), (List.range n).drop (n - count)⟩
  | none, some _ => throw (.unusable .value)
  | some seed, none =>
    let (order, _) := (Draw.Twister.ofSeed seed.toNat).permutation n
    return ⟨(order.drop count).take (n - count), order.take count⟩
  | some seed, some s => stratified n count s (.ofSeed seed.toNat)

end Holdout
end ColumnFlow
