import ColumnFlow.Learn.Samples
import ColumnFlow.Numbers.Statistics

/-!
Losses: how much it costs to have some scores for a row of a class. A row has one score for each
class, or a single one where there are two classes; the higher that is, the more it speaks for the
second one. Scores stand for shares of the classes, and are pulled to where the cost is lower.
-/
namespace ColumnFlow.Learn

inductive Loss where
  /-- Two classes: the negative logarithm of the share of the right one. -/
  | logistic
  /-- Two classes: the exponential of how wrong the score is. -/
  | exponential
  /-- Several classes: the negative logarithm of the share of the right one. -/
  | shared (classes : Nat)

namespace Loss

/-- Shares in proportion to the exponentials of some numbers. -/
def softened (xs : List Float) : Array Float :=
  let top := Numbers.greatest xs
  let powers := xs.map fun x => Float.exp (x - top)
  let total := Numbers.sum powers
  (powers.map (· / total)).toArray

/-- The logarithm of a number beyond one, which is given by how far it is. -/
def logBeyondOne (x : Float) : Float :=
  let whole := 1.0 + x
  if whole == 1.0 then x else Float.log whole * x / (whole - 1.0)

/-- The logarithm of one and an exponential. -/
def softplus (x : Float) : Float :=
  if x ≤ -2.0 then logBeyondOne (Float.exp x)
  else if x ≤ 18.0 then Float.log (1.0 + Float.exp x)
  else x + Float.exp (-x)

/-- How many scores a row has. -/
def width : Loss → Nat
  | .shared classes => classes
  | _ => 1

def cost (l : Loss) (code : Nat) (scores : Array Float) : Float :=
  let x := scores.getD 0 0.0
  let y := Float.ofNat code
  match l with
  | .logistic => softplus x - y * x
  | .exponential => y * Float.exp (-x) + (1.0 - y) * Float.exp x
  | .shared _ =>
    let top := Numbers.greatest scores.toList
    Float.log (Numbers.sum (scores.toList.map fun s => Float.exp (s - top))) + top
      - scores.getD code 0.0

/-- One for the rows that should have a high score, and zero for the others. -/
def aim (l : Loss) (place code : Nat) : Float :=
  match l with
  | .shared _ => if code = place then 1.0 else 0.0
  | _ => Float.ofNat code

/-- How fast the cost falls when a score rises. -/
def pulls (l : Loss) (code : Nat) (scores : Array Float) : Array Float :=
  let x := scores.getD 0 0.0
  let y := Float.ofNat code
  match l with
  | .logistic =>
    if x > -37.0 then
      let e := Float.exp (-x)
      #[-((1.0 - y) - y * e) / (1.0 + e)]
    else #[y - Float.exp x]
  | .exponential => #[y / Float.exp x - (1.0 - y) * Float.exp x]
  | .shared _ => (softened scores.toList).mapIdx fun k share => l.aim k code - share

/-- The shares of the classes that scores stand for. -/
def shares (l : Loss) (scores : Array Float) : Array Float :=
  let second (x : Float) : Array Float :=
    let p := 1.0 / (1.0 + Float.exp (-x))
    #[1.0 - p, p]
  match l with
  | .logistic => second (scores.getD 0 0.0)
  | .exponential => second (2.0 * scores.getD 0 0.0)
  | .shared _ => softened scores.toList

/-- Shares are kept away from zero and one. -/
def margin : Float := 1.1920928955078125e-7

/-- Scores that stand for some shares. -/
def scoresOf (l : Loss) (shares : Array Float) : Array Float :=
  let kept := shares.map fun p =>
    if p < margin then margin else if 1.0 - margin < p then 1.0 - margin else p
  let p := kept.getD 1 0.0
  let odds := Float.log (p / (1.0 - p))
  match l with
  | .logistic => #[odds]
  | .exponential => #[0.5 * odds]
  | .shared _ =>
    let middle := Float.exp (Numbers.mean (kept.toList.map Float.log))
    kept.map fun p => Float.log (p / middle)

end Loss
end ColumnFlow.Learn
