/-!
Decision trees. A node asks whether a feature is at most a threshold, and says where rows go that
lack the feature. Every node knows what its rows would be answered, and how much of all impurity
they carry: `pruned` puts a leaf where a branch does not lower that enough for its leaves.
-/
namespace ColumnFlow.Learn

structure Question where
  feature : Nat
  threshold : Float
  /-- Whether rows without the feature count as below the threshold. -/
  isMissingBelow : Bool

namespace Question

/-- Whether a value is at most the threshold. -/
def putsBelow (q : Question) (x : Float) : Bool :=
  if x.isNaN then q.isMissingBelow else x ≤ q.threshold

def isBelow (q : Question) (row : Array Float) : Bool := q.putsBelow (row.getD q.feature 0.0)

end Question

/-- The answer for the rows of a node, and the part of all impurity that is theirs. -/
structure Verdict where
  answer : Array Float
  risk : Float

inductive Tree where
  | leaf (verdict : Verdict)
  | ask (verdict : Verdict) (question : Question) (below above : Tree)

namespace Tree

/-- The verdict at the leaf that a row falls into. -/
def judge (row : Array Float) : Tree → Verdict
  | .leaf v => v
  | .ask _ q below above => if q.isBelow row then judge row below else judge row above

def answer (row : Array Float) (t : Tree) : Array Float := (t.judge row).answer

/-- How many leaves there are, and the sum of their risks. -/
def leaves : Tree → Nat × Float
  | .leaf v => (1, v.risk)
  | .ask _ _ below above =>
    let (m, r) := below.leaves
    let (n, s) := above.leaves
    (m + n, r + s)

theorem leaves_pos (t : Tree) : 0 < t.leaves.1 := by
  induction t with
  | leaf v => simp [leaves]
  | ask v q below above ih _ => simp only [leaves]; omega

/-- Replaces branches by leaves, as long as every leaf that goes costs at most `penalty`. -/
def pruned (penalty : Float) : Tree → Tree
  | .leaf v => .leaf v
  | .ask v q below above =>
    let branch := Tree.ask v q (below.pruned penalty) (above.pruned penalty)
    let (count, risk) := branch.leaves
    if (v.risk - risk) / Float.ofNat (count - 1) ≤ penalty then .leaf v else branch

/-- Gives every leaf the answer that is found from the items whose rows fall into it. -/
def refit {α : Type} (row : α → Array Float) (answer : List α → Array Float) :
    Tree → List α → Tree
  | .leaf v, items => .leaf { v with answer := answer items }
  | .ask v q below above, items =>
    let (low, high) := items.partition fun a => q.isBelow (row a)
    .ask v q (refit row answer below low) (refit row answer above high)

/-- Puts a tree in the place that a path leads to, which goes below a question on `true`. -/
def graft : Tree → List Bool → Tree → Tree
  | _, [], new => new
  | .leaf v, _ :: _, _ => .leaf v
  | .ask v q below above, isBelow :: path, new =>
    if isBelow then .ask v q (graft below path new) above
    else .ask v q below (graft above path new)

end Tree
end ColumnFlow.Learn
