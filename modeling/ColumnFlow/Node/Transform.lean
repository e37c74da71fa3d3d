import ColumnFlow.Node.Predictions

/-!
Transforming a frame. A tree reads the memory and does not change it. A tree that is not fitted
refuses every frame before any of its parts is asked, and so does one whose columns are missing.
-/
namespace ColumnFlow.Plan

mutual

def transform (m : Memory) : Plan → Site → Frame → Logged Frame
  | .transformer t, s, X =>
    m.guarded s ((Plan.transformer t).isFitted m s) X fun _ => m.applyFitted s X
  | .learner l, s, X => m.guarded s ((Plan.learner l).isFitted m s) X fun _ => m.answer l s X
  | .element e, s, X =>
    m.guarded s ((Plan.element e).isFitted m s) X fun _ => e.transform (m.name s) X
  | .sequential ps, s, X =>
    m.guarded s ((Plan.sequential ps).isFitted m s) X fun _ => chain m ps s.parts X
  | .parallel ps, s, X =>
    m.guarded s ((Plan.parallel ps).isFitted m s) X fun _ => do
      let outputs ← outputs m ps s.parts X
      m.concatenate s (m.labelsOf s.parts) outputs X
  | .vote ps, s, X =>
    m.guarded s ((Plan.vote ps).isFitted m s) X fun _ => do
      let members ← labelsOfAll m ps s.parts X
      let winners ← Majority.ofFrame (Memory.besides (m.labelsOf s.parts) members X)
      return m.output s winners X
  | .stack t ps settings, s, X =>
    m.guarded s ((Plan.stack t ps settings).isFitted m s) X fun _ => do
      let members ← labelsOfAll m ps s.rest X
      let predictions := Memory.besides (m.labelsOf s.rest) members X
      let stacked ←
        Stacking.features (Stacking.stored m s) settings.keepOriginal.isTrue predictions X
      let values ← m.labels t s.first stacked fun _ => transform m t s.first stacked
      return m.output s values X
  | .best ps policy, s, X =>
    m.guarded s ((Plan.best ps policy).isFitted m s) X fun _ => do
      let values ← labelsAt m ps s.parts ((m.winner s).getD 0) X
      return m.output s values X
  | .bagging t settings, s, X =>
    m.guarded s ((Plan.bagging t settings).isFitted m s) X fun _ => do
      let members ← s.rest.mapM fun member =>
        m.labels t member X fun _ => transform m t member X
      let predictions := Memory.besides (m.labelsOf s.rest) members X
      match settings.task with
      | .regression => return m.output s (← RowMeans.ofFrame predictions) X
      | .classification => return m.output s (← Majority.ofFrame predictions) X

/-- Each part transforms what the part before it returned. -/
def chain (m : Memory) : List Plan → List Site → Frame → Logged Frame
  | p :: ps, s :: ss, X => do chain m ps ss (← transform m p s X)
  | _, _, X => return X

/-- All parts transform the same frame. -/
def outputs (m : Memory) : List Plan → List Site → Frame → Logged (List Frame)
  | p :: ps, s :: ss, X => do
    let first ← transform m p s X
    return first :: (← outputs m ps ss X)
  | _, _, _ => return []

/-- The labels of all members. -/
def labelsOfAll (m : Memory) : List Plan → List Site → Frame → Logged (List Series)
  | p :: ps, s :: ss, X => do
    let first ← m.labels p s X fun _ => transform m p s X
    return first :: (← labelsOfAll m ps ss X)
  | _, _, _ => return []

/-- The labels of one member. -/
def labelsAt (m : Memory) : List Plan → List Site → Nat → Frame → Logged Series
  | p :: _, s :: _, 0, X => m.labels p s X fun _ => transform m p s X
  | _ :: ps, _ :: ss, i + 1, X => labelsAt m ps ss i X
  | _, _, _, _ => Logged.fail .attribute

end

mutual

/-- Whether the answer to a frame is that very frame. -/
def returnsInput (m : Memory) : Plan → Site → Frame → Bool
  | .transformer _, s, X =>
    match (m.slot s.id).learned with
    | .fitted f => f.keeps X
    | _ => false
  | .element e, _, _ => e.returnsInput
  | .sequential ps, s, X => allReturnInput m ps s.parts X
  | _, _, _ => false

def allReturnInput (m : Memory) : List Plan → List Site → Frame → Bool
  | p :: ps, s :: ss, X => returnsInput m p s X && allReturnInput m ps ss X
  | _, _, _ => true

end

end ColumnFlow.Plan

namespace ColumnFlow.Node

/-- Transforms data of any form with a node that is fitted. -/
def transform (n : Node) (m : Memory) (X : Data) : Logged Frame :=
  if !n.isFitted m then throw (.notFitted (n.label m))
  else do n.plan.transform m n.site (← X.toFrame)

/-- Whether the answer to a frame is that very frame. -/
def returnsInput (n : Node) (m : Memory) (X : Frame) : Bool := n.plan.returnsInput m n.site X

/-- One label for every row of data of any form, from a learner. -/
def predict (n : Node) (m : Memory) (X : Data) : Logged Series :=
  if !n.isFitted m then throw (.notFitted (n.label m))
  else do
    let X ← X.toFrame
    m.labels n.plan n.site X fun _ => n.plan.transform m n.site X

/-- One label for every row, from a node of any kind. -/
def labels (n : Node) (m : Memory) (X : Frame) : Logged Series :=
  m.labels n.plan n.site X fun _ => n.plan.transform m n.site X

end ColumnFlow.Node
