import ColumnFlow.Node.Leaf
import ColumnFlow.Node.Structure

/-!
Plans: node trees without identity and state. A sequence pipes the output of each part into the
next; a parallel feeds one input to all parts and puts their outputs side by side. Ensembles combine
the predictions of their members: by vote, by a learner stacked on top of them, by choosing the
best, or by voting of copies of one template trained on random samples of the rows.
-/
namespace ColumnFlow

/-- The choices of a stack, as they were given. -/
structure StackSettings where
  /-- The share or number of rows that train the stacker; what counts as false stands for the
  default. -/
  proportion : Value
  keepOriginal : Value
  stratify : Value
  seed : Value

/-- How candidates are compared: the choices as they were given. -/
structure SelectionPolicy where
  metric : Value
  strategy : Value
  testSize : Value
  folds : Value
  stratify : Value
  shuffle : Value
  seed : Value

inductive Task where
  | classification
  | regression
  deriving DecidableEq

def Task.text : Task → String
  | .classification => "classification"
  | .regression => "regression"

def Task.read (v : Value) : Except Failure Task :=
  match v with
  | .scalar (.text "classification") => .ok .classification
  | .scalar (.text "regression") => .ok .regression
  | _ => .error (.misuse (.task v))

structure BaggingSettings where
  count : Int
  /-- The size of a sample as a share of the rows. -/
  share : Value
  task : Task
  seed : Value

inductive Plan where
  | transformer (t : Transformer)
  | learner (l : Learner)
  | element (e : Element)
  | sequential (parts : List Plan)
  | parallel (parts : List Plan)
  | vote (members : List Plan)
  | stack (stacker : Plan) (members : List Plan) (settings : StackSettings)
  | best (candidates : List Plan) (policy : SelectionPolicy)
  | bagging (template : Plan) (settings : BaggingSettings)

instance : Inhabited Plan := ⟨.sequential []⟩

namespace Plan

/-- The name of a node's kind in answers. -/
def kind : Plan → String
  | .transformer _ => "StatefulTransformer"
  | .learner _ => "StatefulEstimator"
  | .element e => e.kind
  | .sequential _ => "Sequential"
  | .parallel _ => "Parallel"
  | .vote _ => "VoteEnsemble"
  | .stack .. => "StackEnsemble"
  | .best .. => "BestLearner"
  | .bagging .. => "BaggingEnsemble"

/-- The name of a composite or an ensemble that is given none. -/
def defaultName : Plan → String
  | .sequential _ => "seq"
  | .parallel _ => "par"
  | .vote _ => "vote"
  | .stack .. => "stack"
  | .best .. => "best"
  | .bagging .. => "bagging"
  | _ => ""

end Plan
end ColumnFlow
