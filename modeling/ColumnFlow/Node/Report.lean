import ColumnFlow.Node.View

/-!
Reports on trees as values: a summary of what a node is, and the whole state of a tree with the
options of its leaves and what they have learned.
-/
namespace ColumnFlow

namespace Report

def optionalInt : Option Int → Value
  | some n => .int n
  | none => .null

def optionalText : Option String → Value
  | some s => .text s
  | none => .null

def optionalLabels : Option (List Label) → Value
  | some labels => .ofLabels labels
  | none => .null

/-- What a transformer has learned, if anything. -/
def params : Learned → Value
  | .fitted f => .dict f.params
  | _ => .null

def hasModel : Learned → Bool
  | .model _ => true
  | _ => false

/-- The labels of a stack with their places. -/
def labelCodes : Learned → Value
  | .codes codes => .list (codes.map fun c => .list [.scalar c.1, .nat c.2])
  | _ => .null

def scores : Learned → Value
  | .choice _ scores => .list (scores.map fun s => .list [.scalar s.1, .float s.2])
  | _ => .list []

def stackSettings (s : StackSettings) : Value :=
  .list [s.proportion, s.keepOriginal, s.stratify, s.seed]

def baggingSettings (s : BaggingSettings) : Value :=
  .list [.int s.count, s.share, .text s.task.text, s.seed]

def policy (p : SelectionPolicy) : Value :=
  .record [("metric", p.metric), ("strategy", p.strategy), ("test_size", p.testSize),
    ("n_folds", p.folds), ("stratify", p.stratify), ("shuffle", p.shuffle),
    ("random_state", p.seed)]

end Report

namespace Memory

/-- What every node tells of itself. -/
def basics (m : Memory) (s : Site) (fitted : Bool) : List (String × Value) :=
  [("name", .scalar (m.label s)), ("fitted", .bool fitted),
    ("input_columns", Report.optionalLabels (m.inputColumns s))]

/-- The name and the place of the part that was chosen. -/
def choice (m : Memory) (s : Site) : List (String × Value) :=
  let place := m.winner s
  let chosen := place.bind fun i => s.parts[i]?
  [("best", (chosen.map fun s => Value.scalar (m.label s)).getD .null),
    ("best_index", Report.optionalInt (place.map Int.ofNat)),
    ("scores", Report.scores (m.slot s.id).learned)]

end Memory

namespace Plan

mutual

def state (m : Memory) : Plan → Site → Value
  | .transformer t, s =>
    .record (m.basics s ((Plan.transformer t).isFitted m s) ++
      [("params", Report.params (m.slot s.id).learned), ("config", .dict t.options)])
  | .learner l, s =>
    .record (m.basics s ((Plan.learner l).isFitted m s) ++
      [("has_model", .bool (Report.hasModel (m.slot s.id).learned)), ("config", .dict l.options),
        ("output", .text l.output.text), ("problem_type", .text l.problem)])
  | .element e, s => .record (m.basics s ((Plan.element e).isFitted m s))
  | .sequential ps, s =>
    .record (m.basics s ((Plan.sequential ps).isFitted m s) ++
      [("children", .list (states m ps s.parts))])
  | .parallel ps, s =>
    .record (m.basics s ((Plan.parallel ps).isFitted m s) ++
      [("children", .list (states m ps s.parts))])
  | .vote ps, s =>
    .record (m.basics s ((Plan.vote ps).isFitted m s) ++
      [("children", .list (states m ps s.parts))])
  | .stack t ps settings, s =>
    .record (m.basics s ((Plan.stack t ps settings).isFitted m s) ++
      [("children", .list (states m ps s.rest)),
        ("label_codes", Report.labelCodes (m.slot s.id).learned),
        ("stacker", state m t s.first), ("settings", Report.stackSettings settings)])
  | .best ps policy, s =>
    .record (m.basics s ((Plan.best ps policy).isFitted m s) ++ m.choice s ++
      [("children", .list (states m ps s.parts)), ("policy", Report.policy policy)])
  | .bagging t settings, s =>
    .record (m.basics s ((Plan.bagging t settings).isFitted m s) ++
      [("children", .list (s.rest.map fun member => state m t member)),
        ("settings", Report.baggingSettings settings), ("template", state m t s.first)])

def states (m : Memory) : List Plan → List Site → List Value
  | p :: ps, s :: ss => state m p s :: states m ps ss
  | _, _ => []

end

end Plan

namespace Node

/-- The whole state of a tree. -/
def state (n : Node) (m : Memory) : Value := n.plan.state m n.site

/-- What a node is. -/
def summary (n : Node) (m : Memory) : Except Failure (List (String × Value)) := do
  return [("type", .text n.plan.kind), ("name", .scalar (n.label m)), ("repr", .text (← n.text m)),
    ("fitted", .bool (n.isFitted m)), ("structure", (n.outline m).toValue)]

end Node
end ColumnFlow
