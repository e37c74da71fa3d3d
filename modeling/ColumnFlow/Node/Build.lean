import ColumnFlow.Node.Copy
import ColumnFlow.Node.View
import ColumnFlow.Node.Work

/-!
Building trees. Every constructor takes a new identity for its node and checks its parts: a
composite and an ensemble need at least two, and all of them must be nodes. Composing flattens
operands of the kind that is being built.
-/
namespace ColumnFlow

/-- What is offered as a part: a node, or a value of some other kind. -/
inductive Part where
  | node (n : Node)
  | value (kind : String)
  deriving Inhabited

namespace Part

/-- The nodes, or the failure for the first part that is none. -/
def nodes (misplaced : String → Misplaced) (parts : List Part) : Except Failure (List Node) :=
  parts.mapM fun
    | .node n => .ok n
    | .value kind => .error (.misplaced (misplaced kind))

/-- The nodes among the parts of a composite, of which there must be at least two. -/
def children (kind : String) (parts : List Part) : Except Failure (List Node) :=
  if parts.length < 2 then .error (.misuse (.childCount kind parts.length))
  else nodes (.child kind) parts

/-- The nodes among the members of an ensemble, of which there must be at least two. -/
def members (kind : String) (parts : List Part) : Except Failure (List Node) :=
  if parts.length < 2 then .error (.misuse (.learnerCount kind parts.length))
  else nodes .member parts

end Part

namespace Node

/-- Takes a new identity for a plan over some sites. A name that counts as false gives way to the
default. -/
def place (plan : Plan) (name : Label) (sites : List Site) : Work Node :=
  Work.placing fun m =>
    let (site, m) := m.place (plan.copiedName name) sites
    (⟨plan, site⟩, m)

def leaf (plan : Plan) (name : Label) : Work Node :=
  Work.placing fun m =>
    let (site, m) := m.place name []
    (⟨plan, site⟩, m)

def plans (nodes : List Node) : List Plan := nodes.map (·.plan)

def sites (nodes : List Node) : List Site := nodes.map (·.site)

def sequential (parts : List Part) (name : Label) : Work Node := do
  let nodes ← Part.children "Sequential" parts
  place (.sequential (plans nodes)) name (sites nodes)

def parallel (parts : List Part) (name : Label) : Work Node := do
  let nodes ← Part.children "Parallel" parts
  place (.parallel (plans nodes)) name (sites nodes)

def vote (parts : List Part) (name : Label) : Work Node := do
  let nodes ← Part.members "VoteEnsemble" parts
  place (.vote (plans nodes)) name (sites nodes)

def best (parts : List Part) (policy : SelectionPolicy) (name : Label) : Work Node := do
  let nodes ← Part.members "BestLearner" parts
  place (.best (plans nodes) policy) name (sites nodes)

/-- A stack whose stacker is given, or made by default. -/
def stack (parts : List Part) (stacker : Option Part) (default : Work Node)
    (settings : StackSettings) (name : Label) : Work Node := do
  let nodes ← Part.members "StackEnsemble" parts
  let top ← match stacker with
    | some (.node n) => pure n
    | some (.value _) => throw (.unusable .attribute)
    | none => default
  place (.stack top.plan (plans nodes) settings) name (top.site :: sites nodes)

/-- A share of the rows, more than nothing and at most all. -/
def checkShare (share : Value) : Except Failure Unit :=
  match share.number? with
  | some x =>
    if 0.0 < x && x ≤ 1.0 then .ok () else .error (.misuse (.sampleShare share))
  | none => .error (.unusable .type)

/-- Copies of a template, which are the members of a bagging ensemble. -/
def bagging (template : Part) (settings : BaggingSettings) (name : Label) : Work Node := do
  checkShare settings.share
  let count := settings.count.toNat
  match template with
  | .value _ =>
    if count = 0 then throw (.misuse (.learnerCount "BaggingEnsemble" 0))
    throw (.unusable .attribute)
  | .node t =>
    let members ← Work.placing (Memory.times (fun m => t.plan.copy t.site m) count)
    if count < 2 then throw (.misuse (.learnerCount "BaggingEnsemble" count))
    place (.bagging t.plan settings) name (t.site :: members)

/-- The operands of a composition, with the children of those that `flatten` accepts. -/
def operands (flatten : Plan → Bool) (parts : List Part) : Except Failure (List Part) := do
  let flat ← parts.mapM fun
    | .node n => .ok (if flatten n.plan then n.children.map Part.node else [.node n])
    | .value kind => .error (.misplaced (.operand kind))
  return flat.flatten

def isSequential : Plan → Bool
  | .sequential _ => true
  | _ => false

def isParallel : Plan → Bool
  | .parallel _ => true
  | _ => false

/-- One operand after the other. -/
def andThen (a : Node) (b : Part) : Work Node := do
  sequential (← operands isSequential [.node a, b]) .null

/-- One operand beside the other. -/
def alongside (a : Node) (b : Part) : Work Node := do
  parallel (← operands isParallel [.node a, b]) .null

/-- The node with other identities and the same state. -/
def duplicate (n : Node) : Work Node :=
  Work.placing fun m =>
    let (site, m) := n.site.duplicate m
    (⟨n.plan, site⟩, m)

end Node
end ColumnFlow
