import ColumnFlow.Node.Report
import ColumnFlow.Pipeline
import ColumnFlow.Registry.Standard
import ColumnFlow.Settings.Logging

/-!
Sessions. A session holds registries, nodes, pipelines and validators under names, together with
the memory of all nodes, the metrics and the settings. Settings are read from the environment when
they are first needed, and kept from then on until they are cleared.
-/
namespace ColumnFlow

/-- What can be stored under a name and run on data. Executors and pipelines have no name of their
own, but may be given one. -/
inductive Runnable where
  | node (n : Node)
  | executor (n : Node) (name : Option Label)
  | pipeline (p : Pipeline) (name : Option Label)

namespace Runnable

/-- What is stored, as a part of a tree. -/
def part : Runnable → Part
  | .node n => .node n
  | .executor .. => .value "PipelineExecutor"
  | .pipeline .. => .value "ExpressionPipeline"

/-- What is stored, as a node; anything else is refused for some cause. -/
def asNode (cause : Unusable) : Runnable → Except Failure Node
  | .node n => .ok n
  | _ => .error (.unusable cause)

/-- What can be saved: only pipelines can. -/
def saved : Runnable → Except Failure Pipeline
  | .pipeline p _ => .ok p
  | _ => .error (.unusable .attribute)

/-- The node that is run. -/
def target : Runnable → Node
  | .node n | .executor n _ => n
  | .pipeline p _ => p.node

def fit (env : Surroundings) (X y : Data) : Runnable → Work Unit
  | .node n => n.fit env X y
  | .executor n _ => Executor.fit env n X y
  | .pipeline p _ => Executor.fit env p.node X y

def transform (X : Data) : Runnable → Work Frame
  | .node n => do n.transform (← Work.memory) X
  | .executor n _ => Executor.transform n X
  | .pipeline p _ => Executor.transform p.node X

def fitTransform (env : Surroundings) (X y : Data) (r : Runnable) : Work Frame := do
  r.fit env X y
  r.transform X

/-- The predictions of a learner, or the first output column of an executor or a pipeline. Other
nodes have no predictions. -/
def predict (X : Data) : Runnable → Work Series
  | .node n =>
    match n.plan with
    | .learner _ => do n.predict (← Work.memory) X
    | _ => throw (.unusable .attribute)
  | .executor n _ => Executor.predict n X
  | .pipeline p _ => Executor.predict p.node X

/-- The only column of an output. Outputs of other shapes are told by name, where there is one. -/
def onlyColumn (name : Option Label) (X output : Frame) : Except Failure Series :=
  match output.columns with
  | [c] => if c.cells.length = X.rows then .ok ⟨c, X.index⟩ else .error (.unusable .value)
  | _ =>
    match name with
    | some label => .error (.mismatch (.columnCount label output.labels))
    | none => .error (.unusable .attribute)

/-- One label for every row. -/
def labels (X : Frame) : Runnable → Work Series
  | .node n => do n.labels (← Work.memory) X
  | .executor n name => do onlyColumn name X (← Executor.transform n (.frame X))
  | .pipeline p name => do onlyColumn name X (← Executor.transform p.node (.frame X))

/-- Gives what is stored a name of its own. The name of a node is kept in the memory. -/
def named (name : Label) : Runnable → Work Runnable
  | .node n => do
    Work.setName n.site name
    return .node n
  | .executor n _ => return .executor n (some name)
  | .pipeline p _ => return .pipeline p (some name)

/-- What has a name of its own, as a summary. -/
def summary (m : Memory) : Runnable → Except Failure (List (String × Value))
  | .node n => n.summary m
  | .pipeline p (some name) => .ok (p.summary name m)
  | _ => .error (.unusable .attribute)

/-- Cross-validates copies of what is run. -/
def crossValidate (env : Surroundings) (request : ValidatorRequest) (X y : Data) :
    Runnable → Work ValidationResult
  | .pipeline p _ => p.crossValidate env request X y
  | .node n | .executor n _ => n.crossValidate env request X y

end Runnable

structure Session where
  environment : Environment
  kept : Option Settings
  metrics : MetricTable
  memory : Memory
  registries : List (String × Registry)
  runnables : List (String × Runnable)
  /-- The validators, in the order in which they were opened. -/
  validators : List (Validator × Journal)
  /-- The places of the validators that have a name. -/
  validatorNames : List (String × Nat)

namespace Session

def fresh : Session := ⟨[], none, .builtin, .empty, [], [], [], []⟩

/-- The settings in force: those that are kept, or else those of the environment. -/
def settings (s : Session) : Except Failure Settings :=
  match s.kept with
  | some settings => .ok settings
  | none => Settings.read s.environment

def surroundings (s : Session) : Surroundings := ⟨s.settings, s.metrics⟩

/-- Does some work on the nodes of a session. Settings that were asked for are kept. -/
def perform {α : Type} (s : Session) (work : Surroundings → Work α) :
    Session × List Notice × Except Failure α :=
  let env := s.surroundings
  let (result, after) := work env ⟨s.memory, [], false⟩
  let kept := if after.consulted then env.settings.toOption else s.kept
  ({ s with memory := after.memory, kept }, after.notices, result)

def runnable (s : Session) (name : String) : Except Failure Runnable :=
  match s.runnables.lookup name with
  | some r => .ok r
  | none => .error (.unknownObject name)

def node (s : Session) (name : String) : Except Failure Node := do
  return (← s.runnable name).target

/-- The validator of a name, with its place. -/
def validator (s : Session) (name : String) : Except Failure (Nat × Validator × Journal) :=
  match s.validatorNames.lookup name with
  | some place =>
    match s.validators[place]? with
    | some v => .ok (place, v)
    | none => .error (.unknownObject name)
  | none => .error (.unknownObject name)

def registry (s : Session) (name : String) : Except Failure Registry :=
  match s.registries.lookup name with
  | some r => .ok r
  | none => .error (.unknownObject name)

def storeRunnable (s : Session) (name : String) (r : Runnable) : Session :=
  { s with runnables := (name, r) :: s.runnables }

/-- Gives what is stored under a key another name, and shows it. -/
def setName (s : Session) (key : String) (name : Label) :
    Session × Except Failure (List (String × Value)) :=
  match s.runnable key with
  | .error e => (s, .error e)
  | .ok r =>
    match s.perform fun _ => r.named name with
    | (s, _, .ok r) => (s.storeRunnable key r, r.summary s.memory)
    | (s, _, .error e) => (s, .error e)

/-- Whether two keys stand for one thing. Executors and pipelines are stored once only. -/
def isSame (s : Session) (a b : String) : Except Failure Bool := do
  match ← s.runnable a, ← s.runnable b with
  | .node m, .node n => return m.site.id == n.site.id
  | .node _, _ | _, .node _ => return false
  | _, _ => return a == b

/-- Opens a validator under a name. -/
def openValidator (s : Session) (name : String) (v : Validator) (j : Journal) : Session :=
  { s with
    validators := s.validators ++ [(v, j)]
    validatorNames := (name, s.validators.length) :: s.validatorNames }

/-- Gives the validator at a place another journal. -/
def keepJournal (s : Session) (place : Nat) (j : Journal) : Session :=
  { s with validators := s.validators.modify place fun v => (v.1, j) }

/-- The progress of the validator that was opened last in a session, as far as a later session
knows it. -/
def progress (s later : Session) : List (Nat × Nat) :=
  match later.validators[s.validators.length - 1]? with
  | some (_, j) => j.progress
  | none => []

def storeRegistry (s : Session) (name : String) (r : Registry) : Session :=
  { s with registries := (name, r) :: s.registries }

/-- The name of the registry that is there without being made. -/
def defaultRegistry : String := "default"

/-- Makes the default registry unless it is there. -/
def withDefaultRegistry (s : Session) : Session :=
  match s.registries.lookup defaultRegistry with
  | some _ => s
  | none =>
    match s.perform fun _ => Registry.standard with
    | (s, _, .ok r) => s.storeRegistry defaultRegistry r
    | (s, _, .error _) => s

def registerMetric (s : Session) (name : String) (greaterIsBetter : Bool)
    (score : Sample → Sample → Except Failure Float) : Session :=
  { s with metrics := s.metrics.register name ⟨name, greaterIsBetter, score⟩ }

/-- Changes the environment, one name after the other, up to a change that is refused. -/
def setEnvironment (s : Session) : List (String × Value) → Session × Except Failure Unit
  | [] => (s, .ok ())
  | (name, v) :: rest =>
    match s.environment.set name v with
    | .ok environment => setEnvironment { s with environment } rest
    | .error e => (s, .error e)

def clearSettings (s : Session) : Session := { s with kept := none }

/-- Reads the settings in force and keeps them. -/
def keepSettings (s : Session) : Session × Except Failure Settings :=
  match s.settings with
  | .ok settings => ({ s with kept := some settings }, .ok settings)
  | .error e => (s, .error e)

/-- Configures logging. The settings are kept if they were needed. -/
def configureLogging (s : Session) (r : Logging.Request) :
    Session × Except Failure Logging.Configuration :=
  if r.level.isNull then
    let (s, settings) := s.keepSettings
    (s, Logging.configure settings r)
  else (s, Logging.configure s.settings r)

/-- Configures logging from settings that are read anew. -/
def configureFromSettings (s : Session) : Except Failure Logging.Configuration := do
  let settings ← Settings.read s.environment
  Logging.configure (.ok settings) ⟨.text settings.logLevel, Failure.optionalText settings.logFile,
    Logging.maxBytes, Logging.backups⟩

end Session
end ColumnFlow
