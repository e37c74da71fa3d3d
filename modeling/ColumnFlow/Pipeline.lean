import ColumnFlow.Node.Fit
import ColumnFlow.Node.Report
import ColumnFlow.Registry.Compile

/-!
Running trees on data. An executor takes data of any form, refuses data without rows and a target
of another length, and hands the rest to its node. A pipeline is an expression with the node that it
compiles to, run by an executor.
-/
namespace ColumnFlow

namespace Executor

/-- The features, if there are any rows, and if the target has as many items. -/
def check (X : Data) (y : Option Data) : Except Failure Frame := do
  let frame ← X.toFrame
  if frame.rows = 0 then throw (.mismatch .noRows)
  match y with
  | some target => if !target.isNone then checkAlignment frame target
  | none => pure ()
  return frame

def fit (env : Surroundings) (n : Node) (X y : Data) : Work Unit := do
  let frame ← check X (some y)
  let _ ← n.text (← Work.memory)
  n.fit env (.frame frame) y

def transform (n : Node) (X : Data) : Work Frame := do
  let frame ← check X none
  n.transform (← Work.memory) (.frame frame)

def fitTransform (env : Surroundings) (n : Node) (X y : Data) : Work Frame := do
  fit env n X y
  transform n X

/-- The first column of the output. -/
def predict (n : Node) (X : Data) : Work Series := do
  match (← transform n X).firstColumn? with
  | some s => return s
  | none => throw (.unusable .index)

end Executor

structure Pipeline where
  expression : String
  node : Node

namespace Pipeline

/-- A pipeline is made from the text of an expression. -/
def compile (r : Registry) : ExpressionInput → Work Pipeline
  | .text expression => do return ⟨expression, ← r.compile (.text expression)⟩
  | _ => throw (.unusable .attribute)

/-- The constructor form of the expression. -/
def explain (p : Pipeline) : Except Failure String :=
  ExpressionInput.explain (.text p.expression)

def text (p : Pipeline) : String := "ExpressionPipeline(" ++ Text.quoted p.expression ++ ")"

/-- What a pipeline with a name is. -/
def summary (p : Pipeline) (name : Label) (m : Memory) : List (String × Value) :=
  [("type", .text "ExpressionPipeline"), ("name", .scalar name), ("repr", .text p.text),
    ("fitted", .bool (p.node.isFitted m)), ("structure", (p.node.outline m).toValue)]

/-- Cross-validates copies of the node; the pipeline itself stays as it is. -/
def crossValidate (env : Surroundings) (p : Pipeline) (request : ValidatorRequest) (X y : Data) :
    Work ValidationResult := do
  let v ← Validator.create env request
  let (_, outcome) ← v.run (p.node.trainable env) X y (.text p.expression) .fresh
  outcome

/-- What comes back after saving and loading: an equal pipeline that shares nothing. -/
def reload (p : Pipeline) : Work Pipeline := do
  return ⟨p.expression, ← p.node.duplicate⟩

end Pipeline
end ColumnFlow
