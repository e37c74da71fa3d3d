import ColumnFlow.Expression.Parser
import ColumnFlow.Expression.Printer
import ColumnFlow.Registry.Basic

/-!
From expressions to node trees. All names are looked up before any node is made, and the failure
names every unknown one once, in the order of first occurrence. Every identifier becomes a fresh
copy of its component, chains become sequences and groups become parallels.
-/
namespace ColumnFlow

/-- What can be compiled: the text of an expression, or an expression. Anything else is refused. -/
inductive ExpressionInput where
  | text (s : String)
  | tree (e : Expr)
  | other

namespace ExpressionInput

def expr : ExpressionInput → Except Failure Expr
  | .text s => Expression.parse s
  | .tree e => .ok e
  | .other => .error (.unusable .attribute)

/-- The constructor form of an expression. -/
def explain (input : ExpressionInput) : Except Failure String := do
  return (← input.expr).constructors

end ExpressionInput

namespace Registry

/-- The unknown names of an expression, each once. -/
def unknownNames (r : Registry) (e : Expr) : List String :=
  (e.identifiers.map (·.1)).foldl (fun found name =>
    if r.has name || found.contains name then found else found ++ [name]) []

mutual

/-- Builds the tree of an expression whose names are known. -/
def build (r : Registry) : Expr → Work Node
  | .identifier name _ => r.create (.text name)
  | .chain operands => do Node.sequential (← buildAll r operands) .null
  | .group operands => do Node.parallel (← buildAll r operands) .null
  | .other operands => do
    let _ ← buildAll r operands
    throw (.misplaced (.form "OtherExpr"))

def buildAll (r : Registry) : List Expr → Work (List Part)
  | [] => return []
  | e :: rest => do
    let n ← build r e
    return .node n :: (← buildAll r rest)

end

def compile (r : Registry) (input : ExpressionInput) : Work Node := do
  let e ← input.expr
  match r.unknownNames e with
  | [] => r.build e
  | names => throw (.unknownComponents (names.map .text) r.names)

end Registry
end ColumnFlow
