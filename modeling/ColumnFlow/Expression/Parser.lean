import ColumnFlow.Expression.Basic
import ColumnFlow.Expression.Token
import ColumnFlow.Failure

/-!
Reading expressions. The reader goes through the tokens once. It keeps, for every parenthesis that
is still open and for the part outside of them, the finished operands of the chain and of the group
that is being read. It stops at the first token that no valid expression can have there, so that a
failure points at the first place where the text stops being the beginning of an expression.
-/
namespace ColumnFlow.Expression

/-- One level of parentheses: finished operands of the chain and of its last group, both with the
last operand first. -/
structure Level where
  steps : List Expr
  members : List Expr

namespace Level

def empty : Level := ⟨[], []⟩

def addMember (l : Level) (e : Expr) : Level := { l with members := e :: l.members }

/-- Ends the group that is being read. -/
def endGroup (l : Level) : Level :=
  ⟨Expr.ofMembers l.members.reverse :: l.steps, []⟩

/-- The expression of a finished level. -/
def expr (l : Level) : Expr := Expr.ofSteps l.endGroup.steps.reverse

end Level

/-- The state of the reader: the level being read, those around it, innermost first, and whether
the last operand is complete, so that an operator may follow. -/
structure Reader where
  outer : List Level
  level : Level
  complete : Bool

namespace Reader

def start : Reader := ⟨[], .empty, false⟩

/-- Takes one token, unless no valid expression has it here. -/
def step (r : Reader) (t : Located) : Option Reader :=
  match r.complete, t.token with
  | false, .name text =>
    some { r with
      level := r.level.addMember (.identifier (String.ofList text) t.position), complete := true }
  | false, .opening => some ⟨r.level :: r.outer, .empty, false⟩
  | true, .plus => some { r with complete := false }
  | true, .arrow => some { r with level := r.level.endGroup, complete := false }
  | true, .closing =>
    match r.outer with
    | around :: outer => some ⟨outer, around.addMember r.level.expr, true⟩
    | [] => none
  | _, _ => none

/-- Takes all tokens, or stops at the first that cannot be taken. -/
def run (r : Reader) : List Located → Except Located Reader
  | [] => .ok r
  | t :: ts =>
    match r.step t with
    | some next => next.run ts
    | none => .error t

/-- The expression, once an operand is complete and no parenthesis is open. -/
def result? (r : Reader) : Option Expr :=
  match r.complete, r.outer with
  | true, [] => some r.level.expr
  | _, _ => none

end Reader

/-- What is wrong with a text, and the offset of the first character in question. -/
structure Flaw where
  problem : Problem
  position : Nat
  deriving DecidableEq

/-- Reads an expression from characters. -/
def read (cs : List Char) : Except Flaw Expr :=
  if Text.allBlank cs then .error ⟨.empty, 0⟩
  else
    let (tokens, ending) := scan 0 cs
    match Reader.start.run tokens with
    | .error t => .error ⟨.token t.token.text, t.position⟩
    | .ok r =>
      match ending with
      | .stray c position => .error ⟨.character c, position⟩
      | .finished position =>
        match r.result? with
        | some e => .ok e
        | none => .error ⟨.ending, position⟩

/-- Reads an expression from a text. -/
def parse (text : String) : Except Failure Expr :=
  match read text.toList with
  | .ok e => .ok e
  | .error f => .error (.malformed f.problem text (some f.position))

end ColumnFlow.Expression
