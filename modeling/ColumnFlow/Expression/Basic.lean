import ColumnFlow.Failure

/-!
Pipeline expressions. A chain runs its operands one after another and a group runs them side by
side; each is one node with all its operands, and a parenthesised part stays a node of its own. An
identifier knows where it stood in the text, and that place does not take part in equality. `other`
is a form with operands for which no node can be built.
-/
namespace ColumnFlow

inductive Expr where
  | identifier (name : String) (position : Int)
  | chain (operands : List Expr)
  | group (operands : List Expr)
  | other (operands : List Expr)
  deriving Inhabited

namespace Expr

mutual

/-- Equality up to positions. -/
def same : Expr → Expr → Bool
  | .identifier a _, .identifier b _ => a == b
  | .chain xs, .chain ys => sameAll xs ys
  | .group xs, .group ys => sameAll xs ys
  | .other xs, .other ys => sameAll xs ys
  | _, _ => false

def sameAll : List Expr → List Expr → Bool
  | [], [] => true
  | x :: xs, y :: ys => same x y && sameAll xs ys
  | _, _ => false

end

mutual

/-- Whether an expression can be kept in a set: forms without a meaning of their own cannot. -/
def isKeepable : Expr → Bool
  | .identifier _ _ => true
  | .chain xs | .group xs => areKeepable xs
  | .other _ => false

def areKeepable : List Expr → Bool
  | [] => true
  | x :: xs => isKeepable x && areKeepable xs

end

/-- How many expressions the set of two has. -/
def distinctCount (a b : Expr) : Except Failure Nat :=
  if a.isKeepable && b.isKeepable then .ok (if a.same b then 1 else 2)
  else .error (.unusable .type)

mutual

/-- The identifiers with their positions, in the order of the text, repeats kept. -/
def identifiers : Expr → List (String × Int)
  | .identifier name position => [(name, position)]
  | .chain xs | .group xs | .other xs => identifiersAll xs

def identifiersAll : List Expr → List (String × Int)
  | [] => []
  | x :: xs => identifiers x ++ identifiersAll xs

end

/-- A chain of one operand is the operand. -/
def ofSteps : List Expr → Expr
  | [x] => x
  | xs => .chain xs

/-- A group of one operand is the operand. -/
def ofMembers : List Expr → Expr
  | [x] => x
  | xs => .group xs

def isIdentifier : Expr → Bool
  | .identifier .. => true
  | _ => false

def isChain : Expr → Bool
  | .chain _ => true
  | _ => false

end Expr
end ColumnFlow
