import ColumnFlow.Expression.Basic

/-!
Texts of expressions. `source` writes an expression with the fewest parentheses: a chain inside a
chain and anything but an identifier inside a group are enclosed. `constructors` writes the nested
constructor form, with both operators as prefixes.
-/
namespace ColumnFlow.Expr

def enclosed (cs : List Char) : List Char := '(' :: cs ++ [')']

/-- The parts with a separator between neighbours. -/
def separated (separator : List Char) : List (List Char) → List Char
  | [] => []
  | [part] => part
  | part :: rest => part ++ separator ++ separated separator rest

mutual

def sourceChars : Expr → List Char
  | .identifier name _ => name.toList
  | .chain xs => separated " |> ".toList (stepSources xs)
  | .group xs | .other xs => separated " + ".toList (memberSources xs)

/-- Operands of a chain. -/
def stepSources : List Expr → List (List Char)
  | [] => []
  | x :: xs =>
    (if x.isChain then enclosed (sourceChars x) else sourceChars x) :: stepSources xs

/-- Operands of a group. -/
def memberSources : List Expr → List (List Char)
  | [] => []
  | x :: xs =>
    (if x.isIdentifier then sourceChars x else enclosed (sourceChars x)) :: memberSources xs

end

def source (e : Expr) : String := String.ofList (sourceChars e)

mutual

def constructorChars : Expr → List Char
  | .identifier name _ => name.toList
  | .chain xs =>
    "Sequential([".toList ++ separated ", ".toList (constructorsAll xs) ++ "])".toList
  | .group xs | .other xs =>
    "Parallel([".toList ++ separated ", ".toList (constructorsAll xs) ++ "])".toList

def constructorsAll : List Expr → List (List Char)
  | [] => []
  | x :: xs => constructorChars x :: constructorsAll xs

end

def constructors (e : Expr) : String := String.ofList (constructorChars e)

end ColumnFlow.Expr
