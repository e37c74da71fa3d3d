import ColumnFlow.Value.Scalar

/-!
Values: scalars, lists, tuples and tables from scalars to values. Cells of object columns, options
of components and details of failures are values.
-/
namespace ColumnFlow

inductive Value where
  | scalar (s : Scalar)
  | list (items : List Value)
  | tuple (items : List Value)
  | dict (entries : List (Scalar × Value))
  deriving Inhabited

instance : Coe Scalar Value := ⟨.scalar⟩

namespace Value

abbrev null : Value := .scalar .null
abbrev bool (b : Bool) : Value := .scalar (.bool b)
abbrev int (n : Int) : Value := .scalar (.int n)
abbrev float (x : Float) : Value := .scalar (.float x)
abbrev text (s : String) : Value := .scalar (.text s)

def ofLabels (labels : List Label) : Value := .list (labels.map .scalar)

def ofTexts (texts : List String) : Value := .list (texts.map text)

def joined (parts : List String) : String := ", ".intercalate parts

mutual

/-- The text inside lists and messages. -/
def quoted : Value → String
  | .scalar s => s.quoted
  | .list items => "[" ++ joined (quotedItems items) ++ "]"
  | .tuple items => Scalar.inParentheses (quotedItems items)
  | .dict entries => "\x7b" ++ joined (quotedEntries entries) ++ "\x7d"

def quotedItems : List Value → List String
  | [] => []
  | v :: rest => v.quoted :: quotedItems rest

def quotedEntries : List (Scalar × Value) → List String
  | [] => []
  | (k, v) :: rest => (k.quoted ++ ": " ++ v.quoted) :: quotedEntries rest

end

/-- The plain text: a text is itself, and inside lists it is quoted. -/
def plain : Value → String
  | .scalar s => s.plain
  | v => v.quoted

def isMissing : Value → Bool
  | .scalar s => s.isMissing
  | _ => false

def number? : Value → Option Float
  | .scalar s => s.number?
  | _ => none

def isTrue : Value → Bool
  | .scalar s => s.isTrue
  | .list items | .tuple items => !items.isEmpty
  | .dict entries => !entries.isEmpty

def isNull : Value → Bool
  | .scalar .null => true
  | _ => false

/-- A value that counts as true, or else a default. -/
def given (v default : Value) : Value := if v.isTrue then v else default

/-- A value that is not null, or else a default. -/
def unlessNull (v default : Value) : Value := if v.isNull then default else v

/-- The word for a value's kind in messages. -/
def kind : Value → String
  | .scalar .null => "NoneType"
  | .scalar (.bool _) => "bool"
  | .scalar (.int _) => "int"
  | .scalar (.float _) => "float"
  | .scalar (.text _) => "str"
  | .scalar (.moment _) => "Timestamp"
  | .scalar .absent => "float"
  | .scalar .never => "NaTType"
  | .scalar (.tuple _) => "tuple"
  | .list _ => "list"
  | .tuple _ => "tuple"
  | .dict _ => "dict"

mutual

/-- The scalar that a value stands for as a label; lists and tables cannot be labels. -/
def label? : Value → Option Scalar
  | .scalar s => some s
  | .tuple items => (labels? items).map .tuple
  | .list _ | .dict _ => none

def labels? : List Value → Option (List Scalar)
  | [] => some []
  | v :: rest =>
    match label? v, labels? rest with
    | some s, some more => some (s :: more)
    | _, _ => none

end

/-- Whether two values are the same label. -/
def sameLabel (a b : Value) : Bool :=
  match a.label?, b.label? with
  | some s, some t => s.same t
  | _, _ => false

/-- Equality of cells. -/
def equals (a b : Value) : Bool :=
  match a, b with
  | .scalar s, .scalar t => s.equals t
  | .scalar _, _ | _, .scalar _ => false
  | a, b => a.kind == b.kind && a.quoted == b.quoted

mutual

/-- Whether one value comes before another, lists by the first items that differ; none where the two
have no order. -/
def before? : Value → Value → Option Bool
  | .scalar s, .scalar t => s.before? t
  | .list xs, .list ys | .tuple xs, .tuple ys => beforeItems? xs ys
  | _, _ => none

def beforeItems? : List Value → List Value → Option Bool
  | _, [] => some false
  | [], _ :: _ => some true
  | x :: xs, y :: ys => if x.equals y then beforeItems? xs ys else x.before? y

end

/-- Values in their order, equal ones as they stood; none if two of them have no order. -/
def sorted? (values : List Value) : Option (List Value) :=
  if values.length ≤ 1 then some values
  else if values.all fun a => values.all fun b => (a.before? b).isSome then
    some (values.mergeSort fun a b => b.before? a != some true)
  else none

end Value
end ColumnFlow
