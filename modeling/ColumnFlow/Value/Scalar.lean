import ColumnFlow.Decimal.Reading
import ColumnFlow.Decimal.Shortest
import ColumnFlow.Text.Quoted
import ColumnFlow.Value.Moment

/-!
Scalars: the cells of a column and the labels of columns and rows. Two scalars are the same when
their keys are: numbers by their exact value, whatever their kind, so that true, 1 and 1.0 are one
label, and what is not a number is the same as nothing. Nothing comes in three forms: null among
objects, `absent` in columns of texts and categories, and `never` in columns of moments.
-/
namespace ColumnFlow
open Decimal

inductive Scalar where
  | null
  /-- The missing text of a column. -/
  | absent
  /-- The missing moment of a column. -/
  | never
  | bool (b : Bool)
  | int (n : Int)
  | float (x : Float)
  | text (s : String)
  | moment (t : Moment)
  | tuple (items : List Scalar)
  deriving Inhabited

/-- A part of a key. A tuple puts the parts of its items between two marks. -/
inductive Atom where
  | null
  | absent
  | never
  | number (x : Exact)
  | text (s : String)
  | moment (t : Moment)
  | opening
  | closing
  deriving DecidableEq

/-- What two scalars have in common when they are the same. -/
structure Key where
  atoms : List Atom
  deriving DecidableEq

namespace Key

@[match_pattern] abbrev null : Key := ⟨[.null]⟩
@[match_pattern] abbrev absent : Key := ⟨[.absent]⟩
@[match_pattern] abbrev never : Key := ⟨[.never]⟩
@[match_pattern] abbrev number (x : Exact) : Key := ⟨[.number x]⟩
@[match_pattern] abbrev text (s : String) : Key := ⟨[.text s]⟩
@[match_pattern] abbrev moment (t : Moment) : Key := ⟨[.moment t]⟩

/-- Whether a key stands for anything but what is not a number. -/
def isReal (k : Key) : Bool := !k.atoms.contains (.number .nan)

/-- The order of keys: numbers by value, texts by code points and moments by time; what is not a
number and the missing moment come last. -/
def le : Key → Key → Bool
  | .number .nan, .number b => b == .nan
  | .number _, .number .nan => true
  | .number a, .number b => !b.less a
  | .text a, .text b => !decide (b < a)
  | .moment a, .moment b => a.nanoseconds ≤ b.nanoseconds
  | .moment _, .never => true
  | .number _, _ => true
  | _, _ => false

/-- The keys that differ, each once, in the order of their first occurrence. -/
def distinct (keys : List Key) : List Key :=
  keys.foldl (fun found k => if found.contains k then found else found ++ [k]) []

end Key

namespace Scalar

mutual

def atoms : Scalar → List Atom
  | .null => [.null]
  | .absent => [.absent]
  | .never => [.never]
  | .bool b => [.number (.finite (if b then 1 else 0))]
  | .int n => [.number (.finite n)]
  | .float x => [.number (Exact.ofFloat x)]
  | .text s => [.text s]
  | .moment t => [.moment t]
  | .tuple items => .opening :: atomsOf items

def atomsOf : List Scalar → List Atom
  | [] => [.closing]
  | s :: rest => atoms s ++ atomsOf rest

end

def key (s : Scalar) : Key := ⟨atoms s⟩

def same (a b : Scalar) : Bool := a.key == b.key && a.key.isReal

theorem same_comm (a b : Scalar) : a.same b = b.same a := by
  unfold same
  by_cases h : a.key = b.key
  · rw [h]
  · rw [beq_false_of_ne h, beq_false_of_ne (Ne.symm h)]
    rfl

/-- Whether one scalar comes before another; none where the two have no order. -/
def before? (a b : Scalar) : Option Bool :=
  match a.key, b.key with
  | .number x, .number y => some (x.less y)
  | .text x, .text y => some (decide (x < y))
  | .moment x, .moment y => some (decide (x.nanoseconds < y.nanoseconds))
  | _, _ => none

/-- Whether a list of labels holds a label. -/
def isIn (a : Scalar) (labels : List Scalar) : Bool := labels.any (same a)

/-- The text of a number in messages and labels: digits that read back, positional between
ten-thousandths and ten quadrillions, and at least one digit after the point. -/
def numberLayout : Layout := ⟨-4, 16, 2, "inf", "nan"⟩

def floatText (x : Float) : String := numberLayout.float x

def boolText (b : Bool) : String := if b then "True" else "False"

/-- Texts in parentheses. A tuple of one item keeps its comma. -/
def inParentheses : List String → String
  | [one] => "(" ++ one ++ ",)"
  | parts => "(" ++ ", ".intercalate parts ++ ")"

mutual

/-- The text inside lists and messages: a text is quoted. -/
def quoted : Scalar → String
  | .null => "None"
  | .absent => "nan"
  | .never => "NaT"
  | .bool b => boolText b
  | .int n => toString n
  | .float x => floatText x
  | .text s => Text.quoted s
  | .moment t => "Timestamp(" ++ Text.quoted (t.render " ") ++ ")"
  | .tuple items => inParentheses (quotedItems items)

def quotedItems : List Scalar → List String
  | [] => []
  | s :: rest => quoted s :: quotedItems rest

end

/-- The plain text: a text is itself. -/
def plain : Scalar → String
  | .text s => s
  | .moment t => t.render " "
  | s => s.quoted

/-- Nothing, or what is not a number. -/
def isMissing : Scalar → Bool
  | .null | .absent | .never => true
  | .float x => x.isNaN
  | _ => false

/-- Whether a scalar is what is not a number: a number of that kind, or a missing text. -/
def isNotANumber : Scalar → Bool
  | .absent => true
  | .float x => x.isNaN
  | _ => false

/-- Equality of cells, which nothing missing but null has. -/
def equals (a b : Scalar) : Bool :=
  a.same b && (match a with
    | .absent | .never => false
    | _ => true)

/-- The number a scalar stands for in arithmetic. -/
def number? : Scalar → Option Float
  | .bool b => some (if b then 1.0 else 0.0)
  | .int n => some (Float.ofInt n)
  | .float x => some x
  | .absent => some notANumber
  | _ => none

/-- Whether a scalar counts as true. -/
def isTrue : Scalar → Bool
  | .null => false
  | .bool b => b
  | .int n => n != 0
  | .float x => x != 0.0
  | .text s => s != ""
  | .tuple items => !items.isEmpty
  | .absent | .never | .moment _ => true

end Scalar

/-- The label of a column or of a row. -/
abbrev Label := Scalar

namespace Label

def isBool : Label → Bool
  | .bool _ => true
  | _ => false

/-- Whether a label is a number, whole or binary. -/
def isNumber : Label → Bool
  | .int _ | .float _ => true
  | _ => false

def isText : Label → Bool
  | .text _ => true
  | _ => false

def isNull : Label → Bool
  | .null => true
  | _ => false

/-- Whether a label is found under another one. Unlike in `same`, what is not a number is found
under what is not a number, also inside tuples. -/
def finds (a b : Label) : Bool := a.key == b.key || a.isNotANumber && b.isNotANumber

end Label

end ColumnFlow
