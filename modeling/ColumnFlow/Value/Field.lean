import ColumnFlow.Decimal.Reading
import ColumnFlow.Text.Characters
import ColumnFlow.Value.Basic

/-!
Reading the value of a named field. Readers are lenient: a number may be given as text, a whole
number as a binary number without fraction, and a truth value as one of a few words. A value that
no reader accepts is a `Fault`, and the faults of all fields of a record are reported together.
-/
namespace ColumnFlow

inductive Fault where
  | missing
  | stringType
  | intType
  | intParsing
  | intFromFloat
  | intTooLarge
  | notFinite
  | floatType
  | floatParsing
  | boolType
  | boolParsing
  | rejected (message : String)

/-- The short word for a fault in answers. -/
def Fault.code : Fault → String
  | .missing => "missing"
  | .stringType => "string_type"
  | .intType => "int_type"
  | .intParsing => "int_parsing"
  | .intFromFloat => "int_from_float"
  | .intTooLarge => "int_parsing_size"
  | .notFinite => "finite_number"
  | .floatType => "float_type"
  | .floatParsing => "float_parsing"
  | .boolType => "bool_type"
  | .boolParsing => "bool_parsing"
  | .rejected _ => "value_error"

def Fault.message? : Fault → Option String
  | .rejected message => some ("Value error, " ++ message)
  | _ => none

structure FieldFault where
  field : String
  fault : Fault

namespace Field
open Decimal

/-- The whole number of a binary number without fraction, within 64 bits. -/
def intOfFloat (x : Float) : Except Fault Int :=
  match Exact.ofFloat x with
  | .finite q =>
    if q.den ≠ 1 then .error .intFromFloat
    else if -wordBound < q.num ∧ q.num < wordBound then .ok q.num else .error .intTooLarge
  | _ => .error .notFinite

/-- A text without its underscores, if it has some and all stand alone between other characters. -/
def withoutUnderscores? (cs : List Char) : Option (List Char) :=
  let runs := (String.ofList cs).splitOn "_"
  if runs.length < 2 || runs.any (·.isEmpty) then none else some (runs.flatMap String.toList)

/-- Drops leading zeros, with the underscores among them, and keeps the last of a text of zeros and
the one before a point. -/
def dropZeros (cs : List Char) : Option (List Char) :=
  match cs with
  | '0' :: _ =>
    match cs.dropWhile fun c => c == '0' || c == '_' with
    | [] => some (cs.drop (cs.length - 1))
    | '.' :: _ => some ((cs.drop ((cs.takeWhile (· != '.')).length - 1)))
    | c :: rest => if c == '-' || c.isDigit then some (c :: rest) else none
  | c :: _ => if c == '-' || c.isDigit then some cs else none
  | [] => none

/-- Drops a point that only zeros follow, and at least one. -/
def dropZeroFraction (cs : List Char) : List Char :=
  match cs.dropWhile (· != '.') with
  | _ :: '0' :: rest => if rest.all (· == '0') then cs.takeWhile (· != '.') else cs
  | _ => cs

/-- A text for a whole number, down to a sign and digits. -/
def wholeText? (cs : List Char) : Option (List Char) := do
  let (sign, unsigned) ← match Text.trim Text.isWhite cs with
    | '+' :: '-' :: _ => none
    | '+' :: rest => some ([], rest)
    | '-' :: rest => some (['-'], rest)
    | cs => some ([], cs)
  let digits := dropZeroFraction (← dropZeros unsigned)
  return sign ++ (withoutUnderscores? digits).getD digits

/-- A minus, if any, and digits that do not start with a needless zero. -/
def readDigits (cs : List Char) : Except Fault Int :=
  let (negative, digits) := match cs with
    | '-' :: rest => (true, rest)
    | _ => (false, cs)
  if digits.isEmpty || (digits.length > 1 && digits.head? == some '0') then .error .intParsing
  else if (digits.takeWhile Char.isDigit).length > maxDigits then .error .intTooLarge
  else if !digits.all Char.isDigit then .error .intParsing
  else .ok (if negative then -(naturalOf digits : Int) else naturalOf digits)

def readInt : Value → Except Fault Int
  | .scalar (.int n) => .ok n
  | .scalar (.bool b) => .ok (if b then 1 else 0)
  | .scalar (.float x) => intOfFloat x
  | .scalar (.text s) =>
    match wholeText? s.toList with
    | some digits => readDigits digits
    | none => .error .intParsing
  | _ => .error .intType

/-- A number of a text with blanks around it, or of the whole text without its underscores. -/
def readNumber? (cs : List Char) : Option Float :=
  match readFloat? (Text.trim Text.isWhite cs) with
  | some x => some x
  | none => (withoutUnderscores? cs).bind readFloat?

/-- A whole number as a binary number, unless it is too large for one. -/
def binaryOf (n : Int) : Option Float :=
  let x := Float.ofInt n
  if x.isInf then none else some x

def readFloat : Value → Except Fault Float
  | .scalar (.float x) => .ok x
  | .scalar (.int n) =>
    match binaryOf n with
    | some x => .ok x
    | none => .error .floatType
  | .scalar (.bool b) => .ok (if b then 1.0 else 0.0)
  | .scalar (.text s) =>
    match readNumber? s.toList with
    | some x => .ok x
    | none => .error .floatParsing
  | _ => .error .floatType

/-- Single underscores between digits do not count. -/
def withoutGroups : List Char → List Char
  | a :: '_' :: b :: rest =>
    if a.isDigit && b.isDigit then a :: withoutGroups (b :: rest)
    else a :: '_' :: withoutGroups (b :: rest)
  | a :: rest => a :: withoutGroups rest
  | [] => []

/-- A text with plain digits and without white space around it. -/
def spelling (s : String) : List Char := Text.trim Text.isWhite (s.toList.map Text.plainDigit)

/-- The number that a text spells, with groups of digits and digits of any script. -/
def spelled? (s : String) : Option Float := readFloat? (withoutGroups (spelling s))

/-- The whole number that a text spells, if it is not too long. -/
def spelledWhole? (s : String) : Option Int :=
  let cs := spelling s
  if cs.countP Char.isDigit > maxDigits then none else readInt? cs

def trueWords : List String := ["1", "t", "true", "y", "yes", "on"]

def falseWords : List String := ["0", "f", "false", "n", "no", "off"]

def readBool : Value → Except Fault Bool
  | .scalar (.bool b) => .ok b
  | .scalar (.int n) =>
    if n = 1 then .ok true else if n = 0 then .ok false
    else if -wordBound ≤ n ∧ n < wordBound then .error .boolParsing
    else .error .boolType
  | .scalar (.float x) =>
    match intOfFloat x with
    | .ok n => if n = 1 then .ok true else if n = 0 then .ok false else .error .boolParsing
    | .error _ => .error .boolType
  | .scalar (.text s) =>
    let word := String.ofList (s.toList.map Char.toLower)
    if trueWords.contains word then .ok true
    else if falseWords.contains word then .ok false
    else .error .boolParsing
  | _ => .error .boolType

def readText : Value → Except Fault String
  | .scalar (.text s) => .ok s
  | _ => .error .stringType

/-- Null, or what the reader accepts. -/
def readOptional {α : Type} (read : Value → Except Fault α) (v : Value) : Except Fault (Option α) :=
  if v.isNull then .ok none else (read v).map some

end Field

/-- The result of reading one field of a record, or its faults. -/
abbrev Fields (α : Type) := Except (List FieldFault) α

namespace Fields

def ofField {α : Type} (field : String) : Except Fault α → Fields α
  | .ok a => .ok a
  | .error fault => .error [⟨field, fault⟩]

/-- Both results, or the faults of both. -/
def both {α β : Type} : Fields α → Fields β → Fields (α × β)
  | .ok a, .ok b => .ok (a, b)
  | .ok _, .error e => .error e
  | .error e, .ok _ => .error e
  | .error e, .error f => .error (e ++ f)

end Fields
end ColumnFlow
