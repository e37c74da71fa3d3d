import ColumnFlow.Value.Options

/-!
Domains of parameters. A parameter has a name and takes the values of some domains. Truth values
count as the whole numbers one and zero, and whole numbers as numbers.
-/
namespace ColumnFlow

/-- Numbers between two ends, each of which may belong to the range or not. What is not a number is
in no range. -/
structure Range where
  low : Float
  isLowIn : Bool
  high : Float
  isHighIn : Bool

namespace Range

def infinite : Float := 1.0 / 0.0

/-- The numbers from `low` on, without the infinite one. -/
def atLeast (low : Float) : Range := ⟨low, true, infinite, false⟩

/-- The finite numbers above `low`. -/
def above (low : Float) : Range := ⟨low, false, infinite, false⟩

/-- The numbers above `low`, among them the infinite one. -/
def aboveUpTo (low high : Float) : Range := ⟨low, false, high, true⟩

/-- The numbers between two ends, which do not belong to the range. -/
def between (low high : Float) : Range := ⟨low, false, high, false⟩

/-- The numbers from one end to the other. -/
def closed (low high : Float) : Range := ⟨low, true, high, true⟩

def contains (r : Range) (x : Float) : Bool :=
  (if r.isLowIn then r.low ≤ x else r.low < x) && (if r.isHighIn then x ≤ r.high else x < r.high)

end Range

/-- A kind of values that a parameter takes. -/
inductive Domain where
  | null
  | flag
  /-- Whole numbers. -/
  | whole
  /-- Whole numbers from a least one on. -/
  | atLeast (low : Int)
  /-- Whole numbers of 32 bits. -/
  | seed
  | real
  /-- Numbers in a range. -/
  | number (range : Range)
  /-- Numbers in a range that are not given as whole ones. -/
  | share (range : Range)
  | anyText
  /-- One of some texts. -/
  | text (choices : List String)
  | table
  | list
  | tuple
  /-- Anything that has items. -/
  | items
  /-- Anything without items that is no moment. -/
  | single
  | anything

namespace Domain

/-- The whole number of a value; truth values count as one and zero. -/
def whole? : Value → Option Int
  | .scalar (.int n) => some n
  | .scalar (.bool b) => some (if b then 1 else 0)
  | _ => none

def takes (d : Domain) (v : Value) : Bool :=
  match d, v with
  | .null, v => v.isNull
  | .flag, .scalar (.bool _) => true
  | .whole, v => (whole? v).isSome
  | .atLeast low, v => (whole? v).any (low ≤ ·)
  | .seed, v => (whole? v).any fun n => 0 ≤ n && n < 4294967296
  | .real, v => v.number?.isSome
  | .number r, v => v.number?.any r.contains
  | .share r, .scalar (.float x) => r.contains x
  | .anyText, .scalar (.text _) => true
  | .text choices, .scalar (.text s) => choices.contains s
  | .table, .dict _ => true
  | .list, .list _ => true
  | .tuple, .tuple _ => true
  | .items, .list _ | .items, .tuple _ | .items, .dict _ | .items, .scalar (.tuple _) => true
  | .single, .scalar (.tuple _) | .single, .scalar (.moment _) => false
  | .single, .scalar _ => true
  | .anything, _ => true
  | _, _ => false

end Domain

structure Parameter where
  name : String
  domains : List Domain

namespace Parameter

def takes (p : Parameter) (v : Value) : Bool := p.domains.any fun d => d.takes v

def flag (name : String) : Parameter := ⟨name, [.flag]⟩

def choice (name : String) (choices : List String) : Parameter := ⟨name, [.text choices]⟩

/-- A whole number from a least one on. -/
def count (name : String) (low : Int) : Parameter := ⟨name, [.atLeast low]⟩

/-- A whole number from a least one on, or nothing. -/
def count? (name : String) (low : Int) : Parameter := ⟨name, [.atLeast low, .null]⟩

def number (name : String) (range : Range) : Parameter := ⟨name, [.number range]⟩

/-- The seed of random draws; without one they differ from run to run. -/
def randomState : Parameter := ⟨"random_state", [.seed, .null]⟩

/-- How much is told about the work; nothing of it is told here. -/
def verbose : Parameter := ⟨"verbose", [.atLeast 0, .flag]⟩

/-- How many tasks run at once; the results do not depend on it. -/
def jobs : Parameter := ⟨"n_jobs", [.whole, .null]⟩

end Parameter

namespace Parameters

/-- Refuses options of other names, and then values outside the domains. -/
def check (parameters : List Parameter) (o : Options) : Except Failure Unit := do
  let isKnown := o.all fun e => match e.1 with
    | .text s => parameters.any fun p => p.name == s
    | _ => false
  if !isKnown then throw (.unusable .type)
  let isTaken := parameters.all fun p => (o.get? p.name).all p.takes
  if !isTaken then throw (.unusable .parameter)

end Parameters
end ColumnFlow
