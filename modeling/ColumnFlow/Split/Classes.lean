import ColumnFlow.Frame.Coercion
import ColumnFlow.Metric.Labels

/-!
Classes of a target. `codes` numbers the values of a target by their first appearance, `sortedCodes`
by their order.
-/
namespace ColumnFlow.Classes

/-- The keys of a target's values, whatever they are. -/
def anyKeys (s : Series) : Except Failure (List Key) :=
  s.cells.mapM fun v => v.label?.elim (.error (.unusable .type)) fun l => .ok l.key

/-- Objects must not be what is not a number. -/
def checkObjects (s : Series) : Except Failure Unit :=
  let isNaN : Value → Bool
    | .scalar (.float x) => x.isNaN
    | _ => false
  if s.cells.any isNaN then .error (.unusable .value) else .ok ()

/-- The keys of a target's values; missing and infinite numbers and missing texts are refused, and a
missing moment counts as a value. -/
def keys (s : Series) : Except Failure (List Key) :=
  match s.dtype with
  | .object => do
    checkObjects s
    anyKeys s
  | _ => s.cells.mapM fun
    | .scalar .null | .scalar .absent => .error (.unusable .value)
    | .scalar x =>
      match x.key with
      | .number .nan | .number (.infinite _) => .error (.unusable .value)
      | k => .ok k
    | _ => .error (.unusable .type)

def isWhole : Key → Bool
  | .number (.finite q) => q.den == 1
  | .number _ => false
  | _ => true

/-- Whether a key may be a class in a column of some kind: binary numbers must not exceed the whole
numbers of 64 bits. -/
def isClass (dtype : Dtype) (k : Key) : Bool :=
  isWhole k && match dtype, k with
    | .float64, .number (.finite q) =>
      -Decimal.wordBound ≤ q.num && q.num < Decimal.wordBound
    | _, _ => true

def startsWithText : List Value → Bool
  | .scalar (.text _) :: _ => true
  | _ => false

/-- The keys of a target whose values are classes: texts, or numbers without fraction. Mixed objects
that begin with a text are taken for texts, which cannot be put in order. -/
def classKeys (s : Series) : Except Failure (List Key) := do
  match s.dtype with
  | .object =>
    checkObjects s
    throw (.unusable (if startsWithText s.cells then .type else .value))
  | dtype =>
    let ks ← keys s
    if ks.all (isClass dtype) then return ks else throw (.unusable .value)

def position (ks : List Key) (k : Key) : Nat := ks.findIdx (· == k)

/-- The number of every value, by first appearance, and how many numbers there are. -/
def codes (ks : List Key) : List Nat × Nat :=
  let found := Key.distinct ks
  (ks.map (position found), found.length)

/-- Keys that can be ordered: all numbers, all texts or all moments, or a single one other than
null. -/
def areOrdered (ks : List Key) : Bool :=
  (match ks with
    | [k] => k != .null
    | _ => false) ||
  (ks.all fun k => match k with
    | .number _ => true
    | _ => false) ||
  (ks.all fun k => match k with
    | .text _ => true
    | _ => false) ||
  (ks.all fun k => match k with
    | .moment _ | .never => true
    | _ => false)

/-- The number of every value, in the order of the values, and how many numbers there are. -/
def sortedCodes (ks : List Key) : Except Failure (List Nat × Nat) :=
  let found := Key.distinct ks
  if areOrdered found then
    let sorted := found.mergeSort Key.le
    .ok (ks.map (position sorted), sorted.length)
  else .error (.unusable .type)

/-- The rows of every class, in order. -/
def members (codes : List Nat) (count : Nat) : List (List Nat) :=
  (List.range count).map fun c =>
    (codes.zipIdx.filter fun p => p.1 == c).map (·.2)

end ColumnFlow.Classes
