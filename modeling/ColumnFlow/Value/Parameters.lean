import ColumnFlow.Value.Domain

/-!
Reading the parameters of a method from options that have been checked. A parameter that is not
given has its default.
-/
namespace ColumnFlow.Parameters

def flag (o : Options) (name : String) (default : Bool) : Bool :=
  match o.getD name (.bool default) with
  | .scalar (.bool b) => b
  | _ => default

def choice (o : Options) (name default : String) : String :=
  match o.getD name (.text default) with
  | .scalar (.text s) => s
  | _ => default

def count (o : Options) (name : String) (default : Nat) : Nat :=
  ((Domain.whole? (o.getD name (.nat default))).map Int.toNat).getD default

/-- A count, unless there is none. -/
def count? (o : Options) (name : String) : Option Nat :=
  (Domain.whole? (o.getD name .null)).map Int.toNat

def number (o : Options) (name : String) (default : Float) : Float :=
  ((o.getD name (.float default)).number?).getD default

/-- The items of a tuple. -/
def tuple (o : Options) (name : String) (default : List Value) : List Value :=
  match o.get? name with
  | some (.tuple items) => items
  | _ => default

/-- Whether a value is at most another: numbers by value and texts by code points. Other values
cannot be compared. -/
def atMost (a b : Value) : Except Failure Bool :=
  match a, b with
  | .scalar (.text s), .scalar (.text t) => .ok !(decide (t < s))
  | _, _ =>
    match a.number?, b.number? with
    | some x, some y => .ok (x ≤ y)
    | _, _ => .error (.unusable .type)

/-- The number of a value, which must have one. -/
def numberIn (v : Value) : Except Failure Float :=
  v.number?.elim (.error (.unusable .type)) .ok

/-- The exact number that a value stands for. -/
def exactNumber? : Value → Option Decimal.Exact
  | .scalar (.bool b) => some (.finite (if b then 1 else 0))
  | .scalar (.int n) => some (.finite n)
  | .scalar (.float x) => some (.ofFloat x)
  | .scalar .absent => some .nan
  | _ => none

/-- The exact number of a value, which must have one. -/
def exactIn (v : Value) : Except Failure Decimal.Exact :=
  (exactNumber? v).elim (.error (.unusable .type)) .ok

end ColumnFlow.Parameters
