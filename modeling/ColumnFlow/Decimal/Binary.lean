/-!
The exact value of a binary floating-point number. `decode` splits the 64 bits into a sign, a
natural mantissa and a power of two; `Exact` is the number as a rational, with the infinities and
the one value that is not a number kept apart. Two numbers are equal exactly when their `Exact`
forms are and neither is `nan`.
-/
namespace ColumnFlow.Decimal

/-- A finite number `± mantissa * 2 ^ exponent`. -/
structure Binary where
  negative : Bool
  mantissa : Nat
  exponent : Int

inductive Decoded where
  | finite (b : Binary)
  | infinite (negative : Bool)
  | nan

/-- The bit above the 52 that are stored, which every number of full precision has. -/
def hiddenBit : Nat := Nat.pow 2 52

def decode (x : Float) : Decoded :=
  let bits := x.toBits.toNat
  let negative := bits / Nat.pow 2 63 == 1
  let biased : Nat := bits / hiddenBit % 2048
  let fraction : Nat := bits % hiddenBit
  if biased = 2047 then
    if fraction = 0 then .infinite negative else .nan
  else if biased = 0 then .finite ⟨negative, fraction, -1074⟩
  else .finite ⟨negative, fraction + hiddenBit, (biased : Int) - 1075⟩

/-- Numerator and denominator of the magnitude. -/
def Binary.ratio (b : Binary) : Nat × Nat :=
  if 0 ≤ b.exponent then (b.mantissa * Nat.pow 2 b.exponent.toNat, 1)
  else (b.mantissa, Nat.pow 2 (-b.exponent).toNat)

def Binary.value (b : Binary) : Rat :=
  let (n, d) := b.ratio
  mkRat (if b.negative then -(n : Int) else n) d

/-- Whole numbers of 64 bits go from `-wordBound` to below `wordBound`. -/
def wordBound : Int := 9223372036854775808

inductive Exact where
  | finite (q : Rat)
  | infinite (negative : Bool)
  | nan
  deriving DecidableEq

def Exact.ofFloat (x : Float) : Exact :=
  match decode x with
  | .finite b => .finite b.value
  | .infinite negative => .infinite negative
  | .nan => .nan

/-- Numbers are the same when both are numbers and equal. -/
def Exact.same (a b : Exact) : Bool := a == b && a != .nan

/-- The order of numbers; false when either side is not a number. -/
def Exact.less : Exact → Exact → Bool
  | .nan, _ | _, .nan => false
  | .finite a, .finite b => a < b
  | .finite _, .infinite negative => !negative
  | .infinite negative, .finite _ => negative
  | .infinite a, .infinite b => a && !b

end ColumnFlow.Decimal
