import ColumnFlow.Decimal.Binary

/-!
Decimal texts of binary numbers. `shortest` finds the fewest digits that read back as the same
number, and of those the nearest; `rounded` gives a fixed count of digits, ties to even. A
`Layout` says where positional notation ends and how exponents are written.
-/
namespace ColumnFlow.Decimal

/-- The number `digits * 10 ^ exponent`. -/
structure Numeral where
  digits : Nat
  exponent : Int
  deriving DecidableEq

def digitCount (n : Nat) : Nat := (Nat.repr n).length

/-- The `e` with `10 ^ e ≤ n / d < 10 ^ (e + 1)`, for positive `n` and `d`. -/
def magnitude (n d : Nat) : Int :=
  let guess : Int := (digitCount n : Int) - digitCount d
  let atLeast : Bool :=
    if 0 ≤ guess then d * Nat.pow 10 guess.toNat ≤ n
    else d ≤ n * Nat.pow 10 (-guess).toNat
  if atLeast then guess else guess - 1

/-- `n / d / 10 ^ k` as a fraction of naturals. -/
def shiftDown (n d : Nat) (k : Int) : Nat × Nat :=
  if 0 ≤ k then (n, d * Nat.pow 10 k.toNat) else (n * Nat.pow 10 (-k).toNat, d)

/-- Drops trailing zeros into the exponent. -/
def stripZeros : Nat → Nat → Int → Numeral
  | 0, digits, exponent => ⟨digits, exponent⟩
  | fuel + 1, digits, exponent =>
    if digits ≠ 0 ∧ digits % 10 = 0 then stripZeros fuel (digits / 10) (exponent + 1)
    else ⟨digits, exponent⟩

/-- A point `low` of a decimal grid below `n / d`, and the next one: the one that lies between the
bounds, the nearer if both do, the lower on a tie. All are multiples of the same unit. -/
def nearestInside (low : Nat) (step value lower upper : Nat) (closed : Bool) : Option Nat :=
  let inside (p : Nat) : Bool :=
    if closed then lower ≤ p && p ≤ upper else lower < p && p < upper
  let below := low * step
  let above := (low + 1) * step
  match inside below, inside above with
  | true, true => some (if value - below ≤ above - value then low else low + 1)
  | true, false => some low
  | false, true => some (low + 1)
  | false, false => none

/-- Searches the grids of `count`, `count + 1`, … digits, at most `fuel` of them. -/
def searchGrids (b : Binary) (top : Int) : Nat → Nat → Numeral
  | 0, count => ⟨b.mantissa, 0 - (count : Int)⟩
  | fuel + 1, count =>
    let k := top - count + 1
    let (n, d) := b.ratio
    let (num, den) := shiftDown n d k
    let low := num / den
    -- a quarter of the mantissa's unit, so that the bounds below are whole
    let boundary := b.mantissa == hiddenBit && b.exponent != -1074
    let value := 4 * num
    let step := 4 * den
    let unit := if b.mantissa = 0 then 0 else num / b.mantissa
    let lower := value - (if boundary then unit else 2 * unit)
    match nearestInside low step value lower (value + 2 * unit) (b.mantissa % 2 == 0) with
    | some digits => stripZeros 20 digits k
    | none => searchGrids b top fuel (count + 1)

/-- The fewest digits that read back as the magnitude of `b`. -/
def shortest (b : Binary) : Numeral :=
  if b.mantissa = 0 then ⟨0, 0⟩
  else
    let (n, d) := b.ratio
    searchGrids b (magnitude n d) 17 1

/-- The magnitude of `b` to `count` significant digits, ties to even. -/
def rounded (count : Nat) (b : Binary) : Numeral :=
  if b.mantissa = 0 then ⟨0, 0⟩
  else
    let (n, d) := b.ratio
    let k := magnitude n d - count + 1
    let (num, den) := shiftDown n d k
    let low := num / den
    let rest := num % den
    let up := 2 * rest > den || (2 * rest == den && low % 2 == 1)
    ⟨if up then low + 1 else low, k⟩

/-- Positional notation is used for leading exponents from `positionalFrom` up to, and not
including, `positionalBelow`. -/
structure Layout where
  positionalFrom : Int
  positionalBelow : Int
  exponentWidth : Nat
  infinity : String
  notANumber : String

/-- Pads on the left with zeros. -/
def padZeros (width : Nat) (s : String) : String :=
  String.ofList (List.replicate (width - s.length) '0') ++ s

def Layout.positional (digits : String) (leading : Int) : String :=
  if leading < 0 then
    "0." ++ String.ofList (List.replicate ((-leading).toNat - 1) '0') ++ digits
  else
    let whole := leading.toNat + 1
    if digits.length ≤ whole then
      digits ++ String.ofList (List.replicate (whole - digits.length) '0') ++ ".0"
    else
      String.ofList (digits.toList.take whole) ++ "." ++ String.ofList (digits.toList.drop whole)

def Layout.scientific (l : Layout) (digits : String) (leading : Int) : String :=
  let head := String.ofList (digits.toList.take 1)
  let tail := String.ofList (digits.toList.drop 1)
  let mark := if leading < 0 then "e-" else "e+"
  head ++ (if tail.isEmpty then "" else "." ++ tail) ++ mark
    ++ padZeros l.exponentWidth (toString leading.natAbs)

def Layout.decimal (l : Layout) (x : Numeral) : String :=
  let digits := Nat.repr x.digits
  let leading := x.exponent + digits.length - 1
  if l.positionalFrom ≤ leading ∧ leading < l.positionalBelow then
    Layout.positional digits leading
  else l.scientific digits leading

def Layout.float (l : Layout) (x : Float) : String :=
  match decode x with
  | .finite b => (if b.negative then "-" else "") ++ l.decimal (shortest b)
  | .infinite negative => (if negative then "-" else "") ++ l.infinity
  | .nan => l.notANumber

end ColumnFlow.Decimal
