import ColumnFlow.Decimal.Binary

/-!
Reading numbers from text. A whole number has an optional sign and digits, with single underscores
allowed between digits; `maxDigits` bounds how long it may be. A binary number may also have a
point, an exponent, or be one of the words for infinity and for what is not a number, in any case.
-/
namespace ColumnFlow.Decimal

/-- Whole numbers of more digits are not read from text. -/
def maxDigits : Nat := 4300

def digitValue (c : Char) : Nat := c.toNat - 48

/-- The number that a list of digits denotes. -/
def naturalOf (cs : List Char) : Nat :=
  cs.foldl (fun n c => 10 * n + digitValue c) 0

/-- Digits with single underscores between them, without the underscores. -/
def ungroup : List Char → Option (List Char)
  | [] => none
  | [c] => if c.isDigit then some [c] else none
  | c :: '_' :: rest => if c.isDigit then (ungroup rest).map (c :: ·) else none
  | c :: rest => if c.isDigit then (ungroup rest).map (c :: ·) else none

/-- An optional sign, and whether it was a minus. -/
def splitSign : List Char → Bool × List Char
  | '-' :: rest => (true, rest)
  | '+' :: rest => (false, rest)
  | cs => (false, cs)

/-- A whole number: a sign, if any, and digits in groups. -/
def readInt? (cs : List Char) : Option Int :=
  let (negative, body) := splitSign cs
  (ungroup body).map fun digits =>
    if negative then -(naturalOf digits : Int) else naturalOf digits

/-- The exponent part of a number: absent, or a mark, an optional sign and digits. -/
def readExponent? : List Char → Option Int
  | [] => some 0
  | c :: rest =>
    if c == 'e' || c == 'E' then
      let (negative, digits) := splitSign rest
      if digits.isEmpty || !digits.all Char.isDigit then none
      else some (if negative then -(naturalOf digits : Int) else naturalOf digits)
    else none

/-- `mantissa * 10 ^ exponent`, rounded to nearest. -/
def ofDecimal (mantissa : Nat) (exponent : Int) : Float :=
  if exponent < 0 then Float.ofScientific mantissa true (-exponent).toNat
  else Float.ofScientific mantissa false exponent.toNat

def positiveInfinity : Float := 1.0 / 0.0

def notANumber : Float := 0.0 / 0.0

/-- Exponents beyond these bounds give zero or infinity for every mantissa of `digits` digits. -/
def readMagnitude? (cs : List Char) : Option Float :=
  let whole := cs.takeWhile Char.isDigit
  let rest := cs.dropWhile Char.isDigit
  let (fraction, tail) :=
    match rest with
    | '.' :: more => (more.takeWhile Char.isDigit, more.dropWhile Char.isDigit)
    | _ => ([], rest)
  if whole.isEmpty && fraction.isEmpty then none
  else (readExponent? tail).map fun exponent =>
    let mantissa := naturalOf (whole ++ fraction)
    let scale : Int := exponent - fraction.length
    let size : Int := (whole.length + fraction.length : Nat)
    if mantissa = 0 || scale + size < -400 then 0.0
    else if scale > 400 then positiveInfinity
    else ofDecimal mantissa scale

def readFloat? (cs : List Char) : Option Float :=
  let (negative, body) := splitSign cs
  let word := String.ofList (body.map Char.toLower)
  let magnitude? :=
    if word == "inf" || word == "infinity" then some positiveInfinity
    else if word == "nan" then some notANumber
    else readMagnitude? body
  magnitude?.map fun x => if negative then -x else x

end ColumnFlow.Decimal
