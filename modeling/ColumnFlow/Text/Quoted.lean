import ColumnFlow.Text.Printable

/-!
Quoted text, as it stands in messages. A text is put between apostrophes, or between double quotes
when it holds an apostrophe and no double quote. The backslash, the chosen quote and every
unprintable character are escaped, the latter with two, four or eight hexadecimal digits.
-/
namespace ColumnFlow.Text

def apostrophe : Char := Char.ofNat 39

def doubleQuote : Char := Char.ofNat 34

def backslash : Char := Char.ofNat 92

/-- Lower-case hexadecimal digits of `n`, exactly `width` of them. -/
def hexDigits : Nat → Nat → List Char
  | 0, _ => []
  | width + 1, n => hexDigits width (n / 16) ++ [Nat.digitChar (n % 16)]

/-- The characters that stand for `c` between quotes `quote`. -/
def escapeChar (quote c : Char) : List Char :=
  if c = quote ∨ c = backslash then [backslash, c]
  else if c = '\n' then [backslash, 'n']
  else if c = '\r' then [backslash, 'r']
  else if c = '\t' then [backslash, 't']
  else if isPrintable c then [c]
  else if c.toNat < 0x100 then backslash :: 'x' :: hexDigits 2 c.toNat
  else if c.toNat < 0x10000 then backslash :: 'u' :: hexDigits 4 c.toNat
  else backslash :: 'U' :: hexDigits 8 c.toNat

def quoteFor (cs : List Char) : Char :=
  if cs.contains apostrophe && !cs.contains doubleQuote then doubleQuote else apostrophe

def quotedChars (cs : List Char) : List Char :=
  let quote := quoteFor cs
  quote :: cs.flatMap (escapeChar quote) ++ [quote]

def quoted (s : String) : String := String.ofList (quotedChars s.toList)

end ColumnFlow.Text
