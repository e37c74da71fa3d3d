/-!
Classes of characters: blanks, case and digits.

`isBlank` is the character standard's white space together with the four information separators;
`isSkipped` is the smaller set that an expression may put between tokens.

Case is that of ASCII letters. Outside of ASCII, the dotless i and the long s have upper-case forms
in ASCII, and the Kelvin sign has a lower-case form there; all other characters are kept, so that a
text has an ASCII word as its upper-case or lower-case form exactly when it has it here.

Every script keeps its ten digits next to each other in increasing order, so a table of the zeros is
enough.
-/
namespace ColumnFlow.Text

/-! Blanks. -/

/-- Closed ranges of white space in increasing order. -/
def whiteRanges : List (Nat × Nat) :=
  [(0x09, 0x0d), (0x20, 0x20), (0x85, 0x85), (0xa0, 0xa0), (0x1680, 0x1680), (0x2000, 0x200a),
    (0x2028, 0x2029), (0x202f, 0x202f), (0x205f, 0x205f), (0x3000, 0x3000)]

def isWhite (c : Char) : Bool :=
  whiteRanges.any fun r => r.1 ≤ c.toNat && c.toNat ≤ r.2

/-- The file, group, record and unit separators. -/
def isSeparator (c : Char) : Bool := 0x1c ≤ c.toNat && c.toNat ≤ 0x1f

def isBlank (c : Char) : Bool := isWhite c || isSeparator c

/-- A text is blank when every character is; the empty text is blank. -/
def allBlank (cs : List Char) : Bool := cs.all isBlank

/-- Blank, tab, form feed, carriage return and line feed. -/
def isSkipped (c : Char) : Bool :=
  c == ' ' || c == '\t' || c == '\x0c' || c == '\r' || c == '\n'

theorem isBlank_of_isSkipped {c : Char} (h : isSkipped c = true) : isBlank c = true := by
  simp only [isSkipped, Bool.or_eq_true, beq_iff_eq] at h
  rcases h with (((h | h) | h) | h) | h <;> subst h <;> decide

/-- Removes the characters of a class at both ends. -/
def trim (p : Char → Bool) (cs : List Char) : List Char :=
  ((cs.dropWhile p).reverse.dropWhile p).reverse

/-! Case. -/

def upperChar (c : Char) : Char :=
  if c.toNat = 0x131 then 'I' else if c.toNat = 0x17f then 'S' else c.toUpper

def lowerChar (c : Char) : Char := if c.toNat = 0x212a then 'k' else c.toLower

def upper (s : String) : String := String.ofList (s.toList.map upperChar)

def lower (s : String) : String := String.ofList (s.toList.map lowerChar)

/-! Digits. -/

/-- The zeros of all scripts. -/
def zeros : List Nat :=
  [0x0030, 0x0660, 0x06f0, 0x07c0, 0x0966, 0x09e6, 0x0a66, 0x0ae6, 0x0b66, 0x0be6, 0x0c66,
    0x0ce6, 0x0d66, 0x0de6, 0x0e50, 0x0ed0, 0x0f20, 0x1040, 0x1090, 0x17e0, 0x1810, 0x1946,
    0x19d0, 0x1a80, 0x1a90, 0x1b50, 0x1bb0, 0x1c40, 0x1c50, 0xa620, 0xa8d0, 0xa900, 0xa9d0,
    0xa9f0, 0xaa50, 0xabf0, 0xff10, 0x104a0, 0x10d30, 0x11066, 0x110f0, 0x11136, 0x111d0,
    0x112f0, 0x11450, 0x114d0, 0x11650, 0x116c0, 0x11730, 0x118e0, 0x11950, 0x11c50, 0x11d50,
    0x11da0, 0x16a60, 0x16ac0, 0x16b50, 0x1d7ce, 0x1d7d8, 0x1d7e2, 0x1d7ec, 0x1d7f6, 0x1e140,
    0x1e2f0, 0x1e950, 0x1fbf0]

/-- What a digit of any script counts. -/
def digit? (c : Char) : Option Nat :=
  (zeros.find? fun z => z ≤ c.toNat && c.toNat < z + 10).map (c.toNat - ·)

/-- A digit of any script as the plain digit, and any other character as it is. -/
def plainDigit (c : Char) : Char :=
  match digit? c with
  | some n => Char.ofNat (48 + n)
  | none => c

theorem zeros_length : zeros.length = 66 := rfl

end ColumnFlow.Text
