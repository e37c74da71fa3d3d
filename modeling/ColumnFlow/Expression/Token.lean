import ColumnFlow.Text.Characters

/-!
Tokens of expressions. A token is the longest piece of the text that forms one: a name is a letter
or underscore followed by letters, digits and underscores of ASCII. Skipped characters may stand
between tokens. `scan` cuts a text into tokens with their offsets and says how it ended.
-/
namespace ColumnFlow.Expression
open Text

inductive Token where
  | name (text : List Char)
  | plus
  | arrow
  | opening
  | closing
  deriving DecidableEq

/-- The characters of a token. -/
def Token.chars : Token → List Char
  | .name text => text
  | .plus => ['+']
  | .arrow => ['|', '>']
  | .opening => ['(']
  | .closing => [')']

def Token.text (t : Token) : String := String.ofList t.chars

def isNameStart (c : Char) : Bool := c.isAlpha || c == '_'

def isNamePart (c : Char) : Bool := c.isAlphanum || c == '_'

/-- A text that is one name from beginning to end. -/
def isName : List Char → Bool
  | [] => false
  | c :: cs => isNameStart c && cs.all isNamePart

/-- The longest token at the start of a text. -/
def munch : List Char → Option Token
  | [] => none
  | '+' :: _ => some .plus
  | '|' :: '>' :: _ => some .arrow
  | '(' :: _ => some .opening
  | ')' :: _ => some .closing
  | c :: cs => if isNameStart c then some (.name (c :: cs.takeWhile isNamePart)) else none

theorem Token.chars_ne_nil {cs : List Char} {t : Token} (h : munch cs = some t) :
    t.chars ≠ [] := by
  unfold munch at h
  split at h <;> try (cases h; simp [Token.chars])
  · simp at h
  · split at h
    · cases h; simp [Token.chars]
    · simp at h

/-- A token and the offset of its first character. -/
structure Located where
  token : Token
  position : Nat
  deriving DecidableEq

/-- How a scan ended: at the end of the text, or at a character that starts no token. -/
inductive Ending where
  | finished (position : Nat)
  | stray (c : Char) (position : Nat)
  deriving DecidableEq

/-- The tokens of a text whose first character has the offset `position`. -/
def scan (position : Nat) (cs : List Char) : List Located × Ending :=
  match cs with
  | [] => ([], .finished position)
  | c :: rest =>
    if isSkipped c then scan (position + 1) rest
    else
      match _h : munch (c :: rest) with
      | none => ([], .stray c position)
      | some t =>
        let (found, ending) :=
          scan (position + t.chars.length) ((c :: rest).drop t.chars.length)
        (⟨t, position⟩ :: found, ending)
termination_by cs.length
decreasing_by
  · simp
  · have := List.length_pos_iff.2 (Token.chars_ne_nil _h)
    simp only [List.length_drop, List.length_cons]
    omega

end ColumnFlow.Expression
