/-!
A small generator of draws. Its state is one word of 32 bits, which three shifts stir; zero, which
they would leave as it is, counts as one. A draw has 31 bits.
-/
namespace ColumnFlow.Draw

structure Xorshift where
  word : UInt32

namespace Xorshift

def stir (word : UInt32) : UInt32 :=
  let w := if word == 0 then 1 else word
  let w := w ^^^ (w <<< 13)
  let w := w ^^^ (w >>> 17)
  w ^^^ (w <<< 5)

def draw (g : Xorshift) : Nat × Xorshift :=
  let word := stir g.word
  (word.toNat % 2147483648, ⟨word⟩)

/-- A number below `n`. -/
def below (n : Nat) (g : Xorshift) : Nat × Xorshift :=
  let (x, g) := g.draw
  (x % n, g)

/-- A number between two others. -/
def between (low high : Float) (g : Xorshift) : Float × Xorshift :=
  let (x, g) := g.draw
  ((high - low) * Float.ofNat x / 2147483647.0 + low, g)

theorem draw_lt (g : Xorshift) : g.draw.1 < 2147483648 := Nat.mod_lt _ (by decide)

end Xorshift
end ColumnFlow.Draw
