/-!
Seeded draws of 32-bit words: the twister with 624 words of state. A seed fixes all draws.
-/
namespace ColumnFlow.Draw

structure Twister where
  words : Array UInt32
  next : Nat

namespace Twister

def size : Nat := 624

/-- The words that follow a first word in a fresh state. -/
def fill : Nat → Nat → UInt32 → Array UInt32 → Array UInt32
  | 0, _, _, words => words
  | count + 1, i, last, words =>
    let word := (1812433253 : UInt32) * (last ^^^ (last >>> 30)) + UInt32.ofNat i
    fill count (i + 1) word (words.push word)

def ofSeed (seed : Nat) : Twister :=
  let first := UInt32.ofNat seed
  ⟨fill (size - 1) 1 first #[first], size⟩

def twist (upper lower far : UInt32) : UInt32 :=
  let y := (upper &&& 0x80000000) ||| (lower &&& 0x7fffffff)
  far ^^^ (y >>> 1) ^^^ (if y &&& 1 == 1 then 0x9908b0df else 0)

/-- Replaces all words, in order. -/
def renew (words : Array UInt32) : Array UInt32 :=
  (List.range size).foldl (fun w i =>
    let word (k : Nat) : UInt32 := w.getD (k % size) 0
    w.setIfInBounds i (twist (word i) (word (i + 1)) (word (i + 397)))) words

def temper (word : UInt32) : UInt32 :=
  let y := word ^^^ (word >>> 11)
  let y := y ^^^ ((y <<< 7) &&& 0x9d2c5680)
  let y := y ^^^ ((y <<< 15) &&& 0xefc60000)
  y ^^^ (y >>> 18)

def draw (t : Twister) : UInt32 × Twister :=
  let t := if t.next < size then t else ⟨renew t.words, 0⟩
  (temper (t.words.getD t.next 0), { t with next := t.next + 1 })

end Twister
end ColumnFlow.Draw
