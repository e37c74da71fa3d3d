import ColumnFlow.Draw.Twister

/-!
Draws of whole numbers, shuffles and samples. A number up to a bound is drawn by masking words
until one is within the bound; a bound of zero draws nothing. A shuffle goes down from the last
position and swaps each item with one at or before it.
-/
namespace ColumnFlow.Draw

/-- The least `2 ^ b - 1` that is not below `m`. -/
def maskFor (m : Nat) : Nat := if m = 0 then 0 else Nat.pow 2 (Nat.log2 m + 1) - 1

namespace Twister

/-- Draws until a masked word is within the bound. Each attempt succeeds with at least even chance,
so that the attempts do not run out. -/
def attempt (mask m : Nat) : Nat → Twister → Nat × Twister
  | 0, t => (0, t)
  | attempts + 1, t =>
    let (word, t) := t.draw
    let value := word.toNat &&& mask
    if value ≤ m then (value, t) else attempt mask m attempts t

/-- A number from 0 to `m`. -/
def upTo (m : Nat) (t : Twister) : Nat × Twister :=
  if m = 0 then (0, t) else attempt (maskFor m) m 4096 t

def shuffleFrom {α : Type} : Nat → Array α → Twister → Array α × Twister
  | 0, items, t => (items, t)
  | i + 1, items, t =>
    let (j, t) := t.upTo (i + 1)
    shuffleFrom i (items.swapIfInBounds (i + 1) j) t

def shuffle {α : Type} (items : List α) (t : Twister) : List α × Twister :=
  let (shuffled, t) := shuffleFrom (items.length - 1) items.toArray t
  (shuffled.toList, t)

/-- The numbers below `n` in random order. -/
def permutation (n : Nat) (t : Twister) : List Nat × Twister := t.shuffle (List.range n)

/-- `count` numbers below `n`, each drawn anew. -/
def sample (n : Nat) : Nat → Twister → List Nat × Twister
  | 0, t => ([], t)
  | count + 1, t =>
    let (i, t) := t.upTo (n - 1)
    let (rest, t) := sample n count t
    (i :: rest, t)

/-- A number from 0 up to 1, in steps of the 53rd power of a half. -/
def unit (t : Twister) : Float × Twister :=
  let (a, t) := t.draw
  let (b, t) := t.draw
  (((a >>> 5).toNat.toFloat * 67108864.0 + (b >>> 6).toNat.toFloat) / 9007199254740992.0, t)

/-- Whether something happens that has some chance. The rarer of its two outcomes is what the draw
stands for. -/
def happens (chance : Float) (t : Twister) : Bool × Twister :=
  let rarer (share : Float) : Bool × Twister :=
    let (x, t) := t.unit
    (Float.exp (Float.log (1.0 - share)) < x, t)
  if chance == 0.0 then (false, t)
  else if chance ≤ 0.5 then rarer chance
  else
    let (other, t) := rarer (1.0 - chance)
    (!other, t)

/-- One of several outcomes by their shares: each in turn has its chance among those that are left,
and the last one is certain. -/
def outcome : List Float → Float → Nat → Twister → Nat × Twister
  | share :: more :: rest, left, i, t =>
    let (isHere, t) := t.happens (share / left)
    if isHere then (i, t) else outcome (more :: rest) (left - share) (i + 1) t
  | _, _, i, t => (i, t)

/-- Outcomes by their shares, one after the other. -/
def outcomes (shares : List Float) : Nat → Twister → List Nat × Twister
  | 0, t => ([], t)
  | count + 1, t =>
    let (i, t) := t.outcome shares 1.0 0
    let (rest, t) := outcomes shares count t
    (i :: rest, t)

/-! A shuffle puts the items into another order, whatever is drawn: each step swaps two of them, or
one with itself. -/

section Order

variable {α : Type}

theorem swap_perm (items : Array α) (i j : Nat) :
    (items.swapIfInBounds i j).toList.Perm items.toList := by
  unfold Array.swapIfInBounds
  split
  · split
    · exact (Array.swap_perm _ _).toList
    · exact .refl _
  · exact .refl _

theorem shuffleFrom_perm (i : Nat) (items : Array α) (t : Twister) :
    (shuffleFrom i items t).1.toList.Perm items.toList := by
  induction i generalizing items t with
  | zero => exact .refl _
  | succ i ih =>
    rw [shuffleFrom]
    exact (ih _ _).trans (swap_perm items _ _)

theorem shuffle_perm (items : List α) (t : Twister) : (t.shuffle items).1.Perm items :=
  shuffleFrom_perm _ items.toArray t

theorem permutation_perm (n : Nat) (t : Twister) : (t.permutation n).1.Perm (List.range n) :=
  shuffle_perm _ t

end Order

end Twister

/-- Seeds are the numbers of 32 bits. -/
def isSeed (seed : Int) : Bool := 0 ≤ seed && seed < 4294967296

end ColumnFlow.Draw
