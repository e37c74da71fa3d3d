import ColumnFlow.Decimal.Reading

/-!
Shortlists: the nearest of the items seen so far, at most so many. An item that comes later takes
the place of the farthest one if it is nearer. The items form a heap: the two below an item are no
farther than it is, so that the farthest stands first.
-/
namespace ColumnFlow.Numbers

/-- Items with their distances. -/
structure Shortlist where
  places : Array (Nat × Float)

namespace Shortlist

/-- Nothing yet, with room for some items. -/
def empty (count : Nat) : Shortlist := ⟨Array.replicate count (0, Decimal.positiveInfinity)⟩

/-- The farther of the two items below a place, the first of equally far ones. -/
def below (places : Array (Nat × Float)) (place : Nat) : Option (Nat × Nat × Float) :=
  match places[2 * place + 1]?, places[2 * place + 2]? with
  | some a, some b =>
    if a.2 < b.2 then some (2 * place + 2, b) else some (2 * place + 1, a)
  | some a, none => some (2 * place + 1, a)
  | none, _ => none

/-- Puts an item at a place, or farther down while one below it is farther. Every step at least
doubles the place. -/
def sink (item : Nat × Float) : Nat → Nat → Array (Nat × Float) → Array (Nat × Float)
  | 0, place, places => places.setIfInBounds place item
  | steps + 1, place, places =>
    match below places place with
    | some (next, other) =>
      if item.2 < other.2 then sink item steps next (places.setIfInBounds place other)
      else places.setIfInBounds place item
    | none => places.setIfInBounds place item

/-- Considers an item. -/
def add (s : Shortlist) (item : Nat × Float) : Shortlist :=
  match s.places[0]? with
  | some farthest =>
    if item.2 < farthest.2 then ⟨sink item s.places.size 0 s.places⟩ else s
  | none => s

/-- The items, the nearest first. -/
def toList (s : Shortlist) : List (Nat × Float) := s.places.toList.mergeSort fun a b => a.2 ≤ b.2

theorem size_sink (item : Nat × Float) (steps place : Nat) (places : Array (Nat × Float)) :
    (sink item steps place places).size = places.size := by
  induction steps generalizing place places with
  | zero => simp [sink]
  | succ steps ih =>
    unfold sink
    split
    · split
      · simp [ih]
      · simp
    · simp

theorem size_add (s : Shortlist) (item : Nat × Float) :
    (s.add item).places.size = s.places.size := by
  unfold add
  split
  · split
    · simp [size_sink]
    · rfl
  · rfl

end Shortlist
end ColumnFlow.Numbers
