import ColumnFlow.Node.Plan

/-!
Identity and state of nodes. A site gives every position of a tree an identity; two positions with
one identity are one node. The memory has a slot for every identity, with the name of the node,
which may be any label, the columns it was fit with and what it has learned. Copying a tree takes
new identities.
-/
namespace ColumnFlow

/-- Identities of a tree: its own, then those of its parts. A stack has its stacker first, and a
bagging ensemble its template. -/
inductive Site where
  | mk (id : Nat) (parts : List Site)
  deriving Inhabited

namespace Site

def id : Site → Nat
  | .mk id _ => id

def parts : Site → List Site
  | .mk _ parts => parts

/-- The site of the stacker or of the template. -/
def first (s : Site) : Site := s.parts.headD (.mk s.id [])

/-- The sites of the members. -/
def rest (s : Site) : List Site := s.parts.tail

end Site

inductive Learned where
  | nothing
  | fitted (f : Fitted)
  | model (m : Model)
  | codes (codes : List (Scalar × Nat))
  | choice (winner : Option Nat) (scores : List (Label × Float))

structure Slot where
  name : Label
  inputColumns : Option (List Label)
  learned : Learned

namespace Slot

/-- The slot of a new node. -/
def fresh (name : Label) : Slot := ⟨name, none, .nothing⟩

end Slot

instance : Inhabited Slot := ⟨.fresh (.text "")⟩

structure Memory where
  slots : Array Slot

namespace Memory

def empty : Memory := ⟨#[]⟩

def slot (m : Memory) (id : Nat) : Slot := (m.slots[id]?).getD (.fresh (.text ""))

/-- The next identity that is free. -/
def next (m : Memory) : Nat := m.slots.size

def alloc (m : Memory) (s : Slot) : Memory := ⟨m.slots.push s⟩

def update (m : Memory) (id : Nat) (f : Slot → Slot) : Memory :=
  match m.slots[id]? with
  | some s => ⟨m.slots.setIfInBounds id (f s)⟩
  | none => m

theorem slot_alloc_next (m : Memory) (s : Slot) : (m.alloc s).slot m.next = s := by
  simp [slot, alloc, next]

theorem slot_alloc_of_lt {m : Memory} {s : Slot} {id : Nat} (h : id < m.next) :
    (m.alloc s).slot id = m.slot id := by
  unfold next at h
  simp [slot, alloc, Array.getElem?_push, Nat.ne_of_lt h]

theorem slot_update_of_ne {m : Memory} {f : Slot → Slot} {i j : Nat} (h : j ≠ i) :
    (m.update i f).slot j = m.slot j := by
  unfold update slot
  split
  · simp [Ne.symm h]
  · rfl

theorem slot_update_self {m : Memory} {f : Slot → Slot} {i : Nat} (h : i < m.next) :
    (m.update i f).slot i = f (m.slot i) := by
  unfold next at h
  simp [update, slot, h]

theorem next_update (m : Memory) (i : Nat) (f : Slot → Slot) : (m.update i f).next = m.next := by
  unfold update next
  split <;> simp

end Memory

namespace Site

mutual

/-- The identities in a tree, each once for every position that has it. -/
def ids : Site → List Nat
  | .mk id parts => id :: idsOf parts

def idsOf : List Site → List Nat
  | [] => []
  | s :: rest => ids s ++ idsOf rest

end

mutual

/-- The same tree under other identities. -/
def rename (f : Nat → Nat) : Site → Site
  | .mk id parts => .mk (f id) (renameAll f parts)

def renameAll (f : Nat → Nat) : List Site → List Site
  | [] => []
  | s :: rest => rename f s :: renameAll f rest

end

/-- Gives every identity of a tree a new one with an equal slot. Positions that shared an identity
still share one. -/
def duplicate (s : Site) (m : Memory) : Site × Memory :=
  let old := s.ids.eraseDups
  (s.rename fun id => m.next + old.idxOf id, old.foldl (fun m' id => m'.alloc (m.slot id)) m)

end Site

/-- A plan with the identities of its positions. -/
structure Node where
  plan : Plan
  site : Site
  deriving Inhabited

end ColumnFlow
