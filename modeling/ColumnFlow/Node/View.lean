import ColumnFlow.Node.Memory
import ColumnFlow.Value.Domain

/-!
What can be seen of a tree: whether it is fitted, its structure, its text and its parts. A tree is
fitted when it and all its parts are; of a choice only the chosen part need be.
-/
namespace ColumnFlow

namespace Memory

def label (m : Memory) (s : Site) : Label := (m.slot s.id).name

/-- The name of a node in messages. -/
def name (m : Memory) (s : Site) : String := (m.label s).plain

/-- The text of a leaf, which is its name. -/
def text (m : Memory) (s : Site) : Except Failure String :=
  match m.label s with
  | .text name => .ok name
  | _ => .error (.unusable .type)

def inputColumns (m : Memory) (s : Site) : Option (List Label) := (m.slot s.id).inputColumns

/-- Whether the last fit of the node itself succeeded. -/
def hasInput (m : Memory) (s : Site) : Bool := (m.inputColumns s).isSome

def winner (m : Memory) (s : Site) : Option Nat :=
  match (m.slot s.id).learned with
  | .choice winner _ => winner
  | _ => none

def isFittedLeaf (m : Memory) (s : Site) : Bool :=
  match (m.slot s.id).learned with
  | .fitted _ | .model _ => true
  | _ => false

end Memory

namespace Plan

mutual

def isFitted (m : Memory) : Plan → Site → Bool
  | .transformer _, s | .learner _, s => m.hasInput s && m.isFittedLeaf s
  | .element _, s => m.hasInput s
  | .sequential ps, s | .parallel ps, s | .vote ps, s => m.hasInput s && allFitted m ps s.parts
  | .stack t ps _, s => m.hasInput s && allFitted m ps s.rest && isFitted m t s.first
  | .best ps _, s =>
    m.hasInput s && match m.winner s with
      | some i => fittedAt m ps s.parts i
      | none => false
  | .bagging t _, s => m.hasInput s && s.rest.all fun member => isFitted m t member

def allFitted (m : Memory) : List Plan → List Site → Bool
  | p :: ps, s :: ss => isFitted m p s && allFitted m ps ss
  | _, _ => true

def fittedAt (m : Memory) : List Plan → List Site → Nat → Bool
  | p :: _, s :: _, 0 => isFitted m p s
  | _ :: ps, _ :: ss, i + 1 => fittedAt m ps ss i
  | _, _, _ => false

end

mutual

def outline (m : Memory) : Plan → Site → Structure
  | .transformer t, s => .atomic (m.label s) t.binding
  | .learner l, s => .atomic (m.label s) l.binding
  | .element e, s => .atomic (m.label s) e.kind
  | .sequential ps, s => .composite "seq" (outlines m ps s.parts)
  | .parallel ps, s => .composite "par" (outlines m ps s.parts)
  | .vote ps, s => .ensemble "vote" (m.label s) (outlines m ps s.parts)
  | .best ps _, s => .ensemble "best" (m.label s) (outlines m ps s.parts)
  | .stack t ps _, s => .stack (m.label s) (outlines m ps s.rest) (outline m t s.first)
  | .bagging t settings, s => .bagging (m.label s) settings.count (outline m t s.first)

def outlines (m : Memory) : List Plan → List Site → List Structure
  | p :: ps, s :: ss => outline m p s :: outlines m ps ss
  | _, _ => []

end

/-- The constructor form of a node with some parts. -/
def enclosed (kind : String) (parts : List String) : String :=
  kind ++ "([" ++ Value.joined parts ++ "])"

mutual

/-- The constructor form of a tree; a leaf is its name, which must be a text. -/
def text (m : Memory) : Plan → Site → Except Failure String
  | .transformer _, s | .learner _, s | .element _, s => m.text s
  | .sequential ps, s => do return enclosed "Sequential" (← texts m ps s.parts)
  | .parallel ps, s => do return enclosed "Parallel" (← texts m ps s.parts)
  | .vote ps, s => do return enclosed "VoteEnsemble" (← texts m ps s.parts)
  | .best ps _, s => do return enclosed "BestLearner" (← texts m ps s.parts)
  | .stack _ ps _, s => do return enclosed "StackEnsemble" (← texts m ps s.rest)
  | .bagging t _, s => do
    return enclosed "BaggingEnsemble" (← s.rest.mapM fun member => text m t member)

def texts (m : Memory) : List Plan → List Site → Except Failure (List String)
  | p :: ps, s :: ss => do return (← text m p s) :: (← texts m ps ss)
  | _, _ => .ok []

end

end Plan

namespace Node

def label (n : Node) (m : Memory) : Label := m.label n.site

def name (n : Node) (m : Memory) : String := m.name n.site

def isFitted (n : Node) (m : Memory) : Bool := n.plan.isFitted m n.site

def outline (n : Node) (m : Memory) : Structure := n.plan.outline m n.site

def text (n : Node) (m : Memory) : Except Failure String := n.plan.text m n.site

def zipParts (ps : List Plan) (ss : List Site) : List Node := ps.zipWith Node.mk ss

/-- The parts of a composite or the members of an ensemble; the stacker is not among them. -/
def children (n : Node) : List Node :=
  match n.plan with
  | .sequential ps | .parallel ps | .vote ps | .best ps _ => zipParts ps n.site.parts
  | .stack _ ps _ => zipParts ps n.site.rest
  | .bagging t _ => n.site.rest.map fun s => ⟨t, s⟩
  | _ => []

def isLeaf (n : Node) : Bool :=
  match n.plan with
  | .transformer _ | .learner _ | .element _ => true
  | _ => false

/-- The child at a place; places below zero count from the end. -/
def childAt (n : Node) (i : Int) : Except Failure Node :=
  let parts := n.children
  let place := if i < 0 then i + parts.length else i
  if place < 0 then .error (.unusable .index)
  else
    match parts[place.toNat]? with
    | some c => .ok c
    | none => .error (.unusable .index)

/-- One of the children, by its place. Leaves have no children at all. -/
def child (n : Node) (place : Value) : Except Failure Node :=
  if n.isLeaf then .error (.unusable .attribute)
  else (Domain.whole? place).elim (.error (.unusable .type)) n.childAt

end Node
end ColumnFlow
