import ColumnFlow.Expression.Token
import ColumnFlow.Node.Build

/-!
Registries: named prototypes, and a catalogue that describes them. A registry hands out fresh copies
under the name they were asked for by, and never lets a copy share state with its prototype.
-/
namespace ColumnFlow

/-- What a catalogue says of a component. -/
structure ComponentInfo where
  name : String
  kind : String
  category : String
  description : String

structure Registry where
  prototypes : List (String × Node)
  catalogue : List (String × ComponentInfo)

/-- What is offered for registration. The name must be a text. -/
structure Registration where
  name : Value
  part : Part
  category : Value
  description : Value
  overwrite : Bool

namespace Registry

def empty : Registry := ⟨[], []⟩

/-- Puts an entry in the place of an equal name, and last otherwise. -/
def put {α : Type} (entries : List (String × α)) (name : String) (a : α) : List (String × α) :=
  if entries.any fun e => e.1 == name then
    entries.map fun e => if e.1 == name then (name, a) else e
  else entries ++ [(name, a)]

def has (r : Registry) (name : String) : Bool := r.prototypes.any fun e => e.1 == name

def size (r : Registry) : Nat := r.prototypes.length

/-- The names in increasing order. -/
def names (r : Registry) : List String := Failure.sortTexts (r.prototypes.map (·.1))

/-- The failure for a value that names no component. Lists and tables cannot be looked up. -/
def unknown (r : Registry) (name : Value) : Failure :=
  match name with
  | .scalar s => .unknownComponents [s] r.names
  | _ => .unusable .type

/-- A letter or an underscore, then letters, digits and underscores. One line break may follow. -/
def isComponentName (name : String) : Bool :=
  let cs := name.toList
  Expression.isName cs || (cs.getLast? == some '\n' && Expression.isName cs.dropLast)

/-- Category and description must be texts. -/
def describe (name kind : String) (r : Registration) : Except Failure ComponentInfo :=
  match (Fields.ofField "category" (Field.readText r.category)).both
      (Fields.ofField "description" (Field.readText r.description)) with
  | .ok (category, description) => .ok ⟨name, kind, category, description⟩
  | .error faults => .error (.invalidFields faults)

/-- What must hold before anything is registered. -/
def check (r : Registry) (new : Registration) : Except Failure (String × Node) :=
  match new.name with
  | .scalar (.text name) =>
    if !isComponentName name then .error (.misuse (.componentName name))
    else
      match new.part with
      | .value kind => .error (.misplaced (.component name kind))
      | .node n =>
        if r.has name && !new.overwrite then .error (.misuse (.componentExists name))
        else .ok (name, n)
  | _ => .error (.unusable .type)

/-- Registers a component. The prototype is in its place before the catalogue is written, so a
description that is refused leaves the prototype without one. -/
def register (r : Registry) (new : Registration) : Registry × Except Failure Unit :=
  match r.check new with
  | .error e => (r, .error e)
  | .ok (name, n) =>
    let r := { r with prototypes := put r.prototypes name n }
    match describe name n.plan.kind new with
    | .error e => (r, .error e)
    | .ok info => ({ r with catalogue := put r.catalogue name info }, .ok ())

/-- The component that a value names. -/
def find (r : Registry) (name : Value) : Except Failure (String × Node) :=
  match name with
  | .scalar (.text s) =>
    match r.prototypes.lookup s with
    | some n => .ok (s, n)
    | none => .error (r.unknown name)
  | _ => .error (r.unknown name)

def without {α : Type} (entries : List (String × α)) (name : String) : List (String × α) :=
  entries.filter fun e => e.1 != name

/-- Forgets a component. A component that the catalogue lacks loses its prototype all the same. -/
def unregister (r : Registry) (name : Value) : Registry × Except Failure Unit :=
  match r.find name with
  | .error e => (r, .error e)
  | .ok (s, _) =>
    let forgotten := { r with prototypes := without r.prototypes s }
    if r.catalogue.any fun e => e.1 == s then
      ({ forgotten with catalogue := without r.catalogue s }, .ok ())
    else (forgotten, .error (.unusable .key))

/-- The prototype itself. -/
def get (r : Registry) (name : Value) : Except Failure Node := do
  let (_, n) ← r.find name
  return n

/-- A copy of the prototype, named after the component. -/
def create (r : Registry) (name : Value) : Work Node := do
  let (s, n) ← r.find name
  let copy ← Work.placing n.copy
  Work.setName copy.site (.text s)
  return copy

def infoOf (r : Registry) (name : String) : Except Failure ComponentInfo :=
  match r.catalogue.lookup name with
  | some info => .ok info
  | none => .error (.unusable .key)

/-- What the catalogue says of one component. -/
def info (r : Registry) (name : Value) : Except Failure ComponentInfo := do
  let (s, _) ← r.find name
  r.infoOf s

/-- What the catalogue says of all components, in the order of their names. -/
def infos (r : Registry) : Except Failure (List ComponentInfo) := r.names.mapM r.infoOf

/-- Whether a value is the name of a component. Lists and tables cannot be looked up. -/
def contains (r : Registry) (v : Value) : Except Failure Bool :=
  match v with
  | .scalar (.text s) => .ok (r.has s)
  | .list _ | .dict _ => .error (.unusable .type)
  | _ => .ok false

end Registry
end ColumnFlow
