import ColumnFlow.Node.Memory

/-!
Copying trees. A copy has the same plan and the same names over new identities, none of which is
shared between two positions, and nothing in it is fitted. The members of a bagging ensemble are
copies of the copied template.
-/
namespace ColumnFlow

/-- The name of a copied composite: a name that counts as false gives way to the default. -/
def Plan.copiedName (p : Plan) (name : Label) : Label :=
  if name.isTrue then name else .text p.defaultName

/-- Takes a new identity for a node with some parts. -/
def Memory.place (m : Memory) (name : Label) (parts : List Site) : Site × Memory :=
  (.mk m.next parts, m.alloc (.fresh name))

/-- Does one thing several times and collects the sites. -/
def Memory.times (make : Memory → Site × Memory) : Nat → Memory → List Site × Memory
  | 0, m => ([], m)
  | n + 1, m =>
    let (site, m) := make m
    let (sites, m) := times make n m
    (site :: sites, m)

namespace Plan

mutual

def copy : Plan → Site → Memory → Site × Memory
  | .transformer _, s, m | .learner _, s, m | .element _, s, m => m.place (m.slot s.id).name []
  | .sequential ps, s, m =>
    let name := (Plan.sequential ps).copiedName (m.slot s.id).name
    let (parts, m) := copyAll ps s.parts m
    m.place name parts
  | .parallel ps, s, m =>
    let name := (Plan.parallel ps).copiedName (m.slot s.id).name
    let (parts, m) := copyAll ps s.parts m
    m.place name parts
  | .vote ps, s, m =>
    let name := (Plan.vote ps).copiedName (m.slot s.id).name
    let (parts, m) := copyAll ps s.parts m
    m.place name parts
  | .best ps policy, s, m =>
    let name := (Plan.best ps policy).copiedName (m.slot s.id).name
    let (parts, m) := copyAll ps s.parts m
    m.place name parts
  | .stack t ps settings, s, m =>
    let name := (Plan.stack t ps settings).copiedName (m.slot s.id).name
    let (parts, m) := copyAll ps s.rest m
    let (stacker, m) := copy t s.first m
    m.place name (stacker :: parts)
  | .bagging t settings, s, m =>
    let name := (Plan.bagging t settings).copiedName (m.slot s.id).name
    let (template, m) := copy t s.first m
    let (members, m) := Memory.times (fun m => copy t template m) settings.count.toNat m
    m.place name (template :: members)

def copyAll : List Plan → List Site → Memory → List Site × Memory
  | p :: ps, s :: ss, m =>
    let (site, m) := copy p s m
    let (sites, m) := copyAll ps ss m
    (site :: sites, m)
  | _, _, m => ([], m)

end

end Plan

/-- A fresh copy of a node. -/
def Node.copy (n : Node) (m : Memory) : Node × Memory :=
  let (site, m) := n.plan.copy n.site m
  (⟨n.plan, site⟩, m)

end ColumnFlow
