import ColumnFlow.Node.Memory
import ColumnFlow.Metric.Table
import ColumnFlow.Settings.Basic

/-!
Computations that change nodes. `Work` reads and writes the memory and leaves notices; what was
changed before a failure stays changed. The surroundings, which do not change, are the settings and
the metrics. Settings are only asked for where they are needed, and that they were asked for is
remembered.
-/
namespace ColumnFlow

structure Surroundings where
  settings : Except Failure Settings
  metrics : MetricTable

structure Workspace where
  memory : Memory
  notices : List Notice
  consulted : Bool

abbrev Work := ExceptT Failure (StateM Workspace)

namespace Work

def memory : Work Memory := do return (← get).memory

def setMemory (m : Memory) : Work Unit := modify fun w => { w with memory := m }

def note (n : Notice) : Work Unit := modify fun w => { w with notices := w.notices ++ [n] }

/-- Runs a logged computation. -/
def ofLogged {α : Type} (x : Logged α) : Work α := do
  modify fun w => { w with notices := w.notices ++ x.notices }
  match x.outcome with
  | .ok a => return a
  | .error e => throw e

def ofExcept {α : Type} : Except Failure α → Work α
  | .ok a => pure a
  | .error e => throw e

instance : MonadLift Logged Work := ⟨ofLogged⟩

instance : MonadLift (Except Failure) Work := ⟨ofExcept⟩

/-- The result of a computation, or its failure; what it changed stays changed. -/
def attempt {α : Type} (x : Work α) : Work (Except Failure α) := fun w =>
  let (result, w) := x w
  (.ok result, w)

/-- The settings, if they are valid. -/
def settings (env : Surroundings) : Work Settings := do
  let s ← env.settings
  modify fun w => { w with consulted := true }
  return s

def updateSlot (id : Nat) (f : Slot → Slot) : Work Unit :=
  modify fun w => { w with memory := w.memory.update id f }

def setInput (s : Site) (columns : Option (List Label)) : Work Unit :=
  updateSlot s.id fun slot => { slot with inputColumns := columns }

def setLearned (s : Site) (learned : Learned) : Work Unit :=
  updateSlot s.id fun slot => { slot with learned }

def setName (s : Site) (name : Label) : Work Unit :=
  updateSlot s.id fun slot => { slot with name }

/-- Takes new identities, as a function of the memory. -/
def placing {α : Type} (f : Memory → α × Memory) : Work α := fun w =>
  let (a, m) := f w.memory
  (.ok a, { w with memory := m })

end Work
end ColumnFlow
