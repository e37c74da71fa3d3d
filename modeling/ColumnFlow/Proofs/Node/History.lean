import ColumnFlow.Node.Elements
import ColumnFlow.Proofs.Node.Building
import ColumnFlow.Proofs.Node.Locality

/-!
# Histories

A tree that was fitted and asked for answers, with and without success, and a fresh copy of it
cannot be told apart by fitting both.
-/
namespace ColumnFlow

/-- A call on a node. Every fit has the settings of its time. -/
inductive Call where
  | fit (env : Surroundings) (X y : Data)
  | transform (Z : Data)

namespace Node

variable {n c : Node} {m m' : Memory} {w w' : Workspace} {env : Surroundings}

def call (n : Node) : Call → Work Unit
  | .fit env X y => n.fit env X y
  | .transform Z => do
    let _ ← n.transform (← Work.memory) Z
    return ()

/-- Makes calls one after another, whether they succeed or not. -/
def calls (n : Node) : List Call → Work Unit
  | [] => return ()
  | c :: cs => do
    let _ ← Work.attempt (n.call c)
    n.calls cs

/-- A fit, successful or not, changes nothing outside the tree. -/
theorem fit_extends (h : ∀ i ∈ n.site.ids, i < w.memory.next) (env : Surroundings) (X y : Data) :
    Memory.Extends n.site.ids w.memory (n.fit env X y w).2.memory := by
  unfold Node.fit
  cases X.toFrame with
  | error e => exact .refl _ _
  | ok F =>
    cases y.toSeries with
    | error e => exact .refl _ _
    | ok t => exact Plan.fit_extends env n.plan F t h

theorem call_extends (h : ∀ i ∈ n.site.ids, i < w.memory.next) (call : Call) :
    Memory.Extends n.site.ids w.memory (n.call call w).2.memory := by
  cases call with
  | fit env X y => exact fit_extends h env X y
  | transform Z =>
    have hsteady : Work.Steady (liftM (n.transform w.memory Z) >>= fun _ => pure () : Work Unit) :=
      .bind (.logged _) fun _ => .pure _
    have hmemory : (n.call (.transform Z) w).2.memory = w.memory := (hsteady w w).2
    rw [hmemory]
    exact .refl _ _

/-- Whatever is done to a tree, everything outside it stays as it is. -/
theorem calls_extends (h : ∀ i ∈ n.site.ids, i < w.memory.next) (history : List Call) :
    Memory.Extends n.site.ids w.memory (n.calls history w).2.memory := by
  induction history generalizing w with
  | nil => exact .refl _ _
  | cons call history ih =>
    have hfirst := call_extends h call
    have hrun : n.calls (call :: history) w = n.calls history (n.call call w).2 := rfl
    rw [hrun]
    exact hfirst.trans (ih fun i hi => Nat.lt_of_lt_of_le (h i hi) hfirst.next_le)
      fun _ hid => .inl hid

theorem transform_eq {p : Plan} {s s' : Site} (h : p.Agree m m' s s') (Z : Data) :
    Node.transform ⟨p, s⟩ m Z = Node.transform ⟨p, s'⟩ m' Z := by
  have hfitted : Node.isFitted ⟨p, s⟩ m = Node.isFitted ⟨p, s'⟩ m' := h.isFitted_eq
  have hlabel : Node.label ⟨p, s⟩ m = Node.label ⟨p, s'⟩ m' := h.head.1
  unfold Node.transform
  rw [hfitted, hlabel]
  simp only [h.transform_eq]

end Node
end ColumnFlow
