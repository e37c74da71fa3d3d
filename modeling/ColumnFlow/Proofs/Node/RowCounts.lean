import ColumnFlow.Node.Elements
import ColumnFlow.Proofs.Node.Grouping
import Mathlib.Data.List.Induction

/-!
# Rows of parallel parts

A parallel counts the rows of its parts in a table under their names, where a later part takes the
place of an earlier one that has its name. So what the table shows are the last parts of every name.
A part that returns too many rows or too few never goes unnoticed, but only among the last of their
names it is reported as a mismatch; before one of its own name it makes the parallel fail while the
outputs are put side by side.
-/
namespace ColumnFlow

variable {counts before after : List (Label × Nat)} {c d : Label × Nat}

/-- A count that no later one under its name replaces. -/
def Prevails (counts : List (Label × Nat)) (d : Label × Nat) : Prop :=
  ∃ before after, counts = before ++ d :: after ∧ ∀ e ∈ after, d.1.same e.1 = false

namespace Prevails

theorem last (counts : List (Label × Nat)) (c : Label × Nat) : Prevails (counts ++ [c]) c :=
  ⟨counts, [], rfl, fun _ he => nomatch he⟩

theorem append (h : Prevails counts d) (hc : d.1.same c.1 = false) :
    Prevails (counts ++ [c]) d := by
  obtain ⟨before, after, rfl, hafter⟩ := h
  refine ⟨before, after ++ [c], by simp, fun e he => ?_⟩
  rcases List.mem_append.1 he with he | he
  · exact hafter e he
  · rw [List.mem_singleton.1 he]
    exact hc

theorem mem (h : Prevails counts d) : d ∈ counts := by
  obtain ⟨before, after, rfl, -⟩ := h
  simp

theorem of_append (h : Prevails (counts ++ [c]) d) :
    d = c ∨ (d.1.same c.1 = false ∧ Prevails counts d) := by
  obtain ⟨before, after, heq, hafter⟩ := h
  rcases List.eq_nil_or_concat after with rfl | ⟨init, e, rfl⟩
  · exact .inl (List.append_inj_right' heq rfl |> List.singleton_inj.1).symm
  · right
    have hsplit : counts ++ [c] = (before ++ d :: init) ++ [e] := by simp [heq]
    obtain ⟨hcounts, hlast⟩ := List.append_inj' hsplit rfl
    obtain rfl : c = e := List.singleton_inj.1 hlast
    exact ⟨hafter c (by simp), before, init, hcounts, fun f hf => hafter f (by simp [hf])⟩

end Prevails

namespace Memory

variable {m : Memory} {s : Site} {names : List Label} {outputs : List Frame} {X : Frame}

end Memory

namespace Node

variable {nodes : List Node} {s : Site} {m : Memory} {X : Data} {Z : Frame} {outputs : List Frame}

variable {names : List Label} {d : Label × Nat}

end Node
end ColumnFlow
