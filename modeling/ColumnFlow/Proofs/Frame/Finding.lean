import ColumnFlow.Proofs.Decimal.Texts
import ColumnFlow.Proofs.Frame.Alignment
import ColumnFlow.Proofs.Frame.Labels
import Mathlib

/-!
# Labels that find each other

That a label is found under another is an equivalence. So labels that do not repeat find one column
at most, in a frame where labels do not repeat either.
-/
namespace ColumnFlow

open Decimal

namespace Label

variable {a b c : Label}

theorem isNotANumber_iff (a : Label) :
    a.isNotANumber = true ↔ a.key = .absent ∨ a.key = .number .nan := by
  cases a with
  | float x =>
    refine Exact.ofFloat_eq_nan.symm.trans ?_
    simp [Scalar.key, Scalar.atoms]
  | _ => simp [Scalar.isNotANumber, Scalar.key, Scalar.atoms]

theorem finds_iff (a b : Label) : a.finds b = true ↔
    a.key = b.key ∨ a.isNotANumber = true ∧ b.isNotANumber = true := by
  unfold finds
  rw [Bool.or_eq_true, Bool.and_eq_true, beq_iff_eq]

theorem finds_symm (h : a.finds b = true) : b.finds a = true := by
  rw [finds_iff] at h ⊢
  exact h.imp Eq.symm And.symm

theorem finds_trans (hab : a.finds b = true) (hbc : b.finds c = true) : a.finds c = true := by
  have hnumber : ∀ {k l : Label}, k.key = l.key → k.isNotANumber = true → l.isNotANumber = true :=
    fun h => by rw [isNotANumber_iff, isNotANumber_iff, h]; exact id
  rw [finds_iff] at *
  obtain hab | ⟨ha, hb⟩ := hab <;> obtain hbc | ⟨hb', hc⟩ := hbc
  · exact .inl (hab.trans hbc)
  · exact .inr ⟨hnumber hab.symm hb', hc⟩
  · exact .inr ⟨ha, hnumber hbc hb⟩
  · exact .inr ⟨ha, hc⟩

theorem not_finds_symm (h : a.finds b = false) : b.finds a = false :=
  Bool.eq_false_iff.2 (mt finds_symm (Bool.eq_false_iff.1 h))

theorem finds_congr (h : a.finds b = true) (c : Label) : a.finds c = b.finds c :=
  Bool.eq_iff_iff.2 ⟨finds_trans (finds_symm h), finds_trans h⟩

theorem any_finds_congr {as bs : List Label} (h : a.finds b = true)
    (hlists : List.Forall₂ (fun a b => a.finds b = true) as bs) : as.any a.finds = bs.any b.finds := by
  induction hlists with
  | nil => rfl
  | @cons c d as bs hcd _ ih =>
    have hsame : a.finds c = b.finds d := by
      rw [finds_congr h, Bool.eq_iff_iff]
      exact ⟨fun h => finds_trans h hcd, fun h => finds_trans h (finds_symm hcd)⟩
    rw [List.any_cons, List.any_cons, hsame, ih]

theorem finds_forall₂_trans {as bs cs : List Label}
    (hab : List.Forall₂ (fun a b => a.finds b = true) as bs)
    (hbc : List.Forall₂ (fun b c => b.finds c = true) bs cs) :
    List.Forall₂ (fun a c => a.finds c = true) as cs := by
  induction hab generalizing cs with
  | nil => exact hbc
  | cons hfirst _ ih =>
    cases hbc with
    | cons hnext hrest => exact .cons (finds_trans hfirst hnext) (ih hrest)

end Label

/-- Labels none of which is found under one before it. -/
theorem Frame.hasRepeats_eq_false {labels : List Label} :
    hasRepeats labels = false ↔ labels.Pairwise fun a b => a.finds b = false := by
  induction labels with
  | nil => simp [hasRepeats]
  | cons l labels ih =>
    unfold hasRepeats
    rw [Bool.or_eq_false_iff, ih, List.pairwise_cons, List.any_eq_false]
    simp only [Bool.not_eq_true]

theorem Frame.hasRepeats_congr {as bs : List Label}
    (h : List.Forall₂ (fun a b => a.finds b = true) as bs) : hasRepeats as = hasRepeats bs := by
  induction h with
  | nil => rfl
  | cons hfirst hrest ih =>
    unfold hasRepeats
    rw [Label.any_finds_congr hfirst hrest, ih]

namespace Labels

/-- Labels that still are found when they are listed together. -/
def Stable (labels : List Label) : Prop :=
  List.Forall₂ (fun a b => a.finds b = true) labels (unified labels)

theorem stable_of_texts {labels : List Label} (h : ∀ l ∈ labels, l.isText = true) :
    Stable labels := by
  unfold Stable
  rw [unified_of_texts h]
  exact List.forall₂_same.2 fun l _ => Frame.finds_self l

end Labels

/-! Frames with distinct labels. -/

namespace Frame

variable {X : Frame} {l : Label} {c d : Column}

/-- A label finds one column. -/
theorem eq_of_finds (hX : hasRepeats X.labels = false) (hc : c ∈ X.columns) (hd : d ∈ X.columns)
    (hlc : l.finds c.label = true) (hld : l.finds d.label = true) : c = d := by
  have hpairs := List.pairwise_map.1 (hasRepeats_eq_false.1 hX)
  by_contra hne
  have : Std.Symm fun c d : Column => c.label.finds d.label = false :=
    ⟨fun c d => Label.not_finds_symm⟩
  have hfinds := hpairs.forall hc hd hne
  rw [Label.finds_trans (Label.finds_symm hlc) hld] at hfinds
  cases hfinds

theorem filter_finds (hX : hasRepeats X.labels = false) (hc : c ∈ X.columns)
    (hlc : l.finds c.label = true) : X.columns.filter (fun d => l.finds d.label) = [c] := by
  have hpairs := List.pairwise_map.1 (hasRepeats_eq_false.1 hX)
  have hmem : c ∈ X.columns.filter fun d => l.finds d.label := List.mem_filter.2 ⟨hc, hlc⟩
  have hall : ∀ d ∈ X.columns.filter (fun d => l.finds d.label), d = c := fun d hd =>
    eq_of_finds hX (List.mem_of_mem_filter hd) hc (List.mem_filter.1 hd).2 hlc
  cases hfilter : X.columns.filter fun d => l.finds d.label with
  | nil =>
    rw [hfilter] at hmem
    cases hmem
  | cons d rest =>
    rw [hfilter] at hall
    rw [List.forall_mem_cons] at hall
    obtain rfl := hall.1
    cases rest with
    | nil => rfl
    | cons e rest =>
      obtain rfl := hall.2 e List.mem_cons_self
      have htwice := hpairs.filter fun d => l.finds d.label
      rw [hfilter, List.pairwise_cons] at htwice
      have hself := htwice.1 e List.mem_cons_self
      rw [finds_self] at hself
      cases hself

end Frame

end ColumnFlow
