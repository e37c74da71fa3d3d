import ColumnFlow.Frame.Labels
import Mathlib.Data.List.Nodup
import Mathlib.Data.List.Perm.Subperm

/-!
# Labels that were made distinct

A label that is handed out differs from all labels that were handed out before it. For a repeat this
is because the search for a free number has more attempts than there are taken labels, and different
numbers make different labels.
-/
namespace ColumnFlow

theorem Scalar.same_of_same {a b : Label} (h : a.same b = true) (l : Label) :
    a.same l = b.same l := by
  have hkey : a.key = b.key := beq_iff_eq.1 (Bool.and_eq_true_iff.1 h).1
  unfold same
  rw [hkey]

namespace Labels

variable {l : Label} {labels handed : List Label} {m : Memo} {n start : Nat}

theorem isIn_append (l : Label) (ls ls' : List Label) :
    l.isIn (ls ++ ls') = (l.isIn ls || l.isIn ls') := by
  unfold Scalar.isIn
  exact List.any_append

theorem key_suffixed_inj (l : Label) :
    Function.Injective fun k => (suffixed l k).key := by
  intro i j h
  have htext : l.plain ++ "_" ++ toString i = l.plain ++ "_" ++ toString j := by
    simpa [suffixed, Scalar.key, Scalar.atoms] using h
  have hdigits : (i.repr).toList = (j.repr).toList :=
    congrArg String.toList ((String.append_right_inj _).1 htext)
  rw [Nat.toList_repr, Nat.toList_repr] at hdigits
  rw [← Nat.ofDigitChars_ten_toDigits (n := i), hdigits, Nat.ofDigitChars_ten_toDigits]

theorem firstFree_search (taken : Label → Bool) (l : Label) (n start : Nat) :
    taken (suffixed l (firstFree taken l n start)) = false ∨
      ∀ i < n, taken (suffixed l (start + i)) = true := by
  induction n generalizing start with
  | zero => exact .inr fun i hi => absurd hi (Nat.not_lt_zero i)
  | succ n ih =>
    unfold firstFree
    by_cases hstart : taken (suffixed l start) = true
    · rw [if_pos hstart]
      refine (ih (start + 1)).imp id fun htaken i hi => ?_
      cases i with
      | zero => exact hstart
      | succ i =>
        have hnext := htaken i (Nat.lt_of_succ_lt_succ hi)
        rwa [Nat.add_assoc, Nat.add_comm 1 i] at hnext
    · rw [if_neg hstart]
      exact .inl (Bool.eq_false_iff.2 hstart)

/-- Every number that fails uses up one of the taken labels. -/
theorem attempts_le (h : ∀ i < n, (suffixed l (start + i)).isIn labels = true) :
    n ≤ labels.length := by
  have hnodup : ((List.range n).map fun i => (suffixed l (start + i)).key).Nodup :=
    List.Nodup.map (fun i j hij => Nat.add_left_cancel (key_suffixed_inj l hij)) List.nodup_range
  have hsubset : ((List.range n).map fun i => (suffixed l (start + i)).key) ⊆
      labels.map Scalar.key := by
    intro k hk
    obtain ⟨i, hi, rfl⟩ := List.mem_map.1 hk
    obtain ⟨c, hc, hsame⟩ := List.any_eq_true.1 (h i (List.mem_range.1 hi))
    unfold Scalar.same at hsame
    rw [Bool.and_eq_true, beq_iff_eq] at hsame
    rw [hsame.1]
    exact List.mem_map_of_mem hc
  simpa using (List.subperm_of_subset hnodup hsubset).length_le

theorem firstFree_free (hn : labels.length < n) (start : Nat) :
    (suffixed l (firstFree (fun c => c.isIn labels) l n start)).isIn labels = false := by
  refine (firstFree_search (fun c => c.isIn labels) l n start).resolve_right fun h => ?_
  exact Nat.not_le.2 hn (attempts_le h)

/-! What is handed out is remembered, and was not handed out before. -/

theorem seen_next (all : List Label) (m : Memo) (l : Label) :
    (next all m l).1.seen = (next all m l).2 :: m.seen := by
  unfold next
  split <;> rfl

theorem next_new (all : List Label) (m : Memo) (l : Label) :
    (next all m l).2.isIn m.seen = false := by
  unfold next
  split
  · have hlength : (m.seen ++ all).length < m.seen.length + all.length + 1 := by
      rw [List.length_append]
      exact Nat.lt_succ_self _
    have hfree := firstFree_free (l := l) hlength (m.count l + 1)
    simp only [isIn_append, Bool.or_eq_false_iff] at hfree
    exact hfree.1
  · next h => exact Bool.eq_false_iff.2 h

theorem exists_text (h : l.isText = true) : ∃ s, l = .text s := by
  cases l with
  | text s => exact ⟨s, rfl⟩
  | _ => cases h

theorem isText_next (all : List Label) (m : Memo) (hl : l.isText = true) :
    (next all m l).2.isText = true := by
  unfold next
  split
  · rfl
  · exact hl

theorem length_uniqueFrom (all : List Label) (m : Memo) (labels : List Label) :
    (uniqueFrom all m labels).length = labels.length := by
  induction labels generalizing m with
  | nil => rfl
  | cons l rest ih => rw [uniqueFrom, List.length_cons, List.length_cons, ih]

theorem uniqueFrom_new (all : List Label) (m : Memo) (labels : List Label) :
    (uniqueFrom all m labels).Pairwise (fun a b => a.same b = false) ∧
      ∀ c ∈ uniqueFrom all m labels, c.isIn m.seen = false := by
  induction labels generalizing m with
  | nil => exact ⟨.nil, by simp [uniqueFrom]⟩
  | cons l rest ih =>
    obtain ⟨hpairwise, hnew⟩ := ih (next all m l).1
    have hrest : ∀ c ∈ uniqueFrom all (next all m l).1 rest,
        c.same (next all m l).2 = false ∧ c.isIn m.seen = false := by
      intro c hc
      have hseen := hnew c hc
      rw [seen_next] at hseen
      unfold Scalar.isIn at hseen ⊢
      rwa [List.any_cons, Bool.or_eq_false_iff] at hseen
    refine ⟨.cons (fun c hc => ?_) hpairwise, fun c hc => ?_⟩
    · rw [Scalar.same_comm]
      exact (hrest c hc).1
    · rcases List.mem_cons.1 hc with rfl | hc
      · exact next_new all m l
      · exact (hrest c hc).2

theorem isText_uniqueFrom (all : List Label) (m : Memo) (h : ∀ l ∈ labels, l.isText = true) :
    ∀ c ∈ uniqueFrom all m labels, c.isText = true := by
  induction labels generalizing m with
  | nil => simp [uniqueFrom]
  | cons l rest ih =>
    intro c hc
    rcases List.mem_cons.1 hc with rfl | hc
    · exact isText_next all m (h l (by simp))
    · exact ih (next all m l).1 (fun k hk => h k (by simp [hk])) c hc

theorem length_makeUnique (labels : List Label) : (makeUnique labels).length = labels.length :=
  length_uniqueFrom _ _ _

theorem makeUnique_pairwise (labels : List Label) :
    (makeUnique labels).Pairwise fun a b => a.same b = false :=
  (uniqueFrom_new _ _ _).1

theorem same_self_of_isText (h : l.isText = true) : l.same l = true := by
  obtain ⟨s, rfl⟩ := exists_text h
  simp [Scalar.same, Key.isReal, Scalar.key, Scalar.atoms]

theorem isText_makeUnique (h : ∀ l ∈ labels, l.isText = true) :
    ∀ c ∈ makeUnique labels, c.isText = true :=
  isText_uniqueFrom labels _ h

theorem nodup_makeUnique (h : ∀ l ∈ labels, l.isText = true) : (makeUnique labels).Nodup := by
  refine (makeUnique_pairwise labels).imp_of_mem fun {a b} ha _ hab heq => ?_
  rw [← heq, same_self_of_isText (isText_makeUnique h a ha)] at hab
  cases hab

theorem length_unified (labels : List Label) : (unified labels).length = labels.length := by
  unfold unified unifiedNumbers
  dsimp only
  split
  · split
    · rfl
    · split
      · exact List.length_map _
      · rfl
  · exact List.length_map _

theorem length_joined (labels : List Label) : (joined labels).length = labels.length := by
  unfold joined
  split
  · exact length_unified labels
  · rfl

/-- Texts are put side by side as they are. -/
theorem joined_of_texts (h : ∀ l ∈ labels, l.isText = true) : joined labels = labels := by
  unfold joined
  cases labels with
  | nil => rfl
  | cons l rest =>
    obtain ⟨s, rfl⟩ := exists_text (h l (by simp))
    simp [Label.isNumber]

theorem unified_of_texts (h : ∀ l ∈ labels, l.isText = true) : unified labels = labels := by
  cases labels with
  | nil => rfl
  | cons l rest =>
    have hkind : (l.isNumber || l.isMissing) = false := by
      obtain ⟨s, rfl⟩ := exists_text (h l (by simp))
      rfl
    unfold unified
    rw [List.all_cons, hkind, Bool.false_and, if_neg Bool.false_ne_true]
    refine (List.map_congr_left fun c hc => ?_).trans (List.map_id _)
    obtain ⟨s, rfl⟩ := exists_text (h c hc)
    simp [Scalar.isNotANumber, Label.isNull]

end Labels
end ColumnFlow
