import ColumnFlow.Proofs.Frame.Labels
import Mathlib.Data.List.Basic

/-!
# Which repeat gets which label

The repeats of a label are numbered by the numbers that are free from the start, in increasing
order: the labels of the list are taken, and no label takes a number of another one, because a text
with a number after it tells the text and the number. So what the repeats of a label are called
depends on which labels the list holds and not on the order in which it holds the others.
-/
namespace ColumnFlow.Labels

variable {l x : Label} {all all' : List Label} {m : Memo} {k n start c : Nat}

/-! Texts as labels. -/

theorem key_eq_iff (h : l.isText = true) : x.key = l.key ↔ x = l := by
  refine ⟨fun hkey => ?_, fun heq => by rw [heq]⟩
  obtain ⟨s, rfl⟩ := exists_text h
  have hatoms : Scalar.atoms x = [.text s] := congrArg Key.atoms hkey
  cases x <;> simp [Scalar.atoms] at hatoms
  rw [hatoms]

theorem same_iff (h : l.isText = true) : x.same l = true ↔ x = l := by
  refine ⟨fun hsame => ?_, fun heq => by rw [heq, same_self_of_isText h]⟩
  exact (key_eq_iff h).1 (beq_iff_eq.1 (Bool.and_eq_true_iff.1 hsame).1)

theorem same_texts_iff {s t : String} : Scalar.same (.text s) (.text t) = true ↔ s = t := by
  rw [same_iff rfl, Scalar.text.injEq]

/-- Copies are counted by what is the same as one of them. -/
theorem countP_map_eq_count {α β : Type} [DecidableEq α] {f : α → β} {p : β → Bool} {a : α}
    (h : ∀ b, p (f b) = true ↔ a = b) (items : List α) :
    (items.map f).countP p = items.count a := by
  rw [List.countP_map, List.count]
  refine List.countP_congr fun b _ => ?_
  rw [Function.comp_apply, h, beq_iff_eq]
  exact eq_comm

theorem isIn_iff (h : l.isText = true) : l.isIn all = true ↔ l ∈ all := by
  unfold Scalar.isIn
  rw [List.any_eq_true]
  constructor
  · rintro ⟨x, hx, hsame⟩
    rw [Scalar.same_comm] at hsame
    rw [← (same_iff h).1 hsame]
    exact hx
  · intro hl
    exact ⟨l, hl, same_self_of_isText h⟩

theorem plain_inj (hl : l.isText = true) (hx : x.isText = true) (h : l.plain = x.plain) :
    l = x := by
  obtain ⟨s, rfl⟩ := exists_text hl
  obtain ⟨t, rfl⟩ := exists_text hx
  exact congrArg Scalar.text h

theorem eq_of_first {c : Char} {p q r s : List Char} (hp : c ∉ p) (hr : c ∉ r)
    (h : p ++ c :: q = r ++ c :: s) : p = r ∧ q = s := by
  induction p generalizing r with
  | nil =>
    cases r with
    | nil => exact ⟨rfl, List.tail_eq_of_cons_eq h⟩
    | cons d r =>
      have hhead : c = d := List.head_eq_of_cons_eq h
      exact absurd (hhead ▸ List.mem_cons_self) hr
  | cons d p ih =>
    cases r with
    | nil =>
      have hhead : d = c := List.head_eq_of_cons_eq h
      exact absurd (hhead ▸ List.mem_cons_self) hp
    | cons e r =>
      obtain ⟨rfl, htail⟩ := List.cons_eq_cons.1 h
      obtain ⟨rfl, hrest⟩ := ih (fun hc => hp (List.mem_cons_of_mem _ hc))
        (fun hc => hr (List.mem_cons_of_mem _ hc)) htail
      exact ⟨rfl, hrest⟩

/-- A text with a number after it tells both: digits come last, so the last low line is the one
before the number. -/
theorem suffixed_inj {i j : Nat} (h : suffixed l i = suffixed x j) : l.plain = x.plain ∧ i = j := by
  have htext : l.plain ++ "_" ++ i.repr = x.plain ++ "_" ++ j.repr := Scalar.text.inj h
  have hchars := congrArg (fun s => s.toList.reverse) htext
  simp only [String.toList_append, Nat.toList_repr, List.reverse_append, List.append_assoc]
    at hchars
  have hdigits : ∀ n, '_' ∉ (Nat.toDigits 10 n).reverse := fun n hn =>
    Nat.underscore_not_in_toDigits (List.mem_reverse.1 hn)
  obtain ⟨hnumber, hname⟩ := eq_of_first (hdigits i) (hdigits j) hchars
  constructor
  · exact String.toList_injective (List.reverse_injective hname)
  · have hsame := List.reverse_injective hnumber
    rw [← Nat.ofDigitChars_ten_toDigits (n := i), hsame, Nat.ofDigitChars_ten_toDigits]

/-! The numbers that are free. -/

theorem le_firstFree (taken : Label → Bool) (l : Label) (n start : Nat) :
    start ≤ firstFree taken l n start := by
  induction n generalizing start with
  | zero => exact Nat.le_refl _
  | succ n ih =>
    unfold firstFree
    split
    · have hnext := ih (start + 1)
      omega
    · exact Nat.le_refl _

theorem taken_of_lt_firstFree {taken : Label → Bool} {i : Nat} (hstart : start ≤ i)
    (hi : i < firstFree taken l n start) : taken (suffixed l i) = true := by
  induction n generalizing start with
  | zero =>
    unfold firstFree at hi
    omega
  | succ n ih =>
    unfold firstFree at hi
    split at hi
    case isTrue htaken =>
      by_cases heq : i = start
      · rw [heq]
        exact htaken
      · exact ih (by omega) hi
    case isFalse => omega

/-- The `k`-th number that is free for a label, counted from one; zero is no number. -/
def spare (all : List Label) (l : Label) : Nat → Nat
  | 0 => 0
  | k + 1 => firstFree (fun c => c.isIn all) l (all.length + 1) (spare all l k + 1)

theorem isIn_suffixed_iff : (suffixed l n).isIn all = true ↔ suffixed l n ∈ all := isIn_iff rfl

theorem spare_free (all : List Label) (l : Label) (k : Nat) :
    suffixed l (spare all l (k + 1)) ∉ all := by
  rw [← isIn_suffixed_iff, Bool.not_eq_true]
  exact firstFree_free (Nat.lt_succ_self _) _

theorem spare_lt (all : List Label) (l : Label) (k : Nat) : spare all l k < spare all l (k + 1) :=
  le_firstFree _ l _ _

theorem mem_of_between (hlow : spare all l k < n) (hhigh : n < spare all l (k + 1)) :
    suffixed l n ∈ all :=
  isIn_suffixed_iff.1 (taken_of_lt_firstFree hlow hhigh)

theorem eq_spare (hlow : spare all l k < n) (hfree : suffixed l n ∉ all)
    (hbetween : ∀ i, spare all l k < i → i < n → suffixed l i ∈ all) :
    n = spare all l (k + 1) := by
  rcases Nat.lt_trichotomy n (spare all l (k + 1)) with hlt | heq | hgt
  · exact absurd (mem_of_between hlow hlt) hfree
  · exact heq
  · exact absurd (hbetween _ (spare_lt all l k) hgt) (spare_free all l k)

/-- More labels leave the first numbers free if they do not take them. -/
theorem spare_eq (hsub : ∀ c ∈ all, c ∈ all')
    (h : ∀ j < k, suffixed l (spare all l (j + 1)) ∉ all') :
    spare all' l k = spare all l k := by
  induction k with
  | zero => rfl
  | succ k ih =>
    have hbefore := ih fun j hj => h j (Nat.lt_succ_of_lt hj)
    refine (eq_spare ?_ (h k (Nat.lt_succ_self k)) fun i hlow hhigh => ?_).symm
    · rw [hbefore]
      exact spare_lt all l k
    · rw [hbefore] at hlow
      exact hsub _ (mem_of_between hlow hhigh)

/-- What the occurrence of a label is called that has `k` before it. -/
def given (all : List Label) (l : Label) : Nat → Label
  | 0 => l
  | k + 1 => suffixed l (spare all l (k + 1))

theorem isText_given (hl : l.isText = true) (k : Nat) : (given all l k).isText = true := by
  cases k with
  | zero => exact hl
  | succ k => rfl

/-! What is remembered of one label. -/

/-- After `c` occurrences of `l`, its last number is remembered, and no later number of it has been
handed out. -/
structure Memo.Knows (m : Memo) (all : List Label) (l : Label) (c : Nat) : Prop where
  seen : l ∈ m.seen ↔ 0 < c
  count : m.count l = spare all l (c - 1)
  later : ∀ n, m.count l < n → suffixed l n ∈ m.seen → suffixed l n ∈ all

theorem Memo.knows_nothing (all : List Label) (l : Label) : Memo.Knows ⟨[], []⟩ all l 0 :=
  ⟨by simp, rfl, fun _ _ h => nomatch h⟩

theorem Memo.count_cons {m : Memo} {seen : List Label} :
    Memo.count ⟨seen, (x, k) :: m.counts⟩ l = if x.same l then k else m.count l := by
  unfold Memo.count
  rw [List.find?_cons]
  cases x.same l <;> rfl

/-- A repeat takes the first number after its last one that is neither handed out nor a label. -/
theorem next_repeat (all : List Label) (hseen : l.isIn m.seen = true) :
    ∃ k, next all m l = (⟨suffixed l k :: m.seen, (l, k) :: m.counts⟩, suffixed l k) ∧
      m.count l < k ∧ suffixed l k ∉ all ∧
      ∀ i, m.count l < i → i < k → suffixed l i ∈ m.seen ∨ suffixed l i ∈ all := by
  have htaken : ∀ c : Label, (c.isIn m.seen || c.isIn all) = c.isIn (m.seen ++ all) := fun c =>
    (isIn_append c m.seen all).symm
  have hlength : (m.seen ++ all).length < m.seen.length + all.length + 1 := by
    rw [List.length_append]
    exact Nat.lt_succ_self _
  have hfree := firstFree_free (l := l) hlength (m.count l + 1)
  rw [isIn_append, Bool.or_eq_false_iff, ← Bool.not_eq_true, ← Bool.not_eq_true,
    isIn_suffixed_iff, isIn_suffixed_iff] at hfree
  refine ⟨_, ?_, le_firstFree _ l (m.seen.length + all.length + 1) (m.count l + 1), hfree.2,
    fun i hlow hhigh => ?_⟩
  · unfold next
    rw [if_pos hseen]
    simp only [htaken]
  · have hi := taken_of_lt_firstFree hlow hhigh
    rwa [isIn_append, Bool.or_eq_true, isIn_suffixed_iff, isIn_suffixed_iff] at hi

theorem next_first (hseen : ¬ l.isIn m.seen = true) :
    next all m l = (⟨l :: m.seen, m.counts⟩, l) := by
  unfold next
  rw [if_neg hseen]

theorem next_of_knows (hl : l.isText = true) (hmem : l ∈ all) (h : m.Knows all l c) :
    (next all m l).2 = given all l c ∧ (next all m l).1.Knows all l (c + 1) := by
  by_cases hseen : l.isIn m.seen = true
  · obtain ⟨k, hnext, hlow, hfree, hbetween⟩ := next_repeat all hseen
    obtain ⟨c, rfl⟩ : ∃ d, c = d + 1 :=
      Nat.exists_eq_succ_of_ne_zero (Nat.pos_iff_ne_zero.1 (h.seen.1 ((isIn_iff hl).1 hseen)))
    have hcount : m.count l = spare all l c := h.count
    -- What lies between the last number and `k` is taken from the start: no repeat got it.
    have hk : k = spare all l (c + 1) := by
      refine eq_spare (hcount ▸ hlow) hfree fun i hilow hihigh => ?_
      rw [← hcount] at hilow
      exact (hbetween i hilow hihigh).elim (h.later i hilow) id
    rw [hnext]
    have hold : l ∈ m.seen := (isIn_iff hl).1 hseen
    refine ⟨by rw [hk]; rfl, ⟨by simp [hold], ?_, fun n hn hmemn => ?_⟩⟩
    · rw [Memo.count_cons, same_self_of_isText hl]
      exact hk
    · rw [Memo.count_cons, same_self_of_isText hl, if_pos rfl] at hn
      rcases List.mem_cons.1 hmemn with heq | hold
      · exact absurd (suffixed_inj heq).2 (Nat.ne_of_gt hn)
      · exact h.later n (Nat.lt_trans hlow hn) hold
  · have hc : c = 0 := by
      have hnot := mt h.seen.2 (mt (isIn_iff hl).2 hseen)
      omega
    subst hc
    rw [next_first hseen]
    refine ⟨rfl, ⟨by simp, h.count, fun n hn hmemn => ?_⟩⟩
    rcases List.mem_cons.1 hmemn with heq | hold
    · rw [heq]
      exact hmem
    · exact h.later n hn hold

theorem next_of_ne (hl : l.isText = true) (hmem : l ∈ all) (hx : x ∈ all) (hne : x ≠ l)
    (halone : x.plain = l.plain → x = l) (h : m.Knows all l c) :
    (next all m x).1.Knows all l c := by
  have hsame : x.same l = false := Bool.eq_false_iff.2 (mt (same_iff hl).1 hne)
  by_cases hseen : x.isIn m.seen = true
  · obtain ⟨k, hnext, -, hfree, -⟩ := next_repeat all hseen
    have hnot : l ≠ suffixed x k := fun heq => hfree (heq ▸ hmem)
    have hcount : Memo.count ⟨suffixed x k :: m.seen, (x, k) :: m.counts⟩ l = m.count l := by
      rw [Memo.count_cons, hsame]
      rfl
    rw [hnext]
    refine ⟨by simp [hnot, h.seen], hcount.trans h.count, fun n hn hmemn => ?_⟩
    rw [hcount] at hn
    rcases List.mem_cons.1 hmemn with heq | hold
    · exact absurd (halone (suffixed_inj heq).1.symm) hne
    · exact h.later n hn hold
  · rw [next_first hseen]
    refine ⟨by simp [Ne.symm hne, h.seen], h.count, fun n hn hmemn => ?_⟩
    rcases List.mem_cons.1 hmemn with heq | hold
    · rw [heq]
      exact hx
    · exact h.later n hn hold

end ColumnFlow.Labels
