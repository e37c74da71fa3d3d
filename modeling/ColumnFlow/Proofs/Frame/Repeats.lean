import ColumnFlow.Proofs.Frame.Numbering
import Mathlib

/-!
# Lists with repeats

`Renames` tries numbers for a repeat until one is free, however long that takes. It always comes to
an end, and with the labels of `makeUnique`: every first occurrence as it was, and every repeat as
its text with a number, which makes it a label that the list did not have. Among texts, the repeats
of a label take the free numbers from the least on.
-/
namespace ColumnFlow.Labels

variable {l x : Label} {all before labels out : List Label} {m : Memo} {taken : Label → Bool}
  {start k : Nat}

/-! The search for a number, and the renaming, with as many attempts as it takes. -/

/-- The numbers from `start` on are tried, and `k` is the first that is not taken. -/
inductive Tries (taken : Label → Bool) (l : Label) : Nat → Nat → Prop
  | free {k : Nat} : taken (suffixed l k) = false → Tries taken l k k
  | next {start k : Nat} : taken (suffixed l start) = true → Tries taken l (start + 1) k →
      Tries taken l start k

/-- Some labels of a list become others, one after the other: a repeat takes the first number that
makes it neither a label of the list nor one that was handed out. -/
inductive Renames (all : List Label) : Memo → List Label → List Label → Prop
  | nil (m : Memo) : Renames all m [] []
  | first {m : Memo} {l : Label} {rest out : List Label} : l.isIn m.seen = false →
      Renames all ⟨l :: m.seen, m.counts⟩ rest out → Renames all m (l :: rest) (l :: out)
  | again {m : Memo} {l : Label} {k : Nat} {rest out : List Label} : l.isIn m.seen = true →
      Tries (fun c => c.isIn m.seen || c.isIn all) l (m.count l + 1) k →
      Renames all ⟨suffixed l k :: m.seen, (l, k) :: m.counts⟩ rest out →
      Renames all m (l :: rest) (suffixed l k :: out)

theorem Tries.unique {k' : Nat} (h : Tries taken l start k) (h' : Tries taken l start k') :
    k = k' := by
  induction h with
  | free hfree =>
    cases h' with
    | free => rfl
    | next htaken => cases hfree.symm.trans htaken
  | next htaken _ ih =>
    cases h' with
    | free hfree => cases hfree.symm.trans htaken
    | next _ h' => exact ih h'

theorem tries_of_least (hfree : taken (suffixed l k) = false) (hstart : start ≤ k)
    (hbetween : ∀ i, start ≤ i → i < k → taken (suffixed l i) = true) :
    Tries taken l start k := by
  obtain ⟨d, rfl⟩ := Nat.exists_eq_add_of_le hstart
  induction d generalizing start with
  | zero => exact .free hfree
  | succ d ih =>
    have hnext : start + (d + 1) = start + 1 + d := by omega
    rw [hnext] at hfree hbetween ⊢
    exact .next (hbetween start (Nat.le_refl _) (by omega))
      (ih hfree (by omega) fun i hlow => hbetween i (by omega))

/-- The bounded search for a repeat finds what is found without a bound. -/
theorem next_tries (all : List Label) (hseen : l.isIn m.seen = true) :
    ∃ k, next all m l = (⟨suffixed l k :: m.seen, (l, k) :: m.counts⟩, suffixed l k) ∧
      Tries (fun c => c.isIn m.seen || c.isIn all) l (m.count l + 1) k := by
  obtain ⟨k, hnext, hlow, hfree, hbetween⟩ := next_repeat all hseen
  have hnew := next_new all m l
  rw [hnext] at hnew
  refine ⟨k, hnext, tries_of_least ?_ hlow fun i hilow hihigh => ?_⟩
  · exact Bool.or_eq_false_iff.2 ⟨hnew, Bool.eq_false_iff.2 (mt isIn_suffixed_iff.1 hfree)⟩
  · rw [Bool.or_eq_true, isIn_suffixed_iff, isIn_suffixed_iff]
    exact hbetween i hilow hihigh

theorem renames_uniqueFrom (all : List Label) (m : Memo) (labels : List Label) :
    Renames all m labels (uniqueFrom all m labels) := by
  induction labels generalizing m with
  | nil => exact .nil m
  | cons l rest ih =>
    rw [uniqueFrom]
    by_cases hseen : l.isIn m.seen = true
    · obtain ⟨k, hnext, htries⟩ := next_tries all hseen
      rw [hnext]
      exact .again hseen htries (ih _)
    · rw [next_first hseen]
      exact .first (Bool.eq_false_iff.2 hseen) (ih _)

theorem Renames.unique {out' : List Label} (h : Renames all m labels out)
    (h' : Renames all m labels out') : out = out' := by
  induction h generalizing out' with
  | nil =>
    cases h'
    rfl
  | first hnew _ ih =>
    cases h' with
    | first _ hrest => rw [ih hrest]
    | again hseen => cases hnew.symm.trans hseen
  | again hseen htries _ ih =>
    cases h' with
    | first hnew => cases hnew.symm.trans hseen
    | again _ htries' hrest =>
      obtain rfl := htries.unique htries'
      rw [ih hrest]

theorem renames_iff : Renames all m labels out ↔ out = uniqueFrom all m labels := by
  constructor
  · exact fun h => h.unique (renames_uniqueFrom all m labels)
  · rintro rfl
    exact renames_uniqueFrom all m labels

/-! Which occurrences are repeats. -/

/-- Of the labels of a list, those have been handed out that came before. -/
def Memo.Follows (m : Memo) (all before : List Label) : Prop :=
  ∀ l ∈ all, l.isIn m.seen = l.isIn before

theorem isIn_cons (l x : Label) (labels : List Label) :
    l.isIn (x :: labels) = (l.same x || l.isIn labels) := List.any_cons

/-- What is handed out for a repeat is no label of the list, so it makes no other label a repeat. -/
theorem Memo.Follows.next (h : m.Follows all before) (x : Label) :
    (next all m x).1.Follows all (before ++ [x]) := by
  intro l hl
  rw [isIn_append, isIn_cons, ← h l hl]
  by_cases hseen : x.isIn m.seen = true
  · obtain ⟨k, hnext, -, hfree, -⟩ := next_repeat all hseen
    have hnot : l.same (suffixed x k) = false := by
      rw [Scalar.same_comm, ← Bool.not_eq_true]
      exact fun hsame => hfree (isIn_suffixed_iff.1 (List.any_eq_true.2 ⟨l, hl, hsame⟩))
    have hold : l.same x = true → l.isIn m.seen = true := by
      intro hsame
      rw [← hseen]
      exact congrArg (m.seen.any ·) (funext (Scalar.same_of_same hsame))
    rw [hnext]
    dsimp only
    rw [isIn_cons, hnot, Bool.false_or]
    cases hsame : l.same x with
    | false => rw [Bool.false_or, Scalar.isIn, Scalar.isIn, List.any_nil, Bool.or_false]
    | true => rw [Bool.true_or, Bool.or_true, hold hsame]
  · rw [next_first hseen]
    dsimp only
    rw [isIn_cons, Bool.or_comm, Scalar.isIn, Scalar.isIn, List.any_nil, Bool.or_false]

theorem getElem?_uniqueFrom (h : m.Follows all before) (hlabels : ∀ x ∈ labels, x ∈ all)
    {i : Nat} (hi : labels[i]? = some l) :
    (l.isIn (before ++ labels.take i) = false → (uniqueFrom all m labels)[i]? = some l) ∧
      (l.isIn (before ++ labels.take i) = true → ∃ k, 1 ≤ k ∧
        (uniqueFrom all m labels)[i]? = some (suffixed l k) ∧ suffixed l k ∉ all) := by
  -- What was passed goes over to `before`, until the label itself is the next.
  induction labels generalizing m before i with
  | nil => cases hi
  | cons x rest ih =>
    have hx := hlabels x List.mem_cons_self
    rw [uniqueFrom]
    cases i with
    | succ i =>
      have hrest := ih (h.next x) (fun y hy => hlabels y (List.mem_cons_of_mem _ hy)) hi
      rwa [List.append_assoc] at hrest
    | zero =>
      obtain rfl : x = l := Option.some.inj hi
      rw [List.take_zero, List.append_nil, ← h x hx, List.getElem?_cons_zero]
      constructor
      · intro hnew
        rw [next_first (Bool.eq_false_iff.1 hnew)]
      · intro hseen
        obtain ⟨k, hnext, hlow, hfree, -⟩ := next_repeat all hseen
        exact ⟨k, by omega, by rw [hnext], hfree⟩

theorem getElem?_makeUnique {i : Nat} (hi : labels[i]? = some l) :
    (l.isIn (labels.take i) = false → (makeUnique labels)[i]? = some l) ∧
      (l.isIn (labels.take i) = true → ∃ k, 1 ≤ k ∧
        (makeUnique labels)[i]? = some (suffixed l k) ∧ suffixed l k ∉ labels) :=
  getElem?_uniqueFrom (m := ⟨[], []⟩) (fun _ _ => rfl) (fun _ hx => hx) hi

theorem isIn_take_of_pairwise (h : labels.Pairwise fun a b => a.same b = false) {i : Nat}
    (hi : labels[i]? = some l) : l.isIn (labels.take i) = false := by
  obtain ⟨hlt, rfl⟩ := List.getElem?_eq_some_iff.1 hi
  refine List.any_eq_false.2 fun x hx => ?_
  obtain ⟨j, hj, rfl⟩ := List.mem_take_iff_getElem.1 hx
  rw [Scalar.same_comm, Bool.not_eq_true]
  exact List.pairwise_iff_getElem.1 h j i _ hlt (by omega)

theorem makeUnique_eq_self_iff :
    makeUnique labels = labels ↔ labels.Pairwise fun a b => a.same b = false := by
  constructor
  · intro h
    rw [← h]
    exact makeUnique_pairwise labels
  · intro h
    refine List.ext_getElem? fun i => ?_
    cases hi : labels[i]? with
    | none =>
      rw [List.getElem?_eq_none_iff] at hi ⊢
      rwa [length_makeUnique]
    | some l => exact (getElem?_makeUnique hi).1 (isIn_take_of_pairwise h hi)

/-- Labels are made distinct. The renaming ends, however the labels are mixed, with as many labels
as there were, no two of them the same. The first occurrence of a label is as it was, in its place;
any other becomes the text of the label with a number from one on, and this is no label of the list,
wherever it might stand. So a list is left as it is if and only if its labels are distinct, and
nothing changes when this is done again. -/
theorem makeUnique_separates (labels : List Label) :
    (∀ out, Renames labels ⟨[], []⟩ labels out ↔ out = makeUnique labels) ∧
    (makeUnique labels).length = labels.length ∧
    (makeUnique labels).Pairwise (fun a b => a.same b = false) ∧
    (∀ (i : Nat) (l : Label), labels[i]? = some l →
      (l.isIn (labels.take i) = false → (makeUnique labels)[i]? = some l) ∧
      (l.isIn (labels.take i) = true → ∃ k, 1 ≤ k ∧
        (makeUnique labels)[i]? = some (.text (l.plain ++ "_" ++ toString k)) ∧
        Scalar.isIn (.text (l.plain ++ "_" ++ toString k)) labels = false)) ∧
    (makeUnique labels = labels ↔ labels.Pairwise fun a b => a.same b = false) ∧
    makeUnique (makeUnique labels) = makeUnique labels := by
  refine ⟨fun out => renames_iff, length_makeUnique labels, makeUnique_pairwise labels,
    fun i l hi => ?_, makeUnique_eq_self_iff, makeUnique_eq_self_iff.2 (makeUnique_pairwise labels)⟩
  obtain ⟨hfirst, hagain⟩ := getElem?_makeUnique hi
  refine ⟨hfirst, fun hseen => ?_⟩
  obtain ⟨k, hk, hout, hfree⟩ := hagain hseen
  exact ⟨k, hk, hout, Bool.eq_false_iff.2 (mt isIn_suffixed_iff.1 hfree)⟩

/-- A number that is a truth value as well, and texts that are like other labels. -/
theorem makeUnique_separates_mixed :
    Renames [.int 1, .bool true, .text "1", .text "1", .text "1_1", .null] ⟨[], []⟩
      [.int 1, .bool true, .text "1", .text "1", .text "1_1", .null]
      [.int 1, .text "True_1", .text "1", .text "1_2", .text "1_1", .null] :=
  ((makeUnique_separates _).1 _).2 (by cbv)

/-! Which number a repeat gets. -/

/-- A number from one on that makes no label of the list. -/
def IsSpare (all : List Label) (l : Label) (k : Nat) : Prop := 0 < k ∧ suffixed l k ∉ all

theorem strictMono_spare (all : List Label) (l : Label) : StrictMono (spare all l) :=
  strictMono_nat_of_lt_succ (spare_lt all l)

/-- Every spare number has its turn. -/
theorem exists_spare (hk : IsSpare all l k) : ∃ j, spare all l (j + 1) = k := by
  have hreach : ∃ j, k ≤ spare all l j := ⟨k, (strictMono_spare all l).id_le k⟩
  obtain ⟨j, hj⟩ : ∃ j, Nat.find hreach = j + 1 := by
    refine Nat.exists_eq_succ_of_ne_zero fun hzero => ?_
    have hk' := hzero ▸ Nat.find_spec hreach
    exact Nat.not_le.2 hk.1 hk'
  refine ⟨j, (hj ▸ Nat.find_spec hreach).antisymm' (Nat.not_lt.1 fun hhigh => ?_)⟩
  have hlow : spare all l j < k := Nat.not_le.1 (Nat.find_min hreach (by omega))
  exact hk.2 (mem_of_between hlow hhigh)

theorem range_spare (all : List Label) (l : Label) :
    Set.range (fun j => spare all l (j + 1)) = {k | IsSpare all l k} := by
  ext k
  constructor
  · rintro ⟨j, rfl⟩
    exact ⟨Nat.zero_lt_of_lt (spare_lt all l j), spare_free all l j⟩
  · exact exists_spare

theorem strictMono_spare_succ (all : List Label) (l : Label) :
    StrictMono fun j => spare all l (j + 1) := fun _ _ hij =>
  strictMono_spare all l (Nat.succ_lt_succ hij)

theorem infinite_isSpare (all : List Label) (l : Label) : {k | IsSpare all l k}.Infinite := by
  rw [← range_spare]
  exact Set.infinite_range_of_injective (strictMono_spare_succ all l).injective

/-- The search that goes on from the last number comes to the next one in the order of size. -/
theorem nth_isSpare (all : List Label) (l : Label) (j : Nat) :
    Nat.nth (IsSpare all l) j = spare all l (j + 1) := by
  have hinf := infinite_isSpare all l
  have hrange := (Nat.range_nth_of_infinite hinf).trans (range_spare all l).symm
  exact congrFun
    (((Nat.nth_strictMono hinf).range_inj (strictMono_spare_succ all l)).1 hrange) j

theorem uniqueFrom_given {c i : Nat} (hl : l.isText = true) (hmem : l ∈ all)
    (hlabels : ∀ x ∈ labels, x ∈ all) (halone : ∀ x ∈ all, x.plain = l.plain → x = l)
    (h : m.Knows all l c) (hi : labels[i]? = some l) :
    (uniqueFrom all m labels)[i]? = some (given all l (c + (labels.take i).countP l.same)) := by
  -- `c` counts the occurrences that the induction has passed.
  induction labels generalizing m c i with
  | nil => cases hi
  | cons x rest ih =>
    have hrest : ∀ y ∈ rest, y ∈ all := fun y hy => hlabels y (List.mem_cons_of_mem _ hy)
    rw [uniqueFrom]
    cases i with
    | zero =>
      obtain rfl : x = l := Option.some.inj hi
      rw [List.getElem?_cons_zero, (next_of_knows hl hmem h).1]
      rfl
    | succ i =>
      rw [List.getElem?_cons_succ, List.take_succ_cons, List.countP_cons]
      by_cases hx : x = l
      · subst hx
        rw [ih hrest (next_of_knows hl hmem h).2 hi, same_self_of_isText hl, if_pos rfl,
          Nat.add_right_comm, Nat.add_assoc]
      · have hsame : ¬ l.same x = true := by
          rw [Scalar.same_comm]
          exact mt (same_iff hl).1 hx
        have hxmem := hlabels x List.mem_cons_self
        rw [ih hrest (next_of_ne hl hmem hxmem hx (halone x hxmem) h) hi, if_neg hsame]
        rfl

section Texts

variable {texts texts' : List String} {c : String}

theorem makeUnique_given {i : Nat} (hi : texts[i]? = some c) :
    (makeUnique (texts.map .text))[i]? =
      some (given (texts.map .text) (.text c) ((texts.take i).count c)) := by
  have hl : (texts.map Scalar.text)[i]? = some (.text c) := by
    rw [List.getElem?_map, hi]
    rfl
  have htexts : ∀ x ∈ texts.map Scalar.text, Label.isText x = true := by
    intro x hx
    obtain ⟨t, -, rfl⟩ := List.mem_map.1 hx
    rfl
  have hgiven := uniqueFrom_given rfl (List.mem_of_getElem? hl) (fun _ hx => hx)
    (fun x hx => plain_inj (htexts x hx) rfl) (Memo.knows_nothing _ _) hl
  rwa [← List.map_take, countP_map_eq_count fun _ => same_texts_iff, Nat.zero_add] at hgiven

/-- The repeats of a text take the numbers that make no text of the list, from the least on, and
there are enough of them. So what a repeat is called hangs on the texts that there are and on how
often it stood before, not on the order of the other texts, nor on how often they stand there. -/
theorem makeUnique_numbers (texts : List String) (c : String) :
    {k | IsSpare (texts.map .text) (.text c) k}.Infinite ∧
    (∀ i j, texts[i]? = some c → (texts.take i).count c = j + 1 →
      (makeUnique (texts.map .text))[i]? =
        some (.text (c ++ "_" ++ toString (Nat.nth (IsSpare (texts.map .text) (.text c)) j)))) ∧
    ∀ (texts' : List String) (i i' : Nat), (∀ t, t ∈ texts' ↔ t ∈ texts) →
      texts[i]? = some c → texts'[i']? = some c →
        (texts.take i).count c = (texts'.take i').count c →
          (makeUnique (texts.map .text))[i]? = (makeUnique (texts'.map .text))[i']? := by
  have hnumber : ∀ (texts : List String) i j, texts[i]? = some c → (texts.take i).count c = j + 1 →
      (makeUnique (texts.map .text))[i]? =
        some (.text (c ++ "_" ++ toString (Nat.nth (IsSpare (texts.map .text) (.text c)) j))) := by
    intro texts i j hi hj
    rw [makeUnique_given hi, hj, given, ← nth_isSpare]
    rfl
  refine ⟨infinite_isSpare _ _, hnumber texts, ?_⟩
  intro texts' i i' hsame hi hi' hcount
  have hspare : IsSpare (texts'.map .text) (.text c) = IsSpare (texts.map .text) (.text c) := by
    funext k
    refine propext (and_congr_right fun _ => not_congr ?_)
    simp only [List.mem_map, hsame]
  cases hj : (texts.take i).count c with
  | zero => rw [makeUnique_given hi, makeUnique_given hi', ← hcount, hj, given, given]
  | succ j => rw [hnumber texts i j hi hj, hnumber texts' i' j hi' (hcount ▸ hj), hspare]

/-- The first number is taken by a label that stands in between, or before. -/
theorem makeUnique_numbers_taken :
    Nat.nth (IsSpare (["a", "a_1", "a"].map .text) (.text "a")) 0 = 2 ∧
      (makeUnique (["a", "a_1", "a"].map .text))[2]? =
        (makeUnique (["a_1", "a_1", "a", "a"].map .text))[3]? := by
  obtain ⟨-, hnumber, horder⟩ := makeUnique_numbers ["a", "a_1", "a"] "a"
  have hsecond : (makeUnique (["a", "a_1", "a"].map .text))[2]? =
      some (suffixed (.text "a") 2) := by cbv
  have hnamed := (hnumber 2 0 rfl rfl).symm.trans hsecond
  exact ⟨(suffixed_inj (l := .text "a") (x := .text "a") (Option.some.inj hnamed)).2,
    horder _ 2 3 (by simp) rfl rfl rfl⟩

end Texts
end ColumnFlow.Labels
