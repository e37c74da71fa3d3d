import ColumnFlow.Draw.Choice
import ColumnFlow.Proofs.Split.Slices
import Mathlib.Data.Int.CardIntervalMod
import Mathlib.Data.List.Count

/-!
# Dealing

Classes that are dealt to slices. In the sorted classes the rows of a class stand side by side, and
every `k`-th place belongs to the same slice, so each slice takes an equal share of the rows, and an
equal share of every class. The rows of a class get the numbers of these slices, in any order.
-/
namespace ColumnFlow.Fold

variable {n k i j c : Nat} {codes : List Nat} {hands : List (List Nat)} {f : Fold}

/-! Places. -/

/-- How many of `m` places from `a` on belong to a slice, if every `k`-th place does. -/
def places (k i a m : Nat) : Nat := (List.range' a m).countP fun p => p % k == i

theorem places_zero (hi : i < k) (n : Nat) : places k i 0 n = sizeOf n k i := by
  have hcount := Nat.count_modEq_card n (Nat.zero_lt_of_lt hi) i
  rw [Nat.mod_eq_of_lt hi] at hcount
  unfold sizeOf
  rw [← hcount, places, Nat.count, List.range_eq_range']
  refine List.countP_congr fun p _ => ?_
  rw [beq_iff_eq, decide_eq_true_eq, Nat.ModEq, Nat.mod_eq_of_lt hi]

theorem places_append (k i a m : Nat) : places k i 0 (a + m) = places k i 0 a + places k i a m := by
  unfold places
  rw [← List.countP_append]
  have hjoin := List.range'_append_1 (s := 0) (m := a) (n := m)
  rw [Nat.zero_add] at hjoin
  rw [hjoin]

theorem places_le (hi : i < k) (hj : j < k) (a m : Nat) : places k i a m ≤ places k j a m + 1 := by
  have hplaces := places_append k i a m
  have hothers := places_append k j a m
  rw [places_zero hi, places_zero hi] at hplaces
  rw [places_zero hj, places_zero hj] at hothers
  unfold sizeOf at hplaces hothers
  split at hplaces <;> split at hplaces <;> split at hothers <;> split at hothers <;> omega

theorem length_everyNth (k i : Nat) {α : Type} (items : List α) :
    (everyNth k i items).length = places k i 0 items.length := by
  unfold everyNth places
  rw [List.length_map, ← List.countP_eq_length_filter, ← List.zipIdx_map_snd 0 items,
    List.countP_map]
  rfl

/-- In a sorted list, equal items stand side by side. -/
theorem count_everyNth {items : List Nat} (hsorted : items.Pairwise (· ≤ ·)) (k i c : Nat) :
    (everyNth k i items).count c = places k i (items.countP (· < c)) (items.count c) := by
  -- places are counted from any offset on, since the tail starts one place later
  suffices h : ∀ o, (items.zipIdx o).countP (fun p => p.1 == c && p.2 % k == i) =
      places k i (o + items.countP (· < c)) (items.count c) by
    have hzero := h 0
    rw [Nat.zero_add] at hzero
    rw [← hzero, everyNth, List.count, List.countP_map, List.countP_filter]
    rfl
  induction items with
  | nil => exact fun _ => rfl
  | cons x items ih =>
    intro o
    obtain ⟨hleast, hsorted⟩ := List.pairwise_cons.1 hsorted
    have htail := ih hsorted (o + 1)
    rw [List.zipIdx_cons, List.countP_cons, htail, List.countP_cons, List.count_cons]
    obtain hlt | rfl | hgt := Nat.lt_trichotomy x c
    · have hne : x ≠ c := Nat.ne_of_lt hlt
      simp only [beq_false_of_ne hne, decide_eq_true hlt, Bool.false_and, Bool.false_eq_true,
        if_true, if_false, Nat.add_zero]
      congr 1
      omega
    · -- nothing that follows is smaller, so this is the first of its kind
      have hnone : items.countP (· < x) = 0 :=
        List.countP_eq_zero.2 fun y hy => by simpa using hleast y hy
      simp only [hnone, places, beq_self_eq_true, Bool.true_and, Nat.lt_irrefl, decide_false,
        Bool.false_eq_true, if_true, if_false, Nat.add_zero, List.range'_succ, List.countP_cons]
    · have hnone : items.count c = 0 :=
        List.count_eq_zero.2 fun h => Nat.not_le.2 hgt (hleast c h)
      have hne : x ≠ c := Nat.ne_of_gt hgt
      simp only [hnone, beq_false_of_ne hne, places, Bool.false_and, Bool.false_eq_true, if_false,
        Nat.add_zero, List.range'_zero, List.countP_nil]

/-! Quotas. -/

def firstPlace (codes : List Nat) (c : Nat) : Nat :=
  (codes.mergeSort fun a b => a ≤ b).countP (· < c)

theorem quota_eq (codes : List Nat) (k i c : Nat) :
    quota codes k i c = places k i (firstPlace codes c) (codes.count c) := by
  have hsorted : (codes.mergeSort fun a b => a ≤ b).Pairwise (· ≤ ·) := by
    have hle : (codes.mergeSort fun a b => a ≤ b).Pairwise fun a b => decide (a ≤ b) = true :=
      List.pairwise_mergeSort (by simpa using fun a b c => Nat.le_trans)
        (by simpa using Nat.le_total) codes
    simpa only [decide_eq_true_eq] using hle
  rw [quota, count_everyNth hsorted, (List.mergeSort_perm codes _).count_eq]
  rfl

theorem quota_le (codes : List Nat) (c : Nat) (hi : i < k) (hj : j < k) :
    quota codes k i c ≤ quota codes k j c + 1 := by
  rw [quota_eq, quota_eq]
  exact places_le hi hj _ _

theorem count_dealt (codes : List Nat) (k c j : Nat) :
    (dealt codes k c).count j = if j < k then quota codes k j c else 0 := by
  suffices h : ∀ m, ((List.range m).flatMap fun i => List.replicate (quota codes k i c) i).count j =
      if j < m then quota codes k j c else 0 from h k
  intro m
  induction m with
  | zero => rfl
  | succ m ih =>
    rw [List.range_succ, List.flatMap_append, List.count_append, ih, List.flatMap_singleton,
      List.count_replicate]
    obtain hlt | rfl | hgt := Nat.lt_trichotomy j m
    · simp [hlt, Nat.lt_succ_of_lt hlt, Nat.ne_of_gt hlt]
    · simp
    · have hlater : ¬ j < m + 1 := by omega
      rw [if_neg (Nat.not_lt_of_gt hgt), if_neg hlater, if_neg (by simpa using Nat.ne_of_lt hgt)]

theorem dealt_perm (hk : 0 < k) (codes : List Nat) (c : Nat) :
    (dealt codes k c).Perm ((List.range' (firstPlace codes c) (codes.count c)).map (· % k)) := by
  refine List.perm_iff_count.2 fun j => ?_
  rw [count_dealt, List.count, List.countP_map]
  split
  · exact quota_eq codes k j c
  · rename_i hj
    refine (List.countP_eq_zero.2 fun p _ => ?_).symm
    have hlt : p % k < k := Nat.mod_lt p hk
    simp only [Function.comp_apply, beq_iff_eq]
    omega

theorem length_dealt (hk : 0 < k) (codes : List Nat) (c : Nat) :
    (dealt codes k c).length = codes.count c := by
  rw [(dealt_perm hk codes c).length_eq, List.length_map, List.length_range']

/-- Whether it is shuffled or not, every class is dealt the same numbers. -/
theorem dealAll_perm (codes : List Nat) (k : Nat) (cs : List Nat) (source : Option Draw.Twister) :
    List.Forall₂ (fun hand c => hand.Perm (dealt codes k c)) (dealAll codes k cs source) cs := by
  fun_induction dealAll codes k cs source with
  | case1 => exact .nil
  | case2 c cs ih => exact .cons (.refl _) ih
  | case3 c cs t numbers t' h ih =>
    refine .cons ?_ ih
    have hshuffled := t.shuffle_perm (dealt codes k c)
    rwa [h] at hshuffled

/-! Hands. -/

/-- Every class has a number for each of its rows. -/
def Suffices (codes : List Nat) (hands : List (List Nat)) : Prop :=
  ∀ c, (hands.getD c []).length = codes.count c

theorem Suffices.exists_hand (h : Suffices (c :: codes) hands) :
    ∃ i hand, hands.getD c [] = i :: hand ∧ ∀ d, (hands.set c hand).getD d [] =
      if c = d then hand else hands.getD d [] := by
  have hlength := h c
  rw [List.count_cons_self] at hlength
  obtain ⟨i, hand, hhand⟩ := List.exists_cons_of_length_eq_add_one hlength
  have hc : c < hands.length := by
    refine Nat.lt_of_not_le fun hle => ?_
    rw [List.getD_eq_getElem?_getD, List.getElem?_eq_none hle] at hhand
    exact absurd hhand (List.cons_ne_nil i hand).symm
  refine ⟨i, hand, hhand, fun d => ?_⟩
  rw [List.getD_eq_getElem?_getD, List.getElem?_set, if_pos hc]
  split
  · rfl
  · rw [List.getD_eq_getElem?_getD]

theorem Suffices.tail (h : Suffices (c :: codes) hands) :
    Suffices codes (hands.set c (hands.getD c []).tail) := by
  obtain ⟨i, hand, hhand, hset⟩ := h.exists_hand
  intro d
  have hd := h d
  rw [hhand, List.tail_cons, hset]
  split
  · rename_i hcd
    subst hcd
    rw [hhand, List.count_cons_self, List.length_cons] at hd
    exact Nat.succ_inj.1 hd
  · rename_i hcd
    rwa [List.count_cons_of_ne hcd] at hd

theorem length_assign (codes : List Nat) (hands : List (List Nat)) :
    (assign codes hands).length = codes.length := by
  induction codes generalizing hands with
  | nil => rfl
  | cons c codes ih => exact congrArg (· + 1) (ih _)

theorem assigned_hand (h : Suffices codes hands) (c : Nat) :
    ((codes.zip (assign codes hands)).filter (·.1 == c)).map Prod.snd = hands.getD c [] := by
  induction codes generalizing hands with
  | nil => exact (List.eq_nil_of_length_eq_zero (h c)).symm
  | cons d codes ih =>
    have htail := ih h.tail
    obtain ⟨i, hand, hhand, hset⟩ := h.exists_hand
    rw [hhand, List.tail_cons, hset] at htail
    rw [assign, hhand, List.headD_cons, List.tail_cons, List.zip_cons_cons, List.filter_cons]
    by_cases hdc : d = c
    · rw [if_pos (by simpa using hdc), List.map_cons, htail, if_pos hdc, ← hdc, hhand]
    · rw [if_neg (by simpa using hdc), htail, if_neg hdc]

/-! Folds by numbers. -/

/-- Hands that hold, for every class, the numbers dealt to it. -/
def Dealt (codes : List Nat) (k : Nat) (hands : List (List Nat)) : Prop :=
  ∀ c, (hands.getD c []).Perm (dealt codes k c)

theorem Dealt.suffices (h : Dealt codes k hands) (hk : 0 < k) : Suffices codes hands :=
  fun c => (h c).length_eq.trans (length_dealt hk codes c)

theorem dealAll_dealt (hk : 0 < k) {classes : Nat} (hclasses : ∀ c ∈ codes, c < classes)
    (source : Option Draw.Twister) :
    Dealt codes k (dealAll codes k (List.range classes) source) := by
  intro c
  have hall := dealAll_perm codes k (List.range classes) source
  have hlength := hall.length_eq
  rw [List.length_range] at hlength
  by_cases hc : c < classes
  · have hperm := hall.get (i := c) (by omega) (by rwa [List.length_range])
    rw [List.get_eq_getElem, List.get_eq_getElem, List.getElem_range] at hperm
    rwa [List.getD_eq_getElem?_getD, List.getElem?_eq_getElem (by omega)]
  · -- no row has this class, so there is nothing to hand out
    have hnone : (dealt codes k c).length = 0 := by
      rw [length_dealt hk]
      exact List.count_eq_zero.2 fun h => hc (hclasses c h)
    rw [List.getD_eq_getElem?_getD, List.getElem?_eq_none (by omega),
      List.eq_nil_of_length_eq_zero hnone]
    exact .refl _

def pairs (codes : List Nat) (hands : List (List Nat)) : List (Nat × Nat) :=
  codes.zip (assign codes hands)

theorem countP_pairs (h : Suffices codes hands) (c i : Nat) :
    (pairs codes hands).countP (fun p => p.2 == i && p.1 == c) = (hands.getD c []).count i := by
  rw [← assigned_hand h c, List.count, List.countP_map, List.countP_filter]
  rfl

theorem Dealt.countP_pairs (h : Dealt codes k hands) (hi : i < k) (c : Nat) :
    (pairs codes hands).countP (fun p => p.2 == i && p.1 == c) = quota codes k i c := by
  have hk : 0 < k := Nat.zero_lt_of_lt hi
  rw [Fold.countP_pairs (h.suffices hk), (h c).count_eq, count_dealt, if_pos hi]

/-- The classes of the rows with some number are those of every `k`-th place. -/
theorem Dealt.perm_everyNth (h : Dealt codes k hands) (hi : i < k) :
    (((pairs codes hands).filter (·.2 == i)).map Prod.fst).Perm
      (everyNth k i (codes.mergeSort fun a b => a ≤ b)) := by
  refine List.perm_iff_count.2 fun c => ?_
  rw [List.count, List.countP_map, List.countP_filter]
  refine Eq.trans (List.countP_congr fun p _ => ?_) (h.countP_pairs hi c)
  rw [Bool.and_comm]
  rfl

theorem Dealt.countP_number (h : Dealt codes k hands) (hi : i < k) :
    (pairs codes hands).countP (·.2 == i) = sizeOf codes.length k i := by
  have hlength := (h.perm_everyNth hi).length_eq
  rwa [List.length_map, ← List.countP_eq_length_filter, length_everyNth, List.length_mergeSort,
    places_zero hi] at hlength

theorem Dealt.number_lt (h : Dealt codes k hands) (hk : 0 < k) {p : Nat × Nat}
    (hp : p ∈ pairs codes hands) : p.2 < k := by
  have hhand : p.2 ∈ hands.getD p.1 [] := by
    rw [← assigned_hand (h.suffices hk)]
    exact List.mem_map_of_mem (List.mem_filter.2 ⟨hp, beq_self_eq_true p.1⟩)
  have hdealt := (dealt_perm hk codes p.1).subset ((h p.1).subset hhand)
  obtain ⟨q, -, hq⟩ := List.mem_map.1 hdealt
  rw [← hq]
  exact Nat.mod_lt q hk

/-! Rows. -/

theorem countP_range {α : Type} (items : List α) (p : α → Bool) :
    (List.range items.length).countP (fun r => items[r]?.any p) = items.countP p := by
  have hitems : (List.range items.length).map (items[·]?) = items.map some :=
    List.ext_getElem? fun r => by grind
  have hcount := congrArg (List.countP (Option.any p)) hitems
  rw [List.countP_map, List.countP_map] at hcount
  exact hcount

theorem length_pairs (codes : List Nat) (hands : List (List Nat)) :
    (pairs codes hands).length = codes.length := by
  rw [pairs, List.length_zip, length_assign, Nat.min_self]

theorem getElem?_codes (codes : List Nat) (hands : List (List Nat)) (r : Nat) :
    codes[r]? = ((pairs codes hands)[r]?).map Prod.fst := by
  rw [← List.getElem?_map, pairs, List.map_fst_zip (Nat.le_of_eq (length_assign codes hands).symm)]

theorem getElem?_numbers (codes : List Nat) (hands : List (List Nat)) (r : Nat) :
    (assign codes hands)[r]? = ((pairs codes hands)[r]?).map Prod.snd := by
  rw [← List.getElem?_map, pairs, List.map_snd_zip (Nat.le_of_eq (length_assign codes hands))]

theorem map_beq_some {α : Type} (o : Option α) (f : α → Nat) (i : Nat) :
    (o.map f == some i) = o.any (f · == i) := by
  cases o <;> rfl

def ofHands (codes : List Nat) (k : Nat) (hands : List (List Nat)) : List Fold :=
  ofNumbers codes.length k (assign codes hands)

theorem ofHands_eq (codes : List Nat) (k : Nat) (hands : List (List Nat)) :
    ofHands codes k hands = (List.range k).map fun i =>
      ofAssignment codes.length (fun r => (pairs codes hands)[r]?.any (·.2 == i)) i := by
  refine List.map_congr_left fun i _ => ?_
  congr 1
  funext r
  rw [List.getElem?_toArray, getElem?_numbers, map_beq_some]

theorem exists_number (h : f ∈ ofHands codes k hands) :
    f.index < k ∧ f = ofAssignment codes.length
      (fun r => (pairs codes hands)[r]?.any (·.2 == f.index)) f.index := by
  rw [ofHands_eq] at h
  obtain ⟨i, hi, rfl⟩ := List.mem_map.1 h
  exact ⟨List.mem_range.1 hi, rfl⟩

theorem Dealt.length_test (h : Dealt codes k hands) (hf : f ∈ ofHands codes k hands) :
    f.test.length = sizeOf codes.length k f.index := by
  obtain ⟨hindex, hf⟩ := exists_number hf
  rw [← h.countP_number hindex, ← countP_range, length_pairs, List.countP_eq_length_filter, hf]
  rfl

theorem Dealt.countP_test (h : Dealt codes k hands) (hf : f ∈ ofHands codes k hands) (c : Nat) :
    f.test.countP (fun r => codes[r]? == some c) = quota codes k f.index c := by
  obtain ⟨hindex, hf⟩ := exists_number hf
  rw [← h.countP_pairs hindex, ← countP_range (pairs codes hands), length_pairs, hf]
  refine List.countP_filter.trans (List.countP_congr fun r _ => ?_)
  rw [getElem?_codes codes hands, map_beq_some]
  cases (pairs codes hands)[r]? <;> simp [ofAssignment, and_comm]

theorem flatMap_filter_perm {α : Type} (owner : α → Nat) (k : Nat) (items : List α) :
    ((List.range k).flatMap fun i => items.filter (owner · == i)).Perm
      (items.filter (owner · < k)) := by
  induction k with
  | zero => simp
  | succ k ih =>
    have hsplit := List.filter_append_perm (owner · < k) (items.filter (owner · < k + 1))
    rw [List.filter_filter, List.filter_filter] at hsplit
    rw [List.range_succ, List.flatMap_append, List.flatMap_singleton]
    refine .trans (ih.append (.refl _)) (.trans (.of_eq ?_) hsplit)
    congr 1
    · exact List.filter_congr fun x _ => by grind
    · exact List.filter_congr fun x _ => by grind

theorem Dealt.partition (h : Dealt codes k hands) (hk : 0 < k) :
    Partition codes.length k (ofHands codes k hands) := by
  have hassigned : ∀ f ∈ ofHands codes k hands, f.Assigned codes.length := fun f hf =>
    ⟨_, (exists_number hf).2⟩
  refine ⟨?_, ?_, fun f hf => (hassigned f hf).ascending, fun f hf => (hassigned f hf).complement,
    fun f hf g hg => ?_⟩
  · rw [ofHands_eq, List.map_map]
    exact List.map_id _
  · -- every row belongs to the fold whose number it got, so no row is lost or tested twice
    let owner (r : Nat) : Nat := ((pairs codes hands)[r]?.map Prod.snd).getD k
    have howner : ∀ r ∈ List.range codes.length, owner r < k := by
      intro r hr
      have hlt : r < (pairs codes hands).length := by
        rw [length_pairs]
        exact List.mem_range.1 hr
      simp only [owner, List.getElem?_eq_getElem hlt, Option.map_some, Option.getD_some]
      exact h.number_lt hk (List.getElem_mem hlt)
    have hperm := flatMap_filter_perm owner k (List.range codes.length)
    rw [List.filter_eq_self.2 fun r hr => decide_eq_true (howner r hr)] at hperm
    rw [ofHands_eq, List.flatMap_map]
    refine .trans (.flatMap_left _ fun i hi => .of_eq ?_) hperm
    refine List.filter_congr fun r _ => ?_
    have hi : i < k := List.mem_range.1 hi
    simp only [owner]
    cases (pairs codes hands)[r]? with
    | none => exact (beq_false_of_ne (Nat.ne_of_gt hi)).symm
    | some p => rfl
  · rw [h.length_test hf, h.length_test hg]
    exact sizeOf_le _ _ _ _

end ColumnFlow.Fold
