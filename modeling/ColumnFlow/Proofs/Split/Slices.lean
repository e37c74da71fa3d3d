import ColumnFlow.Draw.Choice
import ColumnFlow.Split.Folds
import Mathlib.Data.List.Flatten
import Mathlib.Data.List.Perm.Basic

/-!
# Slices

What makes folds a split of the rows, and that consecutive slices of any order of the rows make
one. Every fold holds the rows of its slice in increasing order, and trains on all others.
-/
namespace ColumnFlow.Fold

/-- Folds that split `n` rows: numbered in order, with every row in one test slice, where the slices
are as equal in size as they can be. -/
structure Partition (n k : Nat) (folds : List Fold) : Prop where
  numbered : folds.map Fold.index = List.range k
  covers : (folds.flatMap Fold.test).Perm (List.range n)
  ascending : ∀ f ∈ folds, f.test.Pairwise (· < ·)
  complement : ∀ f ∈ folds, f.train = (List.range n).filter (· ∉ f.test)
  balanced : ∀ f ∈ folds, ∀ g ∈ folds, f.test.length ≤ g.test.length + 1

/-- The test slice of a fold tells its training slice. -/
def Assigned (n : Nat) (f : Fold) : Prop := ∃ isTest, f = ofAssignment n isTest f.index

variable {n k i j : Nat} {f : Fold} {isTest : Nat → Bool}

theorem assigned (n : Nat) (isTest : Nat → Bool) (i : Nat) :
    (ofAssignment n isTest i).Assigned n := ⟨isTest, rfl⟩

theorem mem_test : j ∈ (ofAssignment n isTest i).test ↔ j < n ∧ isTest j = true := by
  simp only [ofAssignment, List.mem_filter, List.mem_range]

theorem Assigned.ascending (h : f.Assigned n) : f.test.Pairwise (· < ·) := by
  obtain ⟨isTest, hf⟩ := h
  rw [hf]
  exact List.pairwise_lt_range.filter _

theorem Assigned.complement (h : f.Assigned n) :
    f.train = (List.range n).filter (· ∉ f.test) := by
  obtain ⟨isTest, hf⟩ := h
  rw [hf]
  refine List.filter_congr fun r hr => ?_
  have hr : r < n := List.mem_range.1 hr
  by_cases htest : isTest r = true
  · simp [mem_test, hr, htest]
  · simp [mem_test, htest]

theorem test_perm {slice : List Nat} (hdistinct : slice.Nodup) (hrows : ∀ r ∈ slice, r < n)
    (i : Nat) : (ofAssignment n (fun r => slice.contains r) i).test.Perm slice := by
  refine (List.perm_ext_iff_of_nodup (List.nodup_range.filter _) hdistinct).2 fun r => ?_
  refine (mem_test (i := i)).trans ?_
  rw [List.contains_iff_mem]
  exact ⟨fun h => h.2, fun h => ⟨hrows r h, h⟩⟩

/-! Sizes. -/

def start (n k i : Nat) : Nat := i * (n / k) + min i (n % k)

theorem start_succ (n k i : Nat) : start n k (i + 1) = start n k i + sizeOf n k i := by
  unfold start sizeOf
  rw [Nat.add_mul, Nat.one_mul]
  split <;> omega

theorem start_end (hk : 0 < k) : start n k k = n := by
  have hlt : n % k < k := Nat.mod_lt n hk
  unfold start
  rw [Nat.min_eq_right (Nat.le_of_lt hlt)]
  exact Nat.div_add_mod n k

theorem sizeOf_le (n k i j : Nat) : sizeOf n k i ≤ sizeOf n k j + 1 := by
  unfold sizeOf
  split <;> split <;> omega

theorem sizeOf_antitone (n k : Nat) (h : i ≤ j) : sizeOf n k j ≤ sizeOf n k i := by
  unfold sizeOf
  split <;> split <;> omega

/-- The slices from some number on take up what is left, in order, and have their sizes. -/
theorem cut_rest {α : Type} (hk : 0 < k) {m : Nat} (him : i + m = k) {items : List α}
    (hitems : start n k i + items.length = n) :
    (cut ((List.range' i m).map (sizeOf n k)) items).flatten = items ∧
      (cut ((List.range' i m).map (sizeOf n k)) items).map List.length =
        (List.range' i m).map (sizeOf n k) := by
  -- on the number of slices that are left: where a slice begins tells how much is left for them
  induction m generalizing i items with
  | zero =>
    obtain rfl : i = k := him
    have hnone : items = [] := List.eq_nil_of_length_eq_zero (by rw [start_end hk] at hitems; omega)
    rw [hnone]
    exact ⟨rfl, rfl⟩
  | succ m ih =>
    have hstart := start_succ n k i
    have hlater : start n k (i + 1) ≤ start n k k :=
      Nat.add_le_add (Nat.mul_le_mul_right _ (by omega)) (by omega)
    rw [start_end hk] at hlater
    have hsize : sizeOf n k i ≤ items.length := by omega
    have hrest : start n k (i + 1) + (items.drop (sizeOf n k i)).length = n := by
      rw [List.length_drop]
      omega
    obtain ⟨hflat, hlengths⟩ := ih (by omega) hrest
    simp only [List.range'_succ, List.map_cons, cut, List.flatten_cons]
    rw [hflat, hlengths, List.length_take, Nat.min_eq_left hsize]
    exact ⟨List.take_append_drop _ _, rfl⟩

theorem flatten_cut {α : Type} (hk : 0 < k) {items : List α} (hitems : items.length = n) :
    (cut ((List.range k).map (sizeOf n k)) items).flatten = items := by
  rw [List.range_eq_range']
  exact (cut_rest hk (by omega) (by simp only [start]; omega)).1

theorem length_cut {α : Type} (hk : 0 < k) {items : List α} (hitems : items.length = n) :
    (cut ((List.range k).map (sizeOf n k)) items).map List.length =
      (List.range k).map (sizeOf n k) := by
  rw [List.range_eq_range']
  exact (cut_rest hk (by omega) (by simp only [start]; omega)).2

/-! Consecutive slices. -/

variable {order : List Nat}

def slices (n k : Nat) (order : List Nat) : List (List Nat) :=
  cut ((List.range k).map (sizeOf n k)) order

theorem length_slices (hk : 0 < k) (horder : order.length = n) : (slices n k order).length = k := by
  have hlengths := congrArg List.length (length_cut hk horder)
  rwa [List.length_map, List.length_map, List.length_range] at hlengths

theorem nodup_slice (hk : 0 < k) (horder : order.Perm (List.range n)) {slice : List Nat}
    (h : slice ∈ slices n k order) : slice.Nodup ∧ ∀ r ∈ slice, r < n := by
  have hlength : order.length = n := horder.length_eq.trans List.length_range
  have hsub : slice.Sublist order := by
    have hsub := List.sublist_flatten_of_mem h
    rwa [slices, flatten_cut hk hlength] at hsub
  refine ⟨(horder.nodup_iff.2 List.nodup_range).sublist hsub, fun r hr => ?_⟩
  exact List.mem_range.1 (horder.subset (hsub.subset hr))

theorem exists_slice (h : f ∈ ofOrder n k order) :
    ∃ slice ∈ slices n k order, f = ofAssignment n (fun r => slice.contains r) f.index := by
  obtain ⟨p, hp, rfl⟩ := List.mem_map.1 h
  refine ⟨p.1, ?_, rfl⟩
  have hmem := List.mem_map_of_mem (f := Prod.fst) hp
  rwa [List.zipIdx_map_fst] at hmem

theorem exists_size (hk : 0 < k) (horder : order.Perm (List.range n)) (h : f ∈ ofOrder n k order) :
    ∃ i, f.test.length = sizeOf n k i := by
  obtain ⟨slice, hslice, hf⟩ := exists_slice h
  obtain ⟨hdistinct, hrows⟩ := nodup_slice hk horder hslice
  have hlength : order.length = n := horder.length_eq.trans List.length_range
  have hmem : slice.length ∈ (List.range k).map (sizeOf n k) := by
    rw [← length_cut hk hlength]
    exact List.mem_map_of_mem hslice
  obtain ⟨i, -, hi⟩ := List.mem_map.1 hmem
  refine ⟨i, ?_⟩
  rw [hf, (test_perm hdistinct hrows _).length_eq, hi]

theorem ofOrder_partition (hk : 0 < k) (horder : order.Perm (List.range n)) :
    Partition n k (ofOrder n k order) := by
  have hlength : order.length = n := horder.length_eq.trans List.length_range
  have hassigned : ∀ f ∈ ofOrder n k order, f.Assigned n := fun f hf =>
    have ⟨_, _, h⟩ := exists_slice hf
    ⟨_, h⟩
  refine ⟨?_, ?_, fun f hf => (hassigned f hf).ascending, fun f hf => (hassigned f hf).complement,
    fun f hf g hg => ?_⟩
  · unfold ofOrder
    rw [List.map_map]
    change (slices n k order).zipIdx.map Prod.snd = _
    rw [List.zipIdx_map_snd, length_slices hk hlength, List.range_eq_range']
  · have hslices : ((slices n k order).zipIdx.flatMap fun p =>
        (ofAssignment n (fun r => p.1.contains r) p.2).test).Perm
          ((slices n k order).zipIdx.flatMap Prod.fst) := by
      refine .flatMap_left _ fun p hp => ?_
      have hmem := List.mem_map_of_mem (f := Prod.fst) hp
      rw [List.zipIdx_map_fst] at hmem
      obtain ⟨hdistinct, hrows⟩ := nodup_slice hk horder hmem
      exact test_perm hdistinct hrows _
    unfold ofOrder
    rw [List.flatMap_map]
    refine hslices.trans ?_
    rw [List.flatMap_def, List.zipIdx_map_fst, slices, flatten_cut hk hlength]
    exact horder
  · obtain ⟨i, hi⟩ := exists_size hk horder hf
    obtain ⟨j, hj⟩ := exists_size hk horder hg
    rw [hi, hj]
    exact sizeOf_le n k i j

theorem map_test_ofOrder (hk : 0 < k) :
    (ofOrder n k (List.range n)).map Fold.test = slices n k (List.range n) := by
  have htest : ∀ p ∈ (slices n k (List.range n)).zipIdx,
      (ofAssignment n (fun r => p.1.contains r) p.2).test = p.1 := by
    intro p hp
    have hmem := List.mem_map_of_mem (f := Prod.fst) hp
    rw [List.zipIdx_map_fst] at hmem
    obtain ⟨hdistinct, hrows⟩ := nodup_slice hk (.refl _) hmem
    have hsub := List.sublist_flatten_of_mem hmem
    rw [slices, flatten_cut hk List.length_range] at hsub
    refine (test_perm hdistinct hrows p.2).eq_of_pairwise (fun a b _ _ hab hba => ?_)
      (assigned n _ _).ascending (List.pairwise_lt_range.sublist hsub)
    exact absurd hab (Nat.lt_asymm hba)
  unfold ofOrder
  rw [List.map_map]
  exact (List.map_congr_left htest).trans (List.zipIdx_map_fst 0 _)

/-- Rows in their own order are cut into consecutive slices, the larger ones first. -/
theorem ofOrder_range (hk : 0 < k) :
    (ofOrder n k (List.range n)).flatMap Fold.test = List.range n ∧
      ((ofOrder n k (List.range n)).map fun f => f.test.length).Pairwise (· ≥ ·) := by
  constructor
  · rw [List.flatMap_def, map_test_ofOrder hk, slices, flatten_cut hk List.length_range]
  · have hsizes : (ofOrder n k (List.range n)).map (fun f => f.test.length) =
        (List.range k).map (sizeOf n k) := by
      rw [← length_cut hk (List.length_range (n := n)), ← slices, ← map_test_ofOrder hk,
        List.map_map]
      rfl
    rw [hsizes, List.pairwise_map]
    exact List.pairwise_lt_range.imp fun h => sizeOf_antitone n k (Nat.le_of_lt h)

end ColumnFlow.Fold
