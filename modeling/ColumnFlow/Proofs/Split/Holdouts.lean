import ColumnFlow.Proofs.Decimal.Rounding
import ColumnFlow.Draw.Choice
import ColumnFlow.Split.Holdout

/-!
# Holdout splits

Without classes, a split that succeeds leaves rows on both sides, each row on one of them. It knows
nothing of the data but the number of rows.
-/
namespace ColumnFlow.Holdout

variable {n count : Nat} {asked : Value} {seed : Option Value} {h : Holdout} {x : Float}

theorem roundUp_pos (hx : 0.0 < x) : 0 < roundUp x := by
  have hzero : Float.ofNat 0 < x := by
    rw [Decimal.lt_iff] at hx ⊢
    exact hx
  unfold roundUp
  cases hlow : x.toUInt64.toNat with
  | zero =>
    simp only [if_pos hzero]
    decide
  | succ low =>
    dsimp only
    split <;> omega

theorem of_guard {c : Nat} {e : Failure}
    (hcount : (if c < n then .ok c else .error e : Except Failure Nat) = .ok count) :
    c < n ∧ c = count := by
  split at hcount
  · cases hcount
    exact ⟨‹_›, rfl⟩
  · cases hcount

/-- The held-out part has at least one row, and leaves at least one. -/
theorem testCount_bounds (hsize : size.takes asked = true)
    (hcount : testCount asked n = .ok count) : 0 < count ∧ count < n := by
  unfold testCount at hcount
  split at hcount <;> dsimp only at hcount
  · next i =>
    obtain ⟨hlt, rfl⟩ := of_guard hcount
    have hi : 1 ≤ i := by simpa [size, Parameter.takes, Domain.takes, Domain.whole?] using hsize
    exact ⟨by omega, hlt⟩
  · next x =>
    obtain ⟨hlt, rfl⟩ := of_guard hcount
    have hx : 0.0 < x ∧ x < 1.0 := by
      simpa [size, Parameter.takes, Domain.takes, Domain.whole?, Range.contains, Range.between]
        using hsize
    exact ⟨roundUp_pos (Decimal.pos_mul_ofNat hx.1 (by omega)), hlt⟩
  · cases hcount

/-- Two lists of rows, neither of them empty, that share no row and hold all rows together. -/
structure Divides (h : Holdout) (n : Nat) : Prop where
  perm : (h.train ++ h.test).Perm (List.range n)
  train : h.train ≠ []
  test : h.test ≠ []

theorem Divides.disjoint (hd : h.Divides n) : h.train.Disjoint h.test :=
  (List.nodup_append'.1 (hd.perm.nodup_iff.2 List.nodup_range)).2.2

theorem Divides.test_lt (hd : h.Divides n) : ∀ i ∈ h.test, i < n := fun _ hi =>
  List.mem_range.1 (hd.perm.subset (List.mem_append_right _ hi))

theorem divides_of_order {order : List Nat} (horder : order.Perm (List.range n)) (hpos : 0 < count)
    (hlt : count < n) :
    Divides ⟨(order.drop count).take (n - count), order.take count⟩ n := by
  have hlength : order.length = n := by rw [horder.length_eq, List.length_range]
  have hdrop : (order.drop count).take (n - count) = order.drop count :=
    List.take_of_length_le (by rw [List.length_drop, hlength])
  rw [hdrop]
  refine ⟨?_, List.ne_nil_of_length_pos ?_, List.ne_nil_of_length_pos ?_⟩
  · exact List.perm_append_comm.trans ((List.take_append_drop count order).symm ▸ horder)
  · simp only [List.length_drop, hlength]
    omega
  · simp only [List.length_take, hlength]
    omega

theorem divides_last (hpos : 0 < count) (hlt : count < n) :
    Divides ⟨List.range (n - count), (List.range n).drop (n - count)⟩ n := by
  have htake : List.range (n - count) = (List.range n).take (n - count) := by
    rw [List.take_range, min_eq_left (Nat.sub_le n count)]
  refine ⟨?_, List.ne_nil_of_length_pos ?_, List.ne_nil_of_length_pos ?_⟩
  · rw [htake, List.take_append_drop]
  · rw [List.length_range]
    omega
  · rw [List.length_drop, List.length_range]
    omega

theorem split_divides (hsplit : split n asked seed none = .ok h) : h.Divides n := by
  unfold split at hsplit
  dsimp only at hsplit
  cases htaken : size.takes asked && seed.all Parameter.randomState.takes with
  | false =>
    rw [htaken] at hsplit
    cases hsplit
  | true =>
    rw [htaken] at hsplit
    have hsize : size.takes asked = true := (Bool.and_eq_true_iff.1 htaken).1
    cases hcount : testCount asked n with
    | error e =>
      rw [hcount] at hsplit
      cases hsplit
    | ok count =>
      rw [hcount] at hsplit
      obtain ⟨hpos, hlt⟩ := testCount_bounds hsize hcount
      cases seed with
      | none =>
        cases hsplit
        exact divides_last hpos hlt
      | some seed =>
        cases hsplit
        exact divides_of_order (Draw.Twister.permutation_perm n _) hpos hlt

/-- A random split fails for its size or its seed only. -/
theorem exists_split {seed : Value} (hsize : size.takes asked = true)
    (hseed : Parameter.randomState.takes seed = true) (hcount : testCount asked n = .ok count) :
    ∃ h, split n asked (some seed) none = .ok h := by
  unfold split
  rw [hsize, Option.all_some, hseed, hcount]
  exact ⟨_, rfl⟩

/-- There are two ways to divide two rows. -/
theorem Divides.two (hd : h.Divides 2) : h = ⟨[0], [1]⟩ ∨ h = ⟨[1], [0]⟩ := by
  obtain ⟨train, test⟩ := h
  have hlength := hd.perm.length_eq
  have htrain := List.length_pos_iff.2 hd.train
  have htest := List.length_pos_iff.2 hd.test
  rw [List.length_append, List.length_range] at hlength
  dsimp only at hlength htrain htest
  obtain ⟨a, rfl⟩ := List.length_eq_one_iff.1 (show train.length = 1 by omega)
  obtain ⟨b, rfl⟩ := List.length_eq_one_iff.1 (show test.length = 1 by omega)
  have ha : a < 2 := List.mem_range.1 (hd.perm.subset (by simp))
  have hb : b < 2 := hd.test_lt b (by simp)
  have hne : b ≠ a := by simpa using hd.disjoint
  have hcases : a = 0 ∧ b = 1 ∨ a = 1 ∧ b = 0 := by omega
  rcases hcases with ⟨rfl, rfl⟩ | ⟨rfl, rfl⟩
  · exact .inl rfl
  · exact .inr rfl

end ColumnFlow.Holdout
