import ColumnFlow.Proofs.Frame.Within
import ColumnFlow.Split.Classes

/-!
# Classes

Rows have the same number if and only if they have the same label.
-/
namespace ColumnFlow

namespace Key

variable {k : Key} {ks found : List Key}

theorem mem_distinct_from : k ∈ ks.foldl (fun found k =>
    if found.contains k then found else found ++ [k]) found ↔ k ∈ found ∨ k ∈ ks := by
  induction ks generalizing found with
  | nil => simp
  | cons first ks ih =>
    rw [List.foldl_cons, ih, List.mem_cons]
    split
    · rename_i hin
      rw [List.contains_iff_mem] at hin
      constructor
      · exact Or.imp_right .inr
      · rintro (h | rfl | h)
        · exact .inl h
        · exact .inl hin
        · exact .inr h
    · rw [List.mem_append, List.mem_singleton, or_assoc]

theorem mem_distinct : k ∈ distinct ks ↔ k ∈ ks := by
  rw [distinct, mem_distinct_from]
  simp only [List.not_mem_nil, false_or]

end Key

namespace Classes

variable {k : Key} {ks found : List Key} {s : Series}

theorem position_lt : position found k < found.length ↔ k ∈ found := by
  unfold position
  rw [List.findIdx_lt_length]
  simp only [beq_iff_eq, exists_eq_right]

theorem getElem_position (hk : k ∈ found) : found[position found k]? = some k := by
  have hlt := position_lt.2 hk
  have heq : found[position found k] = k := eq_of_beq (List.findIdx_getElem (w := hlt))
  rw [List.getElem?_eq_getElem hlt, heq]

theorem position_eq {k' : Key} (hk : k ∈ found) :
    position found k' = position found k ↔ k' = k := by
  refine ⟨fun h => ?_, fun h => by rw [h]⟩
  have hk' : k' ∈ found := position_lt.1 (h ▸ position_lt.2 hk)
  exact Option.some.inj (by rw [← getElem_position hk', h, getElem_position hk])

theorem length_codes (ks : List Key) : (codes ks).1.length = ks.length := List.length_map _

theorem code_lt (ks : List Key) : ∀ c ∈ (codes ks).1, c < (codes ks).2 := by
  intro c hc
  obtain ⟨k, hk, rfl⟩ := List.mem_map.1 hc
  exact position_lt.2 (Key.mem_distinct.2 hk)

theorem forall₂_keys (hdtype : s.dtype ≠ .object) (h : keys s = .ok ks) :
    List.Forall₂ (fun v k => ∃ x, v = .scalar x ∧ x.key = k) s.cells ks := by
  unfold keys at h
  split at h
  · exact absurd ‹_› hdtype
  · refine (forall₂_of_mapM h).imp fun v k hk => ?_
    split at hk
    · cases hk
    · cases hk
    · split at hk
      · cases hk
      · cases hk
      · exact ⟨_, rfl, Except.ok.inj hk⟩
    · cases hk

theorem forall₂_classKeys (h : classKeys s = .ok ks) :
    List.Forall₂ (fun v k => ∃ x, v = .scalar x ∧ x.key = k) s.cells ks := by
  unfold classKeys at h
  split at h
  · obtain ⟨_, -, h⟩ := Except.exists_of_bind h
    cases h
  · rename_i hdtype
    obtain ⟨found, hfound, h⟩ := Except.exists_of_bind h
    split at h
    · obtain rfl := Except.ok.inj h
      exact forall₂_keys hdtype hfound
    · cases h

theorem length_classKeys (h : classKeys s = .ok ks) : ks.length = s.rows :=
  (forall₂_classKeys h).length_eq.symm

theorem any_cell {cells : List Value} {p : Value → Bool} {q : Key → Bool}
    (hpq : ∀ x : Scalar, p (.scalar x) = q x.key)
    (h : List.Forall₂ (fun v k => ∃ x, v = .scalar x ∧ x.key = k) cells ks) (r : Nat) :
    cells[r]?.any p = ks[r]?.any q := by
  induction h generalizing r with
  | nil => rfl
  | cons hcell _ ih =>
    obtain ⟨x, rfl, rfl⟩ := hcell
    cases r with
    | zero => exact hpq x
    | succ r => exact ih r

/-- A class of keys is a single key, or none of those found. -/
theorem exists_position (ks : List Key) (key? : Option Key) :
    ∃ c, ∀ k ∈ ks, (key? == some k) = (position (Key.distinct ks) k == c) := by
  by_cases hfound : ∃ k ∈ ks, key? = some k
  · obtain ⟨k, hk, rfl⟩ := hfound
    refine ⟨position (Key.distinct ks) k, fun k' _ => ?_⟩
    rw [Bool.eq_iff_iff, beq_iff_eq, beq_iff_eq, position_eq (Key.mem_distinct.2 hk),
      Option.some_inj, eq_comm]
  · refine ⟨(Key.distinct ks).length, fun k hk => ?_⟩
    have hlt := position_lt.2 (Key.mem_distinct.2 hk)
    rw [beq_false_of_ne (Nat.ne_of_lt hlt), beq_false_of_ne fun h => hfound ⟨k, hk, h⟩]

/-- The key of a label, if it can be told from itself. -/
def keyOf? (v : Value) : Option Key :=
  v.label?.bind fun l => if l.key.isReal then some l.key else none

theorem sameLabel_scalar (x : Scalar) (v : Value) :
    (Value.scalar x).sameLabel v = (keyOf? v == some x.key) := by
  unfold Value.sameLabel keyOf?
  rw [Value.label?]
  cases v.label? with
  | none => rfl
  | some l =>
    change x.same l = _
    rw [Scalar.same_comm, Bool.eq_iff_iff]
    simp only [Scalar.same, Option.bind_some, Bool.and_eq_true, beq_iff_eq]
    split <;> simp [*]

/-- The rows with some label are those with some number. -/
theorem exists_code (h : classKeys s = .ok ks) (v : Value) :
    ∃ c, ∀ r : Nat, s.cells[r]?.any (Value.sameLabel · v) = ((codes ks).1[r]? == some c) := by
  obtain ⟨c, hc⟩ := exists_position ks (keyOf? v)
  refine ⟨c, fun r => ?_⟩
  have hkeys : s.cells[r]?.any (Value.sameLabel · v) = ks[r]?.any (keyOf? v == some ·) :=
    any_cell (sameLabel_scalar · v) (forall₂_classKeys h) r
  rw [hkeys, codes, List.getElem?_map]
  cases hr : ks[r]? with
  | none => rfl
  | some k => exact hc k (List.mem_of_getElem? hr)

end Classes
end ColumnFlow
