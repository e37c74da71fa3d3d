import ColumnFlow.Frame.Coercion
import ColumnFlow.Frame.Majority
import ColumnFlow.Proofs.Frame.Numbering
import ColumnFlow.Proofs.Frame.Within

/-!
# Plurality

In a row of labels of one kind, the majority is the label that stands there most often, and of
several such labels the one that stands furthest to the left. A column that is built from winners
has the winners for its cells, whatever kind it is given.
-/
namespace ColumnFlow

/-- Kinds of labels that are not missing. -/
inductive LabelKind where
  | text
  | whole
  | truth

namespace LabelKind

abbrev Item : LabelKind → Type
  | text => String
  | whole => Int
  | truth => Bool

instance : (k : LabelKind) → DecidableEq k.Item
  | text => inferInstanceAs (DecidableEq String)
  | whole => inferInstanceAs (DecidableEq Int)
  | truth => inferInstanceAs (DecidableEq Bool)

def value : (k : LabelKind) → k.Item → Value
  | text => Value.text
  | whole => Value.int
  | truth => Value.bool

variable {k : LabelKind}

theorem isSome_label? (a : k.Item) : (k.value a).label?.isSome = true := by
  cases k <;> rfl

theorem isMissing_value (a : k.Item) : (k.value a).isMissing = false := by
  cases k <;> rfl

theorem sameLabel_value_iff (a b : k.Item) : (k.value a).sameLabel (k.value b) = true ↔ a = b := by
  cases k with
  | text => exact Labels.same_texts_iff
  | whole =>
    change Scalar.same (.int a) (.int b) = true ↔ a = b
    simp [Scalar.same, Scalar.key, Scalar.atoms, Key.isReal]
  | truth => cases a <;> cases b <;> decide

end LabelKind

namespace Majority

/-- The label stands in the row at least as often as any other, and before any that stands there as
often. -/
structure Prevails {α : Type} [DecidableEq α] (row : List α) (winner : α) : Prop where
  mem : winner ∈ row
  most : ∀ u, row.count u ≤ row.count winner
  first : ∀ u ∈ row, u ≠ winner → row.count u = row.count winner →
    row.idxOf winner < row.idxOf u

variable {k : LabelKind} {row : List k.Item} {a : k.Item}

theorem votes_value (ha : a ∈ row) : votes (row.map k.value) (k.value a) = row.count a := by
  unfold votes
  rw [Labels.countP_map_eq_count (LabelKind.sameLabel_value_iff a)]
  exact Nat.max_eq_right (List.count_pos_iff.2 ha)

theorem foldl_max_le_iff {α : Type} (f : α → Nat) (l : List α) (start bound : Nat) :
    l.foldl (fun m v => max m (f v)) start ≤ bound ↔ start ≤ bound ∧ ∀ v ∈ l, f v ≤ bound := by
  induction l generalizing start with
  | nil => simp
  | cons v l ih =>
    rw [List.foldl_cons, ih, List.forall_mem_cons, Nat.max_le, and_assoc]

theorem votes_le_mostVotes {row : List Value} {v : Value} (hv : v ∈ row) :
    votes row v ≤ mostVotes row :=
  ((foldl_max_le_iff (votes row) row 0 _).1 (Nat.le_refl _)).2 v hv

theorem exists_mostVotes {row : List Value} (hrow : row ≠ []) :
    ∃ v ∈ row, votes row v = mostVotes row := by
  by_contra hnone
  push Not at hnone
  obtain ⟨v, hv⟩ := List.exists_mem_of_ne_nil row hrow
  have hpos := Nat.lt_of_le_of_ne (votes_le_mostVotes hv) (hnone v hv)
  -- If no label had the most votes, one vote less would be a bound.
  have hless : mostVotes row ≤ mostVotes row - 1 := by
    refine (foldl_max_le_iff (votes row) row 0 _).2 ⟨Nat.zero_le _, fun u hu => ?_⟩
    have := Nat.lt_of_le_of_ne (votes_le_mostVotes hu) (hnone u hu)
    omega
  omega

/-- The first label with the most votes prevails. -/
theorem prevails_of_first {i most : Nat} (hi : i < row.length) (hbest : row.count row[i] = most)
    (hmost : ∀ a ∈ row, row.count a ≤ most)
    (hbefore : ∀ j (hj : j < i), row.count row[j] ≠ most) : Prevails row row[i] := by
  have hmem : row[i] ∈ row := List.getElem_mem hi
  have hself : row.idxOf row[i] < i + 1 := by
    apply (List.mem_take_iff_idxOf_lt hmem).1
    exact List.mem_take_iff_getElem.2 ⟨i, by omega, rfl⟩
  refine ⟨hmem, fun u => ?_, fun u hu hne hcount => ?_⟩
  · by_cases hu : u ∈ row
    · exact hbest ▸ hmost u hu
    · rw [List.count_eq_zero_of_not_mem hu]
      exact Nat.zero_le _
  · have hlater : ¬ row.idxOf u < i := by
      intro hlt
      obtain ⟨j, hj, rfl⟩ := List.mem_take_iff_getElem.1 ((List.mem_take_iff_idxOf_lt hu).2 hlt)
      exact hbefore j (by omega) (hcount.trans hbest)
    have hother : row.idxOf row[i] ≠ row.idxOf u := fun heq =>
      hne ((List.idxOf_inj hmem).1 heq).symm
    omega

theorem exists_winner (hrow : row ≠ []) :
    ∃ w, winnerOf (row.map k.value) = .ok (k.value w) ∧ Prevails row w := by
  have hlabels : (row.map k.value).all (fun v => v.label?.isSome) = true := by
    rw [List.all_map, List.all_eq_true]
    exact fun a _ => LabelKind.isSome_label? a
  have hmost : ∀ a ∈ row, row.count a ≤ mostVotes (row.map k.value) := fun a ha =>
    votes_value ha ▸ votes_le_mostVotes (List.mem_map_of_mem ha)
  cases hwinner : winner? (row.map k.value) with
  | none =>
    have hcells : row.map k.value ≠ [] := by simpa using hrow
    obtain ⟨v, hv, hvotes⟩ := exists_mostVotes hcells
    have hnone := List.findIdx?_eq_none_iff.1 hwinner v hv
    rw [hvotes, beq_self_eq_true] at hnone
    cases hnone
  | some i =>
    obtain ⟨hi, hbest, hbefore⟩ := List.findIdx?_eq_some_iff_getElem.1 hwinner
    have hi' : i < row.length := by rwa [List.length_map] at hi
    refine ⟨row[i], ?_, prevails_of_first hi' ?_ hmost fun j hj => ?_⟩
    · unfold winnerOf
      rw [if_pos hlabels, hwinner, Option.bind_some, List.getElem?_map,
        List.getElem?_eq_getElem hi']
      rfl
    · rw [List.getElem_map, votes_value (List.getElem_mem hi'), beq_iff_eq] at hbest
      exact hbest
    · have hj' := hbefore j hj
      rw [List.getElem_map, votes_value (List.getElem_mem _), beq_iff_eq] at hj'
      exact hj'

/-- In every place, the label that prevails among those that the ballots have there. -/
def Elects {α : Type} [DecidableEq α] (ballots : List (List α)) (winners : List α) : Prop :=
  ∀ (i : Nat) (w : α), winners[i]? = some w →
    ∃ row, List.Forall₂ (fun (ballot : List α) u => ballot[i]? = some u) ballots row ∧
      Prevails row w

/-- What the ballots have in one place. -/
def rowOf {α : Type} (ballots : List (List α)) (i : Nat) : List α := ballots.filterMap (·[i]?)

variable {ballots : List (List k.Item)} {F : Frame}

theorem forall₂_rowOf {α : Type} {ballots : List (List α)} {i : Nat}
    (h : ∀ b ∈ ballots, i < b.length) :
    List.Forall₂ (fun (ballot : List α) u => ballot[i]? = some u) ballots (rowOf ballots i) := by
  unfold rowOf
  induction ballots with
  | nil => exact .nil
  | cons b ballots ih =>
    rw [List.forall_mem_cons] at h
    rw [List.filterMap_cons, List.getElem?_eq_getElem h.1]
    exact .cons (List.getElem?_eq_getElem h.1) (ih h.2)

theorem rowCells_ballots (hcells : F.columns.map (·.cells) = ballots.map (List.map k.value)) :
    F.rowCells = (List.range F.rows).map fun i => (rowOf ballots i).map k.value := by
  unfold Frame.rowCells rowOf
  refine List.map_congr_left fun i _ => ?_
  calc F.columns.filterMap (fun c => c.cells[i]?)
      = (F.columns.map (·.cells)).filterMap (·[i]?) := by rw [List.filterMap_map]; rfl
    _ = (ballots.map (List.map k.value)).filterMap (·[i]?) := by rw [hcells]
    _ = (ballots.filterMap (·[i]?)).map k.value := by
      rw [List.filterMap_map, List.map_filterMap]
      simp only [Function.comp_def, List.getElem?_map]

/-- A frame of ballots has a winner in every row. -/
theorem ofFrame_ballots (hne : ballots ≠ [])
    (hcells : F.columns.map (·.cells) = ballots.map (List.map k.value))
    (hlength : ∀ b ∈ ballots, b.length = F.rows) :
    ∃ winners : List k.Item,
      ofFrame F = .ok ⟨Column.infer .null (winners.map k.value), F.index⟩ ∧
        winners.length = F.rows ∧ Elects ballots winners := by
  have : Nonempty k.Item := by cases k <;> exact ⟨default⟩
  have hrows : ∀ i < F.rows, List.Forall₂ (fun (ballot : List k.Item) u => ballot[i]? = some u)
      ballots (rowOf ballots i) := fun i hi =>
    forall₂_rowOf fun b hb => (hlength b hb).symm ▸ hi
  have hwinners : ∀ i ∈ List.range F.rows, ∃ w,
      winnerOf ((rowOf ballots i).map k.value) = .ok (k.value w) ∧
        Prevails (rowOf ballots i) w := by
    intro i hi
    apply exists_winner
    intro hnil
    have hrow := (hrows i (List.mem_range.1 hi)).length_eq
    rw [hnil, List.length_nil, List.length_eq_zero_iff] at hrow
    exact hne hrow
  choose! winner hwinner hprevails using hwinners
  refine ⟨(List.range F.rows).map winner, ?_, by simp, ?_⟩
  · have hall : ((List.range F.rows).map fun i => (rowOf ballots i).map k.value).mapM winnerOf =
        .ok ((List.range F.rows).map fun i => k.value (winner i)) := by
      rw [List.mapM_map]
      exact mapM_ok hwinner
    unfold ofFrame
    rw [rowCells_ballots hcells, hall, List.map_map]
    rfl
  · intro i w hw
    obtain ⟨hi, rfl⟩ := List.getElem?_eq_some_iff.1 hw
    have hlt : i < F.rows := by simpa using hi
    refine ⟨rowOf ballots i, hrows i hlt, ?_⟩
    rw [List.getElem_map, List.getElem_range]
    exact hprevails i (List.mem_range.2 hlt)

end Majority

/-! Columns of labels. -/

namespace Column

variable {cells : List Value} {l : Label}

theorem neverIfMissing_of_present (h : ∀ v ∈ cells, v.isMissing = false) :
    cells.map neverIfMissing = cells := by
  refine (List.map_congr_left fun v hv => ?_).trans (List.map_id _)
  rw [neverIfMissing, h v hv]
  rfl

/-- Objects that are all there are not changed. -/
theorem cells_ofObjects (h : ∀ v ∈ cells, v.isMissing = false) (l : Label) :
    (ofObjects l cells).cells = cells := by
  have habsent : cells.map absentIfMissing = cells :=
    (List.map_congr_left fun v hv => absentIfMissing_of_not_isMissing (by simp [h v hv])).trans
      (List.map_id _)
  unfold ofObjects
  repeat' split
  all_goals first | rfl | exact habsent | exact neverIfMissing_of_present h

/-- Nor are cells that are not taken for binary numbers. -/
theorem cells_infer (h : ∀ v ∈ cells, v.isMissing = false)
    (hnumbers : isNumerical cells = true →
      onlyKinds [.bool] cells = true ∨ onlyKinds [.int, .wide, .other] cells = true)
    (l : Label) : (infer l cells).cells = cells := by
  unfold infer
  split
  next hempty => exact (List.isEmpty_iff.1 hempty).symm
  split
  · rfl
  split
  · rfl
  split
  · rfl
  next hbool =>
  split
  · rfl
  next hwhole =>
  split
  next hnumerical => exact absurd (hnumbers hnumerical) (not_or.2 ⟨hbool, hwhole⟩)
  exact cells_ofObjects h l

theorem dtype_infer (cells : List Value) (l : Label) (kind : Dtype) (levels : List Value) :
    (infer l cells).dtype ≠ .category kind levels := by
  unfold infer ofObjects
  repeat' split
  all_goals simp

end Column

namespace LabelKind

variable {k : LabelKind} {c : Column}

theorem present (items : List k.Item) : ∀ v ∈ items.map k.value, v.isMissing = false := by
  intro v hv
  obtain ⟨a, -, rfl⟩ := List.mem_map.1 hv
  exact isMissing_value a

theorem cells_infer (items : List k.Item) (l : Label) :
    (Column.infer l (items.map k.value)).cells = items.map k.value := by
  refine Column.cells_infer (present items) (fun hnumbers => ?_) l
  cases k with
  | text =>
    cases items with
    | nil => cases hnumbers
    | cons a items => cases hnumbers
  | whole =>
    right
    refine List.all_eq_true.2 fun v hv => ?_
    obtain ⟨a, -, rfl⟩ := List.mem_map.1 hv
    change List.contains _ (CellKind.ofInt a) = true
    unfold CellKind.ofInt
    repeat' split
    all_goals rfl
  | truth =>
    left
    refine List.all_eq_true.2 fun v hv => ?_
    obtain ⟨a, -, rfl⟩ := List.mem_map.1 hv
    rfl

theorem cells_dissolve {items : List k.Item} (hcells : c.cells = items.map k.value)
    (hplain : ∀ kind levels, c.dtype ≠ .category kind levels) :
    (Series.dissolve c).cells = items.map k.value := by
  have hobjects := Column.cells_ofObjects (present items) c.label
  rw [← hcells] at hobjects ⊢
  unfold Series.dissolve
  split
  next kind levels hdtype => exact absurd hdtype (hplain kind levels)
  next => exact hobjects
  next => exact hobjects
  next => rfl

end LabelKind
end ColumnFlow
