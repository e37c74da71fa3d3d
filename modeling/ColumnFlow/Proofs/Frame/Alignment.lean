import ColumnFlow.Frame.Coercion

/-!
# Alignment and own columns

Aligning a target settles its kind, so that every later alignment sees the same target as if it had
not been aligned before. And a frame has all of its own columns, whatever their labels are.
-/
namespace ColumnFlow

namespace Column

variable {label : Label} {cells : List Value}

theorem absentIfMissing_of_isMissing {v : Value} (h : v.isMissing = true) :
    absentIfMissing v = .scalar .absent := if_pos h

theorem absentIfMissing_of_not_isMissing {v : Value} (h : ¬v.isMissing = true) :
    absentIfMissing v = v := if_neg h

theorem absentIfMissing_absentIfMissing (v : Value) :
    absentIfMissing (absentIfMissing v) = absentIfMissing v := by
  by_cases h : v.isMissing = true
  · rw [absentIfMissing_of_isMissing h]
    rfl
  · rw [absentIfMissing_of_not_isMissing h, absentIfMissing_of_not_isMissing h]

theorem not_isMissing_of_text {v : Value} (h : CellKind.of v = .text) : ¬v.isMissing = true := by
  intro hmissing
  unfold CellKind.of at h
  split at h <;> simp_all [Value.isMissing, Scalar.isMissing]

/-- Texts stay textual when missing cells among them become missing texts. -/
theorem isTextual_map_absentIfMissing (h : isTextual cells = true) :
    isTextual (cells.map absentIfMissing) = true := by
  unfold isTextual hasKind at h ⊢
  simp only [Bool.and_eq_true, List.any_eq_true, List.all_eq_true, List.mem_map] at h ⊢
  obtain ⟨⟨v, hv, htext⟩, hall⟩ := h
  refine ⟨⟨v, ⟨v, hv, ?_⟩, htext⟩, ?_⟩
  · exact absentIfMissing_of_not_isMissing (not_isMissing_of_text (eq_of_beq htext))
  · rintro _ ⟨u, hu, rfl⟩
    by_cases hmissing : u.isMissing = true
    · rw [absentIfMissing_of_isMissing hmissing]
      rfl
    · rw [absentIfMissing_of_not_isMissing hmissing]
      exact hall u hu

end Column

namespace Series

theorem length_ofObjects (label : Label) (cells : List Value) :
    (Column.ofObjects label cells).cells.length = cells.length := by
  unfold Column.ofObjects
  repeat' split
  all_goals first | rfl | exact List.length_map _

theorem length_dissolve (c : Column) : (dissolve c).cells.length = c.cells.length := by
  unfold dissolve
  repeat' split
  all_goals first | rfl | exact List.length_map _ | exact length_ofObjects _ _

theorem dissolve_ofObjects (label : Label) (cells : List Value) :
    dissolve (Column.ofObjects label cells) = Column.ofObjects label cells := by
  by_cases htext : Column.isTextual cells = true
  · have hcells : Column.ofObjects label cells = ⟨label, .text, cells.map Column.absentIfMissing⟩ :=
      if_pos htext
    rw [hcells]
    have hagain := Column.isTextual_map_absentIfMissing htext
    simp only [dissolve, Column.ofObjects, hagain, if_true, List.map_map]
    congr 2
    funext v
    exact Column.absentIfMissing_absentIfMissing v
  · by_cases htime : Column.isTemporal cells = true
    · simp only [Column.ofObjects, htext, htime, if_true, Bool.false_eq_true, if_false, dissolve]
    · by_cases hnever : Column.isNever cells = true <;>
        simp only [Column.ofObjects, htext, htime, hnever, if_true, Bool.false_eq_true, if_false,
          dissolve]

/-- A column that stands for itself needs no other. -/
theorem dissolve_dissolve (c : Column) : dissolve (dissolve c) = dissolve c := by
  rcases c with ⟨label, dtype, cells⟩
  by_cases h : cells.any Value.isMissing = true
  all_goals
    cases dtype with
    | text | object => exact dissolve_ofObjects label cells
    | category kind levels =>
      cases kind <;> simp only [dissolve, h, if_true, if_false, Bool.false_eq_true]
      all_goals exact dissolve_ofObjects label cells
    | _ => rfl

end Series

/-- A target that was aligned once is aligned with other features like the target it came from. -/
theorem alignTarget_alignTarget {y y' : Option Series} {X : Frame} (h : alignTarget y X = .ok y')
    (Z : Frame) : alignTarget y' Z = alignTarget y Z := by
  cases y with
  | none =>
    cases h
    rfl
  | some s =>
    simp only [alignTarget, Series.align] at h
    cases hlen : checkLengths X s.rows with
    | error e =>
      rw [hlen] at h
      cases h
    | ok _ =>
      rw [hlen] at h
      cases h
      simp only [alignTarget, Series.align, Series.rows, Series.length_dissolve,
        Series.dissolve_dissolve]

theorem alignTarget_some (s : Series) (X : Frame) : alignTarget (some s) X =
    checkLengths X s.rows >>= fun _ => .ok (some ⟨Series.dissolve s.column, X.index⟩) := by
  change (s.align X).map some = _
  unfold Series.align
  cases checkLengths X s.rows <;> rfl

namespace Data

variable {d : Data} {y : Option Series} {s : Series} {X : Frame} {e : Failure}

/-- What the column of a target comes to. -/
def settle (d : Data) (c : Column) : Column :=
  match d with
  | .array .. | .plain .. => c
  | _ => Series.dissolve c

theorem toTarget_none (h : d.toSeries = .ok none) (X : Frame) : d.toTarget X = .ok none := by
  unfold toTarget
  rw [h]
  cases d <;> rfl

theorem toTarget_some (h : d.toSeries = .ok (some s)) (X : Frame) : d.toTarget X =
    checkLengths X s.rows >>= fun _ => .ok (some ⟨d.settle s.column, X.index⟩) := by
  have hplaced : (some s).mapM (·.place X) =
      checkLengths X s.rows >>= fun _ => .ok (some ⟨s.column, X.index⟩) := by
    change some <$> s.place X = _
    unfold Series.place
    cases checkLengths X s.rows <;> rfl
  unfold toTarget
  rw [h]
  cases d with
  | array | plain => exact hplaced
  | _ => exact alignTarget_some s X

/-- A target is refused like the series that it is made from. -/
theorem toTarget_refused (hy : d.toSeries = .ok y) (h : alignTarget y X = .error e) :
    d.toTarget X = .error e := by
  cases y with
  | none => cases h
  | some s =>
    rw [alignTarget_some] at h
    rw [toTarget_some hy]
    cases hlengths : checkLengths X s.rows with
    | error => rwa [hlengths] at h
    | ok => rw [hlengths] at h; cases h

end Data

namespace Frame

variable {X : Frame} {l : Label}

theorem finds_self (l : Label) : l.finds l = true := by
  unfold Label.finds
  rw [beq_self_eq_true, Bool.true_or]

/-- Labels can be asked for each of them. -/
theorem accepts_of_mem {labels : List Label} (h : l ∈ labels) : Labels.accepts labels l = true := by
  unfold Labels.accepts
  split
  · next hbool => exact List.all_eq_true.1 hbool l h
  · split
    · next hnumber =>
      have hl := List.all_eq_true.1 hnumber l h
      cases l <;> first | rfl | exact absurd hl Bool.false_ne_true
    · rfl

theorem has_of_mem (h : l ∈ X.labels) : X.has l = true := by
  unfold has Labels.foundAlone
  refine List.any_eq_true.2 ⟨l, h, ?_⟩
  have hkept : (l.isNull && (X.labels.all fun l => l.isText || l.isNotANumber) &&
      X.labels.any Label.isText) = false := by
    cases hnull : l.isNull with
    | false => rfl
    | true =>
      -- Where null is a label, the labels are not all texts.
      have htexts : (X.labels.all fun l => l.isText || l.isNotANumber) = false := by
        refine List.all_eq_false.2 ⟨l, h, ?_⟩
        cases l <;> first | exact Bool.false_ne_true | exact absurd hnull Bool.false_ne_true
      rw [htexts]
      rfl
  rw [hkept]
  simp only [Bool.false_eq_true, if_false, Labels.found, accepts_of_mem h, if_true, finds_self]

/-- No frame lacks its own columns. -/
theorem all_has_labels (X : Frame) : X.labels.all X.has = true :=
  List.all_eq_true.2 fun _ hl => has_of_mem hl

end Frame
end ColumnFlow
