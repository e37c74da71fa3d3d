import ColumnFlow.Proofs.Frame.Alignment
import Mathlib.Data.List.Basic

/-!
# Slices of targets

A target is turned into a plain one as a whole, before any rows are taken from it, and a slice of it
is turned once more. What a slice comes to in the end depends on cells outside of it only where these
decide between kinds that its own cells leave open: whole numbers and truth values make room for
missing cells anywhere in a column of categories, and objects that are all missing in the slice are
missing texts, missing moments or objects by what the others are.
-/
namespace ColumnFlow

theorem pick_eq {α : Type} (positions : List Nat) (items : List α) :
    pick positions items = positions.filterMap fun i => items[i]? := by
  unfold pick
  simp only [List.getElem?_toArray]

theorem pick_map {α β : Type} (positions : List Nat) (items : List α) (f : α → β) :
    pick positions (items.map f) = (pick positions items).map f := by
  rw [pick_eq, pick_eq, List.map_filterMap]
  simp only [List.getElem?_map]

theorem mem_of_mem_pick {α : Type} {positions : List Nat} {items : List α} {a : α}
    (h : a ∈ pick positions items) : a ∈ items := by
  rw [pick_eq] at h
  obtain ⟨i, -, hi⟩ := List.mem_filterMap.1 h
  exact List.mem_of_getElem? hi

/-- Rows are taken alike from lists that agree on them. -/
theorem pick_congr {α : Type} {positions : List Nat} {items items' : List α}
    (h : ∀ i ∈ positions, items[i]? = items'[i]?) : pick positions items = pick positions items' := by
  rw [pick_eq, pick_eq]
  exact List.filterMap_congr h

/-! What columns can hold. -/

namespace Dtype

/-- Whether a cell can stand in a column. A missing category is `absent`, and categories are no
categories themselves. -/
def holds : Dtype → Value → Bool
  | .category (.category _ _) _, _ => false
  | .int64, .scalar (.int _) | .int8, .scalar (.int _) | .uint64, .scalar (.int _) => true
  | .float64, .scalar (.float _) => true
  | .bool, .scalar (.bool _) => true
  | .text, .scalar (.text _) | .text, .scalar .absent => true
  | .object, _ => true
  | .category _ _, .scalar .absent => true
  | .category kind _, v => kind.holds v
  | .datetime _, .scalar (.moment _) | .datetime _, .scalar .never => true
  | _, _ => false

/-- Whether cells are turned into others when some are missing. -/
def isNarrow : Dtype → Bool
  | .category .int64 _ | .category .int8 _ | .category .uint64 _ | .category .bool _ => true
  | _ => false

/-- Whether cells can be of any kind. -/
def isLoose : Dtype → Bool
  | .object | .category .object _ => true
  | _ => false

end Dtype

namespace Column

def Typed (c : Column) : Prop := ∀ v ∈ c.cells, c.dtype.holds v = true

instance (c : Column) : Decidable c.Typed :=
  inferInstanceAs (Decidable (∀ v ∈ c.cells, c.dtype.holds v = true))

/-- Cells that a column of texts or objects leaves as they are, whatever stands beside them. -/
def Firm (v : Value) : Prop := absentIfMissing v = v ∧ CellKind.of v ≠ .moment

variable {l : Label} {cells : List Value} {positions : List Nat} {c c' : Column}

theorem not_firm_of_never {v : Value} (h : CellKind.of v = .never) : ¬Firm v := by
  unfold CellKind.of at h
  split at h
  case h_3 => exact fun hfirm => Value.noConfusion hfirm.1 fun hs => Scalar.noConfusion hs
  case h_5 n =>
    unfold CellKind.ofInt at h
    split at h <;> try split at h
    all_goals cases h
  all_goals cases h

/-- A slice of objects, which is turned into a plain column once more. -/
def again (l : Label) (cells : List Value) (positions : List Nat) : Column :=
  Series.dissolve ((ofObjects l cells).takeRows positions)

theorem again_eq (l : Label) (cells : List Value) (positions : List Nat) :
    again l cells positions =
      if isTextual cells then ofObjects l ((pick positions cells).map absentIfMissing)
      else if isTemporal cells then
        ⟨l, .datetime .nanoseconds, (pick positions cells).map neverIfMissing⟩
      else if isNever cells then
        ⟨l, .datetime .seconds, (pick positions cells).map neverIfMissing⟩
      else ofObjects l (pick positions cells) := by
  unfold again ofObjects
  split
  · simp only [takeRows, Series.dissolve, pick_map]
    rfl
  · split
    · simp only [takeRows, Series.dissolve, pick_map]
    · split
      · simp only [takeRows, Series.dissolve, pick_map]
      · rfl

/-- Cells that others leave as they are are not turned. -/
theorem again_of_firm (h : ∀ v ∈ cells, Firm v) :
    again l cells positions = ofObjects l (pick positions cells) := by
  have hsame : (pick positions cells).map absentIfMissing = pick positions cells := by
    rw [List.map_congr_left (g := id) fun v hv => (h v (mem_of_mem_pick hv)).1, List.map_id]
  have hmoment : isTemporal cells = false := by
    unfold isTemporal hasKind
    rw [Bool.and_eq_false_iff]
    refine .inl (List.any_eq_false.2 fun v hv => ?_)
    simpa using (h v hv).2
  have hnever : isNever cells = false := by
    unfold isNever hasKind
    rw [Bool.and_eq_false_iff]
    refine .inl (List.any_eq_false.2 fun v hv hkind => ?_)
    exact not_firm_of_never (beq_iff_eq.1 hkind) (h v hv)
  rw [again_eq, hsame, hmoment, hnever]
  split <;> rfl

theorem isTextual_pick {v : Value} (htext : isTextual cells = true) (hv : v ∈ pick positions cells)
    (hmissing : v.isMissing = false) : isTextual (pick positions cells) = true := by
  unfold isTextual hasKind at htext ⊢
  simp only [Bool.and_eq_true, List.any_eq_true, List.all_eq_true] at htext ⊢
  refine ⟨⟨v, hv, ?_⟩, fun u hu => htext.2 u (mem_of_mem_pick hu)⟩
  simpa [hmissing] using htext.2 v (mem_of_mem_pick hv)

theorem isTemporal_pick {v : Value} (htime : isTemporal cells = true)
    (hv : v ∈ pick positions cells) (hmissing : v.isMissing = false) :
    isTemporal (pick positions cells) = true ∧ isTextual (pick positions cells) = false := by
  unfold isTemporal hasKind at htime ⊢
  simp only [Bool.and_eq_true, List.any_eq_true, List.all_eq_true] at htime ⊢
  have hmoment : CellKind.of v = .moment := by
    simpa [hmissing] using htime.2 v (mem_of_mem_pick hv)
  refine ⟨⟨⟨v, hv, beq_iff_eq.2 hmoment⟩, fun u hu => htime.2 u (mem_of_mem_pick hu)⟩, ?_⟩
  unfold isTextual
  rw [Bool.and_eq_false_iff]
  refine .inr (List.all_eq_false.2 ⟨v, hv, ?_⟩)
  simp [hmoment, hmissing]

/-- A cell that is not missing tells what the cells of a slice are. -/
theorem again_of_present {v : Value} (hv : v ∈ pick positions cells)
    (hmissing : v.isMissing = false) :
    again l cells positions = ofObjects l (pick positions cells) := by
  rw [again_eq]
  split
  · have htext := isTextual_pick ‹_› hv hmissing
    have hagain := isTextual_map_absentIfMissing htext
    simp only [ofObjects, htext, hagain, if_true, List.map_map]
    congr 2
    funext u
    exact absentIfMissing_absentIfMissing u
  · split
    · obtain ⟨htime, htext⟩ := isTemporal_pick ‹_› hv hmissing
      simp only [ofObjects, htext, htime, Bool.false_eq_true, if_true, if_false]
    · split
      · next hnever =>
        have hall := List.all_eq_true.1 (Bool.and_eq_true_iff.1 hnever).2 v (mem_of_mem_pick hv)
        exact absurd hall (by simp [hmissing])
      · rfl

/-- The kind of a whole column tells what the cells of a slice are. -/
theorem again_of_dtype {cells' : List Value}
    (hdtype : (ofObjects l cells).dtype = (ofObjects l cells').dtype)
    (hpick : pick positions cells = pick positions cells') :
    again l cells positions = again l cells' positions := by
  rw [again_eq, again_eq, hpick]
  unfold ofObjects at hdtype
  cases htext : isTextual cells <;> cases htext' : isTextual cells' <;>
    cases htime : isTemporal cells <;> cases htime' : isTemporal cells' <;>
    cases hnever : isNever cells <;> cases hnever' : isNever cells' <;> simp_all

/-! Slices of two targets. -/

/-- Two columns of one kind whose cells are the same at some positions. -/
structure AgreeAt (positions : List Nat) (c c' : Column) : Prop where
  label : c.label = c'.label
  dtype : c.dtype = c'.dtype
  cells : ∀ i ∈ positions, c.cells[i]? = c'.cells[i]?

/-- What cells outside of a slice decide is decided alike for two targets: whether whole numbers and
truth values make room for missing cells, and what objects are that are all missing in the slice. -/
structure Settled (positions : List Nat) (c c' : Column) : Prop where
  narrow : c.dtype.isNarrow = true → c.cells.any Value.isMissing = c'.cells.any Value.isMissing
  loose : c.dtype.isLoose = true →
    (Series.dissolve c).dtype = (Series.dissolve c').dtype ∨
      ∃ v ∈ pick positions c.cells, v.isMissing = false

theorem holds_category {kind : Dtype} {levels : List Value} {v : Value}
    (h : (Dtype.category kind levels).holds v = true) :
    v = .scalar .absent ∨ kind.holds v = true := by
  unfold Dtype.holds at h
  split at h <;> simp_all

theorem firm_of_holds {kind : Dtype} {v : Value}
    (hkind : kind = .text ∨ kind = .bool) (h : kind.holds v = true) : Firm v := by
  rcases hkind with rfl | rfl <;> unfold Dtype.holds at h <;> split at h <;>
    first | contradiction | exact ⟨rfl, by simp [CellKind.of]⟩

theorem firm_category {kind : Dtype} {levels : List Value} {v : Value}
    (hkind : kind = .text ∨ kind = .bool)
    (h : (Dtype.category kind levels).holds v = true) : Firm v := by
  rcases holds_category h with rfl | h
  · exact ⟨rfl, by decide⟩
  · exact firm_of_holds hkind h

/-- A column of categories that are binary numbers is one of binary numbers. -/
theorem dissolve_float {levels : List Value} (h : Typed ⟨l, .category .float64 levels, cells⟩) :
    Series.dissolve ⟨l, .category .float64 levels, cells⟩ = ⟨l, .float64, cells.map asFloat⟩ := by
  unfold Series.dissolve
  dsimp only
  split
  · rfl
  · rename_i hmissing
    have hsame : cells.map asFloat = cells := by
      refine List.map_congr_left (g := id) (fun v hv => ?_) |>.trans (List.map_id _)
      rcases holds_category (h v hv) with rfl | hv'
      · exact absurd (List.any_eq_true.2 ⟨_, hv, rfl⟩) hmissing
      · unfold Dtype.holds at hv'
        split at hv' <;> simp_all [asFloat, Value.number?, Scalar.number?]
    rw [hsame]

/-- A slice of a target that was turned into a plain column comes to the same as the slice of
another one that agrees with it there. -/
theorem dissolve_takeRows (h : AgreeAt positions c c') (hc : c.Typed) (hc' : c'.Typed)
    (hsettled : Settled positions c c') :
    Series.dissolve ((Series.dissolve c).takeRows positions) =
      Series.dissolve ((Series.dissolve c').takeRows positions) := by
  obtain ⟨l, dtype, cells⟩ := c
  obtain ⟨l', dtype', cells'⟩ := c'
  obtain ⟨rfl, rfl, hcells⟩ := h
  have hpick := pick_congr hcells
  dsimp only at hpick
  -- What is settled is needed for objects and for categories of whole numbers or truth values.
  cases dtype with
  | int64 | int8 | uint64 | float64 | bool | datetime =>
    exact congrArg (fun cells => Series.dissolve ⟨l, _, cells⟩) hpick
  | text =>
    change again l cells positions = again l cells' positions
    rw [again_of_firm fun v hv => firm_of_holds (.inl rfl) (hc v hv),
      again_of_firm fun v hv => firm_of_holds (.inl rfl) (hc' v hv), hpick]
  | object =>
    change again l cells positions = again l cells' positions
    rcases hsettled.loose rfl with hdtype | ⟨v, hv, hmissing⟩
    · exact again_of_dtype hdtype hpick
    · rw [again_of_present hv hmissing, again_of_present (hpick ▸ hv) hmissing, hpick]
  | category kind levels =>
    cases kind with
    | text =>
      change again l cells positions = again l cells' positions
      rw [again_of_firm fun v hv => firm_category (by simp) (hc v hv),
        again_of_firm fun v hv => firm_category (by simp) (hc' v hv), hpick]
    | object =>
      change again l cells positions = again l cells' positions
      rcases hsettled.loose rfl with hdtype | ⟨v, hv, hmissing⟩
      · exact again_of_dtype hdtype hpick
      · rw [again_of_present hv hmissing, again_of_present (hpick ▸ hv) hmissing, hpick]
    | float64 =>
      rw [dissolve_float hc, dissolve_float hc']
      simp only [takeRows, pick_map, hpick]
    | datetime p => simp only [Series.dissolve, takeRows, pick_map, hpick]
    | int64 | int8 | uint64 =>
      have hmissing : cells.any Value.isMissing = cells'.any Value.isMissing := hsettled.narrow rfl
      cases hany : cells'.any Value.isMissing <;>
        simp only [Series.dissolve, hmissing, hany, Bool.false_eq_true, if_true, if_false,
          takeRows, pick_map, hpick]
    | bool =>
      have hmissing : cells.any Value.isMissing = cells'.any Value.isMissing := hsettled.narrow rfl
      cases hany : cells'.any Value.isMissing with
      | false =>
        simp only [Series.dissolve, hmissing, hany, Bool.false_eq_true, if_false, takeRows, hpick]
      | true =>
        have hagain : again l cells positions = again l cells' positions := by
          rw [again_of_firm fun v hv => firm_category (by simp) (hc v hv),
            again_of_firm fun v hv => firm_category (by simp) (hc' v hv), hpick]
        unfold again at hagain
        simpa only [Series.dissolve, hmissing, hany, if_true] using hagain
    | category kind levels' =>
      have hnone : ∀ {cells}, Typed ⟨l, .category (.category kind levels') levels, cells⟩ →
          cells = [] := fun h => List.eq_nil_iff_forall_not_mem.2 fun v hv =>
        absurd (h v hv) Bool.false_ne_true
      rw [hnone hc, hnone hc']

end Column
end ColumnFlow
