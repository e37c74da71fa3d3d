import ColumnFlow.Proofs.Decimal.WholeNumbers
import ColumnFlow.Proofs.Frame.Picking

/-!
# What becomes of a target's cells

A target is made from the cells that its data shows, one by one and in their order. Missing cells
stay missing and all others stay as they are, except that whole numbers become binary numbers in a
category with missing cells. A target that was made is made of itself again, unless it is an array
of texts without any: then nothing tells that they were texts.
-/
namespace ColumnFlow

namespace Column

variable {c : Column} {v w : Value} {cells : List Value}

/-- Whether missing cells turn the whole numbers of a category into binary ones. -/
def widens (c : Column) : Bool :=
  match c.dtype with
  | .category .int64 _ | .category .int8 _ | .category .uint64 _ => c.cells.any Value.isMissing
  | _ => false

/-- What may become of a cell of a column: nothing but what the cell says, as far as binary numbers
tell whole numbers apart. -/
structure Keeps (c : Column) (v w : Value) : Prop where
  missing : w.isMissing = v.isMissing
  present : v.isMissing = false → w = v ∨
    c.widens = true ∧ ∃ n : Int, v = .int n ∧ w = .float (Float.ofInt n) ∧
      (n.natAbs ≤ 2 ^ 53 → w.sameLabel v = true)

theorem Keeps.refl (c : Column) (v : Value) : c.Keeps v v := ⟨rfl, fun _ => .inl rfl⟩

theorem sameLabel_float {n : Int} (hn : n.natAbs ≤ 2 ^ 53) :
    Value.sameLabel (.float (Float.ofInt n)) (.int n) = true := by
  have hkey : (Scalar.float (Float.ofInt n)).key = (Scalar.int n).key := by
    unfold Scalar.key Scalar.atoms
    rw [Decimal.exact_ofInt hn]
  change Scalar.same _ _ = true
  unfold Scalar.same
  rw [hkey, beq_self_eq_true]
  rfl

theorem keeps_widened (h : c.widens = true) (n : Int) : c.Keeps (.int n) (asFloat (.int n)) :=
  ⟨Decimal.isNaN_ofInt n, fun _ => .inr ⟨h, n, rfl, rfl, sameLabel_float⟩⟩

/-- Cells that only change where they are missing, and stay missing there. -/
theorem keeps_ite (hw : w.isMissing = true) : c.Keeps v (if v.isMissing then w else v) := by
  split
  · next hv => exact ⟨hw.trans hv.symm, fun hpresent => absurd (hv.symm.trans hpresent) (by decide)⟩
  · exact .refl c v

theorem keeps_map {f : Value → Value} (h : ∀ v ∈ cells, c.Keeps v (f v)) :
    List.Forall₂ c.Keeps cells (cells.map f) :=
  List.forall₂_map_right_iff.2 (List.forall₂_same.2 h)

theorem keeps_self (c : Column) (cells : List Value) : List.Forall₂ c.Keeps cells cells :=
  List.forall₂_same.2 fun v _ => .refl c v

theorem keeps_never (c : Column) (cells : List Value) :
    List.Forall₂ c.Keeps cells (cells.map neverIfMissing) :=
  keeps_map fun _ _ => keeps_ite rfl

theorem keeps_ofObjects (c : Column) (l : Label) (cells : List Value) :
    List.Forall₂ c.Keeps cells (ofObjects l cells).cells := by
  unfold ofObjects
  split
  · exact keeps_map fun _ _ => keeps_ite rfl
  · split
    · exact keeps_never c cells
    · split
      · exact keeps_never c cells
      · exact keeps_self c cells

theorem exists_number {kind : Dtype} (hv : kind.holds v = true) (hkind : kind.isNumeric = true) :
    (∃ x, v = .float x) ∨ kind ≠ .float64 ∧ ∃ n : Int, v = .int n := by
  unfold Dtype.holds at hv
  split at hv <;> simp_all [Dtype.isNumeric]

/-- Cells of a category of numbers become binary numbers. -/
theorem keeps_asFloat {kind : Dtype} {levels : List Value}
    (hv : (Dtype.category kind levels).holds v = true) (hkind : kind.isNumeric = true)
    (hwidens : kind ≠ .float64 → c.widens = true) : c.Keeps v (asFloat v) := by
  rcases holds_category hv with rfl | hv
  · exact ⟨by decide +kernel, fun hpresent => absurd hpresent (by decide)⟩
  · rcases exists_number hv hkind with ⟨x, rfl⟩ | ⟨hne, n, rfl⟩
    · exact .refl c _
    · exact keeps_widened (hwidens hne) n

/-- The plain column that a column stands for keeps its cells. -/
theorem keeps_dissolve (hc : ∀ kind levels, c.dtype = .category kind levels → c.Typed) :
    List.Forall₂ c.Keeps c.cells (Series.dissolve c).cells := by
  obtain ⟨l, dtype, cells⟩ := c
  cases dtype with
  | text | object => exact keeps_ofObjects _ l cells
  | category kind levels =>
    have htyped := hc kind levels rfl
    cases hmissing : cells.any Value.isMissing with
    | false =>
      cases kind with
      | datetime => exact keeps_never _ cells
      | text | object | category => exact keeps_ofObjects _ l cells
      | _ =>
        simp only [Series.dissolve, hmissing, Bool.false_eq_true, if_false]
        exact keeps_self _ cells
    | true =>
      cases kind with
      | int64 | int8 | uint64 | float64 =>
        simp only [Series.dissolve, hmissing, if_true]
        exact keeps_map fun v hv => keeps_asFloat (htyped v hv) rfl fun hne => by
          first | exact absurd rfl hne | exact hmissing
      | datetime => exact keeps_never _ cells
      | bool =>
        simp only [Series.dissolve, hmissing, if_true]
        exact keeps_ofObjects _ l cells
      | text | object | category => exact keeps_ofObjects _ l cells
  | _ => exact keeps_self _ cells

end Column

namespace Grid

/-- Cells of a grid's kind: texts where it is the kind of texts. A grid has no categories. -/
def IsPlain (kind : Dtype) (cells : List Value) : Prop :=
  match kind with
  | .text => AllOf .text cells
  | .category .. => False
  | _ => True

theorem allOf_paddedText (cells : List Value) : AllOf .text (cells.map paddedText) := by
  intro v hv
  obtain ⟨u, -, rfl⟩ := List.mem_map.1 hv
  rfl

theorem unify_isPlain (cells : List Value) :
    IsPlain (unify cells).1 (unify cells).2 ∧ ((unify cells).1 = .text → (unify cells).2 ≠ []) := by
  unfold unify
  repeat' split
  all_goals first | exact ⟨trivial, nofun⟩ | skip
  next hempty _ _ _ _ _ =>
    refine ⟨allOf_paddedText cells, fun _ hnil => hempty ?_⟩
    rw [List.map_eq_nil_iff.1 hnil]
    rfl

theorem cast_isPlain {dtype : String} {cells : List Value} {kind : Dtype} {cast : List Value}
    (h : Grid.cast dtype cells = .ok (kind, cast)) :
    IsPlain kind cast ∧ (kind = .text → dtype = "str") := by
  unfold Grid.cast at h
  split at h
  all_goals try
    obtain ⟨_, -, h⟩ := Except.exists_of_bind h
  all_goals cases h
  all_goals first | exact ⟨trivial, nofun⟩ | exact ⟨allOf_paddedText cells, fun _ => rfl⟩

/-- What a grid holds, and when it can be one of texts without holding any. -/
theorem ofValue_isPlain {v : Value} {dtype : Option String} {g : Grid}
    (h : ofValue v dtype = .ok g) :
    IsPlain g.dtype g.cells ∧ (g.dtype = .text → g.cells ≠ [] ∨ dtype = some "str") := by
  unfold ofValue at h
  split at h
  · cases h
    have hunify := unify_isPlain (leaves v)
    exact ⟨hunify.1, fun htext => .inl (hunify.2 htext)⟩
  · obtain ⟨⟨kind, cells⟩, hcast, h⟩ := Except.exists_of_bind h
    cases h
    have hplain := cast_isPlain hcast
    exact ⟨hplain.1, fun htext => .inr (congrArg some (hplain.2 htext))⟩
  · cases h
    exact ⟨trivial, nofun⟩
  · cases h

/-- A column of a grid stands for itself. -/
theorem dissolve_column {kind : Dtype} {cells : List Value} (l : Label) (h : IsPlain kind cells)
    (hne : kind = .text → cells ≠ []) :
    Series.dissolve (column l kind cells) = column l kind cells := by
  cases kind with
  | object => exact Series.dissolve_ofObjects l cells
  | text => exact AllOf.ofObjects h .text (hne rfl)
  | category => exact h.elim
  | _ => rfl

end Grid

namespace Data

/-- The column that a target of some form shows: that of a series, the only one of a frame, and the
cells of a list or an array of one dimension. -/
inductive Shows : Data → Column → Prop
  | series (s : Series) : Shows (.series s) s.column
  | frame (index : List Label) (c : Column) : Shows (.frame ⟨index, [c]⟩) c
  | array {v : Value} {dtype : Option String} {g : Grid} {rows : Nat}
    (hgrid : Grid.ofValue v dtype = .ok g) (hshape : g.shape = [rows]) :
    Shows (.array v dtype) ⟨.text "target", g.dtype, g.cells⟩
  | plain {v : Value} {g : Grid} {rows : Nat} (hgrid : Grid.ofValue v none = .ok g)
    (hshape : g.shape = [rows]) : Shows (.plain v) ⟨.text "target", g.dtype, g.cells⟩

variable {d : Data} {X Z : Frame} {r s : Series} {c : Column}

/-- A target for some features is made from a series with as many rows. -/
theorem exists_series (h : d.toTarget X = .ok (some r)) :
    ∃ s, d.toSeries = .ok (some s) ∧ X.rows = s.rows ∧ r = ⟨d.settle s.column, X.index⟩ := by
  cases hs : d.toSeries with
  | error e =>
    unfold toTarget at h
    rw [hs] at h
    cases h
  | ok s =>
    cases s with
    | none =>
      rw [toTarget_none hs] at h
      cases h
    | some s =>
      rw [toTarget_some hs] at h
      unfold checkLengths at h
      split at h
      · next hrows =>
        cases h
        exact ⟨s, rfl, hrows, rfl⟩
      · cases h

/-- A target that stands for itself is made of itself for any features with as many rows. -/
theorem toTarget_again (hrows : Z.rows = r.rows) (hr : Series.dissolve r.column = r.column) :
    (series r).toTarget Z = .ok (some (r.withIndex Z.index)) := by
  change alignTarget (some r) Z = _
  rw [alignTarget_some, checkLengths, if_pos hrows, hr]
  rfl

/-- The column of a target stands for the same as the column that it was made from. -/
theorem dissolve_settle (d : Data) (c : Column) :
    Series.dissolve (d.settle c) = Series.dissolve c := by
  cases d <;> first | rfl | exact Series.dissolve_dissolve c

theorem length_settle (d : Data) (c : Column) : (d.settle c).cells.length = c.cells.length := by
  cases d <;> first | rfl | exact Series.length_dissolve c

theorem toSeries_grid {g : Grid} (h : g.toSeries = .ok s) :
    (∃ rows, g.shape = [rows]) ∧ s.column = Grid.column (.text "target") g.dtype g.cells := by
  unfold Grid.toSeries at h
  split at h
  · next rows hshape =>
    cases h
    exact ⟨⟨rows, hshape⟩, rfl⟩
  · cases h

/-- What the column that data shows comes to in a target: its plain column, or its objects looked at
again where it is a grid. -/
inductive Settles (d : Data) : Column → Column → Prop
  | dissolved (c : Column) : Settles d c (Series.dissolve c)
  | looked {l : Label} {kind : Dtype} {cells : List Value} (hplain : Grid.IsPlain kind cells)
    (htext : kind = .text → cells ≠ [] ∨ ∃ v, d = .array v (some "str")) :
    Settles d ⟨l, kind, cells⟩ (Grid.column l kind cells)

/-- A target comes from the column that its data shows. -/
theorem exists_shown (h : d.toSeries = .ok (some s)) :
    ∃ c, d.Shows c ∧ d.Settles c (d.settle s.column) := by
  have hgrid : ∀ {v dtype} {g : Grid}, Grid.ofValue v dtype = .ok g → g.toSeries = .ok s →
      (dtype = some "str" → d = .array v (some "str")) →
      Settles d ⟨.text "target", g.dtype, g.cells⟩ s.column := fun hg hs hd => by
    obtain ⟨hplain, htext⟩ := Grid.ofValue_isPlain hg
    rw [(toSeries_grid hs).2]
    exact .looked hplain fun hkind => (htext hkind).imp_right fun hstr => ⟨_, hd hstr⟩
  cases d with
  | series t =>
    cases h
    exact ⟨_, .series s, .dissolved _⟩
  | frame t =>
    obtain ⟨index, columns⟩ := t
    simp only [toSeries] at h
    split at h
    · next c =>
      cases h
      exact ⟨c, .frame index c, .dissolved c⟩
    · cases h
  | mapping => cases h
  | array v dtype =>
    simp only [toSeries] at h
    obtain ⟨g, hg, h⟩ := Except.exists_of_bind h
    obtain ⟨t, ht, h⟩ := Except.exists_of_bind h
    cases h
    obtain ⟨rows, hshape⟩ := (toSeries_grid ht).1
    exact ⟨_, .array hg hshape, hgrid hg ht fun hstr => by rw [hstr]⟩
  | plain v =>
    simp only [toSeries] at h
    split at h
    · cases h
    · obtain ⟨g, hg, h⟩ := Except.exists_of_bind h
      obtain ⟨t, ht, h⟩ := Except.exists_of_bind h
      cases h
      obtain ⟨rows, hshape⟩ := (toSeries_grid ht).1
      exact ⟨_, .plain hg hshape, hgrid hg ht nofun⟩

namespace Settles

variable {settled : Column}

theorem label_eq (h : d.Settles c settled) : settled.label = c.label := by
  have hobjects : ∀ l cells, (Column.ofObjects l cells).label = l := fun l cells => by
    unfold Column.ofObjects
    repeat' split
    all_goals rfl
  cases h with
  | dissolved =>
    unfold Series.dissolve
    repeat' split
    all_goals first | rfl | exact hobjects _ _
  | looked =>
    unfold Grid.column
    split
    · exact hobjects _ _
    · rfl

theorem keeps (h : d.Settles c settled)
    (hc : ∀ kind levels, c.dtype = .category kind levels → c.Typed) :
    List.Forall₂ c.Keeps c.cells settled.cells := by
  cases h with
  | dissolved => exact Column.keeps_dissolve hc
  | looked =>
    unfold Grid.column
    split
    · exact Column.keeps_ofObjects _ _ _
    · exact Column.keeps_self _ _

/-- A target stands for itself, unless it was made of an array of texts and has none. -/
theorem dissolve_eq (h : d.Settles c settled)
    (hne : (∃ v, d = .array v (some "str")) → settled.cells ≠ []) :
    Series.dissolve settled = settled := by
  cases h with
  | dissolved => exact Series.dissolve_dissolve c
  | @looked l kind cells hplain htext =>
    refine Grid.dissolve_column l hplain fun hkind => ?_
    subst hkind
    exact (htext rfl).elim id hne

end Settles

/-- An array of texts without any is a target of texts, and that target is none the second time. -/
theorem toTarget_no_texts {v : Value} (h : (array v (some "str")).toTarget X = .ok (some r))
    (hrows : X.rows = 0) : r.column = ⟨.text "target", .text, []⟩ ∧
      Series.dissolve r.column = ⟨.text "target", .object, []⟩ := by
  obtain ⟨s, hs, hlength, rfl⟩ := exists_series h
  simp only [toSeries] at hs
  obtain ⟨g, hg, hs⟩ := Except.exists_of_bind hs
  obtain ⟨t, ht, hs⟩ := Except.exists_of_bind hs
  cases hs
  have hkind : g.dtype = .text := by
    unfold Grid.ofValue at hg
    cases hshape : Grid.shapeOf v <;> rw [hshape] at hg <;> cases hg
    rfl
  have hcolumn : s.column = ⟨.text "target", .text, []⟩ := by
    have hnil : s.column.cells = [] := List.length_eq_zero_iff.1 (hlength.symm.trans hrows)
    rw [(toSeries_grid ht).2, hkind] at hnil ⊢
    exact congrArg (Column.mk _ _) hnil
  unfold settle
  dsimp only
  rw [hcolumn]
  exact ⟨rfl, rfl⟩

end Data
end ColumnFlow
