import ColumnFlow.Frame.Coercion
import ColumnFlow.Frame.Majority
import ColumnFlow.Numbers.RowMeans
import ColumnFlow.Proofs.Frame.Slicing
import ColumnFlow.Proofs.Frame.Within

/-!
# Taking rows

Rows of a frame in any order and with repeats, but at least one. What is computed row by row of a
frame is computed row by row of the rows that are taken from it. A column that is built from cells
has the kind that they call for, so the kind stays the same where all cells are texts, or whole
numbers of 64 bits with a sign.
-/
namespace ColumnFlow

section Lists

variable {α β ε : Type} {xs ys : List α} {ps : List Nat}

theorem pick_cons {i : Nat} (hi : i < xs.length) (ps : List Nat) :
    pick (i :: ps) xs = xs[i] :: pick ps xs := by
  rw [pick_eq, pick_eq, List.filterMap_cons, List.getElem?_eq_getElem hi]

theorem length_pick_of_lt (h : ∀ i ∈ ps, i < xs.length) : (pick ps xs).length = ps.length := by
  induction ps with
  | nil => rfl
  | cons i ps ih =>
    rw [List.forall_mem_cons] at h
    rw [pick_cons h.1, List.length_cons, List.length_cons, ih h.2]

theorem pick_ne_nil (hps : ps ≠ []) (h : ∀ i ∈ ps, i < xs.length) : pick ps xs ≠ [] := by
  rw [← List.length_pos_iff, length_pick_of_lt h]
  exact List.length_pos_iff.2 hps

theorem getElem?_pick (h : ∀ i ∈ ps, i < xs.length) (j : Nat) :
    (pick ps xs)[j]? = ps[j]?.bind (xs[·]?) := by
  induction ps generalizing j with
  | nil => rfl
  | cons i ps ih =>
    rw [List.forall_mem_cons] at h
    rw [pick_cons h.1]
    cases j with
    | zero =>
      rw [List.getElem?_cons_zero, List.getElem?_cons_zero, Option.bind_some,
        List.getElem?_eq_getElem h.1]
    | succ j => rw [List.getElem?_cons_succ, List.getElem?_cons_succ, ih h.2]

/-- What is computed item by item is computed of the items that are taken. -/
theorem mapM_pick {f : α → Except ε β} {bs : List β} (h : xs.mapM f = .ok bs)
    (hps : ∀ i ∈ ps, i < xs.length) : (pick ps xs).mapM f = .ok (pick ps bs) := by
  have hall := forall₂_of_mapM h
  induction ps with
  | nil => rfl
  | cons i ps ih =>
    rw [List.forall_mem_cons] at hps
    have hi : i < bs.length := hall.length_eq ▸ hps.1
    have hfirst : f xs[i] = .ok bs[i] := (List.forall₂_iff_get.1 hall).2 i hps.1 hi
    rw [pick_cons hps.1, pick_cons hi, List.mapM_cons, ih hps.2, hfirst]
    rfl

theorem exists_of_mem_mapM {f : α → Except ε β} {bs : List β} (h : xs.mapM f = .ok bs) {b : β}
    (hb : b ∈ bs) : ∃ x ∈ xs, f x = .ok b := by
  have hall := forall₂_of_mapM h
  obtain ⟨i, hi, rfl⟩ := List.getElem_of_mem hb
  have hx : i < xs.length := hall.length_eq ▸ hi
  exact ⟨xs[i], List.getElem_mem hx, (List.forall₂_iff_get.1 hall).2 i hx hi⟩

theorem mapM_ok_map {γ : Type} {f : α → Except ε β} {g : α → Except ε γ} {t : β → γ} {bs : List β}
    (h : xs.mapM f = .ok bs) (hfg : ∀ x ∈ xs, ∀ b, f x = .ok b → g x = .ok (t b)) :
    xs.mapM g = .ok (bs.map t) := by
  induction xs generalizing bs with
  | nil =>
    obtain rfl := Except.ok.inj h
    rfl
  | cons x xs ih =>
    rw [List.mapM_cons] at h
    obtain ⟨b, hb, h⟩ := Except.exists_of_bind h
    obtain ⟨bs, hbs, h⟩ := Except.exists_of_bind h
    obtain rfl := Except.ok.inj h
    rw [List.mapM_cons, hfg x List.mem_cons_self b hb,
      ih hbs fun y hy => hfg y (List.mem_cons_of_mem _ hy)]
    rfl

theorem pick_zipWith {γ : Type} {bs : List β} (f : α → β → γ) (hlength : xs.length = bs.length)
    (hps : ∀ i ∈ ps, i < xs.length) :
    pick ps (xs.zipWith f bs) = (pick ps xs).zipWith f (pick ps bs) := by
  induction ps with
  | nil => rfl
  | cons i ps ih =>
    rw [List.forall_mem_cons] at hps
    have hi : i < bs.length := hlength ▸ hps.1
    have hzip : i < (xs.zipWith f bs).length := by
      rw [List.length_zipWith]
      omega
    rw [pick_cons hps.1, pick_cons hi, pick_cons hzip, ih hps.2, List.zipWith_cons_cons,
      List.getElem_zipWith]

end Lists

namespace Frame

/-- A cell in every column for every row. -/
def Rectangular (X : Frame) : Prop := ∀ c ∈ X.columns, c.cells.length = X.rows

instance (X : Frame) : Decidable X.Rectangular :=
  inferInstanceAs (Decidable (∀ c ∈ X.columns, c.cells.length = X.rows))

/-- Some rows of a frame, in any order and with repeats. -/
structure Picks (X : Frame) (ps : List Nat) : Prop where
  some : ps ≠ []
  bound : ∀ i ∈ ps, i < X.rows

variable {X Y : Frame} {ps : List Nat}

theorem Picks.of_rows (h : X.Picks ps) (hrows : Y.rows = X.rows) : Y.Picks ps :=
  ⟨h.some, fun i hi => hrows ▸ h.bound i hi⟩

theorem rows_takeRows (h : X.Picks ps) : (X.takeRows ps).rows = ps.length :=
  length_pick_of_lt h.bound

theorem labels_takeRows (X : Frame) (ps : List Nat) : (X.takeRows ps).labels = X.labels := by
  unfold Frame.labels Frame.takeRows
  rw [List.map_map]
  rfl

theorem Rectangular.takeRows (hX : X.Rectangular) (h : X.Picks ps) :
    (X.takeRows ps).Rectangular := by
  intro c hc
  obtain ⟨d, hd, rfl⟩ := List.mem_map.1 hc
  rw [rows_takeRows h]
  exact length_pick_of_lt fun i hi => hX d hd ▸ h.bound i hi

theorem has_takeRows (X : Frame) (ps : List Nat) : (X.takeRows ps).has = X.has := by
  funext l
  unfold Frame.has
  rw [labels_takeRows]

theorem relabel_takeRows (X : Frame) (ps : List Nat) (labels : List Label) :
    (X.takeRows ps).relabel labels = (X.relabel labels).takeRows ps := by
  unfold Frame.relabel Frame.takeRows
  rw [List.zipWith_map_left, List.map_zipWith]
  rfl

theorem cells_relabel {labels : List Label} (h : labels.length = X.columns.length) :
    (X.relabel labels).columns.map (·.cells) = X.columns.map (·.cells) := by
  have hvalues := congrArg (List.map Prod.snd) (values_relabel h)
  rwa [values, values, List.map_map, List.map_map] at hvalues

theorem Rectangular.relabel (hX : X.Rectangular) (labels : List Label) :
    (X.relabel labels).Rectangular := by
  intro c hc
  unfold Frame.relabel at hc
  rw [← List.map_uncurry_zip_eq_zipWith] at hc
  obtain ⟨⟨d, l⟩, hd, rfl⟩ := List.mem_map.1 hc
  exact hX d (List.of_mem_zip hd).1

theorem beside_takeRows (X Y : Frame) (ps : List Nat) :
    (X.takeRows ps).beside (Y.takeRows ps) = (X.beside Y).takeRows ps := by
  unfold Frame.beside Frame.takeRows
  rw [List.map_append]

theorem Rectangular.beside (hX : X.Rectangular) (hY : Y.Rectangular) (hrows : Y.rows = X.rows) :
    (X.beside Y).Rectangular := by
  intro c hc
  rcases List.mem_append.1 hc with hc | hc
  · exact hX c hc
  · exact (hY c hc).trans hrows

theorem rowCells_takeRows (hX : X.Rectangular) (h : X.Picks ps) :
    (X.takeRows ps).rowCells = pick ps X.rowCells := by
  have hlength : X.rowCells.length = X.rows := by
    unfold rowCells
    rw [List.length_map, List.length_range]
  refine List.ext_getElem? fun j => ?_
  rw [getElem?_pick fun i hi => hlength ▸ h.bound i hi]
  unfold rowCells
  rw [rows_takeRows h, List.getElem?_map]
  cases hj : ps[j]? with
  | none =>
    have hlt : ¬ j < ps.length := fun hlt => by
      rw [List.getElem?_eq_getElem hlt] at hj
      cases hj
    rw [List.getElem?_eq_none (by simpa using hlt)]
    rfl
  | some i =>
    have hi : i < X.rows := h.bound i (List.mem_of_getElem? hj)
    have hlt : j < ps.length := (List.getElem?_eq_some_iff.1 hj).1
    rw [List.getElem?_range hlt, Option.bind_some, List.getElem?_map, List.getElem?_range hi]
    simp only [Option.map_some, takeRows, List.filterMap_map]
    congr 1
    refine List.filterMap_congr fun c hc => ?_
    change (pick ps c.cells)[j]? = c.cells[i]?
    rw [getElem?_pick fun i hi => hX c hc ▸ h.bound i hi, hj]
    rfl

end Frame

/-! Cells of one kind. -/

/-- Texts, and whole numbers of 64 bits with a sign. -/
inductive CellKind.IsPlain : CellKind → Prop
  | text : IsPlain .text
  | int : IsPlain .int

/-- Cells of nothing but one kind. -/
def AllOf (k : CellKind) (cells : List Value) : Prop := ∀ v ∈ cells, CellKind.of v = k

theorem CellKind.exists_text {v : Value} (h : CellKind.of v = .text) : ∃ s, v = .text s := by
  unfold CellKind.of at h
  split at h
  case h_7 s => exact ⟨s, rfl⟩
  case h_5 n =>
    unfold CellKind.ofInt at h
    split at h
    · cases h
    · split at h <;> cases h
  all_goals cases h

theorem CellKind.exists_int {v : Value} (h : CellKind.of v = .int) : ∃ n : Int, v = .int n := by
  unfold CellKind.of at h
  split at h
  case h_5 n => exact ⟨n, rfl⟩
  all_goals cases h

namespace AllOf

variable {k : CellKind} {cells : List Value} {ps : List Nat} {l : Label}

theorem pick (h : AllOf k cells) (ps : List Nat) : AllOf k (pick ps cells) :=
  fun v hv => h v (mem_of_mem_pick hv)

theorem isMissing (h : AllOf k cells) (hk : k.IsPlain) {v : Value} (hv : v ∈ cells) :
    v.isMissing = false := by
  cases hk with
  | text =>
    obtain ⟨s, rfl⟩ := CellKind.exists_text (h v hv)
    rfl
  | int =>
    obtain ⟨n, rfl⟩ := CellKind.exists_int (h v hv)
    rfl

theorem any_isMissing (h : AllOf k cells) (hk : k.IsPlain) :
    cells.any Value.isMissing = false :=
  List.any_eq_false.2 fun v hv => by simp [h.isMissing hk hv]

theorem onlyKinds (h : AllOf k cells) (hne : cells ≠ []) (kinds : List CellKind) :
    Column.onlyKinds kinds cells = kinds.contains k := by
  unfold Column.onlyKinds
  cases hkinds : kinds.contains k with
  | true => exact List.all_eq_true.2 fun v hv => by rw [h v hv, hkinds]
  | false =>
    obtain ⟨v, rest, rfl⟩ := List.exists_cons_of_ne_nil hne
    exact List.all_eq_false.2 ⟨v, List.mem_cons_self, by rw [h v List.mem_cons_self, hkinds]; simp⟩

theorem hasKind (h : AllOf k cells) (hne : cells ≠ []) (kind : CellKind) :
    Column.hasKind kind cells = (k == kind) := by
  unfold Column.hasKind
  cases hkind : k == kind with
  | true =>
    obtain ⟨v, rest, rfl⟩ := List.exists_cons_of_ne_nil hne
    exact List.any_eq_true.2 ⟨v, List.mem_cons_self, by rw [h v List.mem_cons_self, hkind]⟩
  | false => exact List.any_eq_false.2 fun v hv => by rw [h v hv, hkind]; simp

/-- Objects that are neither texts nor moments stay objects. -/
theorem ofObjects_of_ne (h : AllOf k cells) (htext : k ≠ .text) (hmoment : k ≠ .moment)
    (hnever : k ≠ .never) : Column.ofObjects l cells = ⟨l, .object, cells⟩ := by
  have hnone : ∀ kind, k ≠ kind → Column.hasKind kind cells = false := fun kind hkind =>
    List.any_eq_false.2 fun v hv => by simpa [h v hv] using hkind
  unfold Column.ofObjects Column.isTextual Column.isTemporal Column.isNever
  rw [hnone _ htext, hnone _ hmoment, hnone _ hnever]
  rfl

theorem ofObjects (h : AllOf k cells) (hk : k.IsPlain) (hne : cells ≠ []) :
    Column.ofObjects l cells = ⟨l, if k = .text then .text else .object, cells⟩ := by
  cases hk with
  | int => exact h.ofObjects_of_ne (by decide) (by decide) (by decide)
  | text =>
    have hpresent : cells.map Column.absentIfMissing = cells := by
      refine (List.map_congr_left (g := id) fun v hv => ?_).trans (List.map_id _)
      unfold Column.absentIfMissing
      rw [h.isMissing .text hv]
      rfl
    have htextual : Column.isTextual cells = true := by
      unfold Column.isTextual
      rw [h.hasKind hne, Bool.and_eq_true, List.all_eq_true]
      exact ⟨rfl, fun v hv => by rw [h v hv]; rfl⟩
    unfold Column.ofObjects
    rw [htextual, hpresent]
    rfl

theorem infer (h : AllOf k cells) (hk : k.IsPlain) (hne : cells ≠ []) :
    Column.infer l cells = ⟨l, if k = .text then .text else .int64, cells⟩ := by
  have hempty : cells.isEmpty = false := by
    rw [List.isEmpty_eq_false_iff]
    exact hne
  unfold Column.infer Column.isNatural
  rw [hempty, h.onlyKinds hne, h.onlyKinds hne, h.onlyKinds hne, h.onlyKinds hne]
  cases hk with
  | int => rfl
  | text =>
    have hnumerical : Column.isNumerical cells = false := by
      obtain ⟨v, rest, rfl⟩ := List.exists_cons_of_ne_nil hne
      obtain ⟨s, rfl⟩ := CellKind.exists_text (h v List.mem_cons_self)
      rfl
    rw [hnumerical, h.ofObjects .text hne]
    rfl

theorem infer_pick (h : AllOf k cells) (hk : k.IsPlain) (hne : cells ≠ [])
    (hps : ColumnFlow.pick ps cells ≠ []) :
    Column.infer l (ColumnFlow.pick ps cells) = (Column.infer l cells).takeRows ps := by
  rw [(h.pick ps).infer hk hps, h.infer hk hne]
  rfl

theorem dissolve_pick {c : Column} (h : AllOf k c.cells) (hk : k.IsPlain) (hne : c.cells ≠ [])
    (hps : ColumnFlow.pick ps c.cells ≠ []) :
    Series.dissolve (c.takeRows ps) = (Series.dissolve c).takeRows ps := by
  obtain ⟨l, dtype, cells⟩ := c
  have hobjects : Column.ofObjects l (ColumnFlow.pick ps cells) =
      (Column.ofObjects l cells).takeRows ps := by
    rw [(h.pick ps).ofObjects hk hps, h.ofObjects hk hne]
    rfl
  unfold Series.dissolve Column.takeRows
  dsimp only
  rw [(h.pick ps).any_isMissing hk, h.any_isMissing hk]
  cases dtype with
  | text | object => exact hobjects
  | category kind levels =>
    cases kind with
    | datetime p => exact congrArg (Column.mk l _) (pick_map ps cells _).symm
    | text | object | category => exact hobjects
    | _ => rfl
  | _ => rfl

end AllOf
end ColumnFlow
