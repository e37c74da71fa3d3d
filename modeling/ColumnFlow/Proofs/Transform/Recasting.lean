import ColumnFlow.Proofs.Decimal.Texts
import ColumnFlow.Proofs.Frame.Slicing
import ColumnFlow.Proofs.Transform.ByLabel
import Mathlib

/-!
# Labels of numbers

A recast turns the cells of numeric columns into their texts and leaves missing cells alone. The text
of a number tells its value, and beyond that its kind and its sign: whole numbers are written without
a point and binary numbers with one, and zero has a negative. So equal numbers get equal labels where
both are whole or both are binary, and have one sign.
-/
namespace ColumnFlow

open Decimal

variable {u v : Value} {m n : ℤ} {x y : Float}

theorem mapM_congr {α β : Type} {xs : List α} {f g : α → Except Failure β}
    (h : ∀ x ∈ xs, f x = g x) : xs.mapM f = xs.mapM g := by
  induction xs with
  | nil => rfl
  | cons x xs ih =>
    rw [List.forall_mem_cons] at h
    rw [List.mapM_cons, List.mapM_cons, h.1, ih h.2]

namespace Value

/-- The sign of a number, which zero has too if it is binary. -/
def isNegative : Value → Bool
  | .scalar (.int n) => n < 0
  | .scalar (.float x) => (decode x).isNegative
  | _ => false

/-- A number that is not missing. -/
inductive IsNumber : Value → Prop
  | whole (n : ℤ) : IsNumber (.int n)
  | binary {x : Float} : x.isNaN = false → IsNumber (.float x)

theorem IsNumber.isMissing_eq (hv : IsNumber v) : v.isMissing = false := by
  cases hv with
  | whole n => rfl
  | binary hx => exact hx

theorem isNumber_of_holds {d : Dtype} (hd : d.isNumeric = true) (hv : d.holds v = true)
    (hmissing : v.isMissing = false) : IsNumber v := by
  obtain ⟨n, rfl⟩ | ⟨x, rfl⟩ : (∃ n, v = .int n) ∨ ∃ x, v = .float x := by
    cases d <;> simp only [Dtype.isNumeric, Bool.false_eq_true] at hd <;>
      cases v with
      | scalar s => cases s <;> simp [Dtype.holds] at hv ⊢
      | _ => simp [Dtype.holds] at hv
  · exact .whole n
  · exact .binary hmissing

theorem equals_int (m n : ℤ) : (Value.int m).equals (.int n) = true ↔ m = n := by
  simp [equals, Scalar.equals, Scalar.same, Scalar.key, Scalar.atoms, Key.isReal]

theorem equals_float (hx : x.isNaN = false) :
    (Value.float x).equals (.float y) = true ↔ Exact.ofFloat x = Exact.ofFloat y := by
  have hreal : Exact.nan ≠ Exact.ofFloat x := fun h => by
    rw [Exact.ofFloat_eq_nan.1 h.symm] at hx
    cases hx
  simpa [equals, Scalar.equals, Scalar.same, Scalar.key, Scalar.atoms, Key.isReal] using
    fun _ => hreal

/-- Equal numbers of one kind and one sign. -/
def Matches (v u : Value) : Prop :=
  v.equals u = true ∧ v.kind = u.kind ∧ v.isNegative = u.isNegative

/-- The text of a number tells its value, its kind and its sign. -/
theorem plain_eq_iff (hv : IsNumber v) (hu : IsNumber u) : v.plain = u.plain ↔ v.Matches u := by
  unfold Matches
  cases hv with
  | whole m =>
    cases hu with
    | whole n =>
      have hplain : (Value.int m).plain = (Value.int n).plain ↔ m = n := Int.repr_inj
      rw [hplain, equals_int]
      exact ⟨fun h => h ▸ ⟨rfl, rfl, rfl⟩, fun h => h.1⟩
    | binary hy =>
      refine iff_of_false (Scalar.floatText_ne_int _ m).symm fun h => ?_
      exact absurd h.2.1 (by decide : "int" ≠ "float")
  | binary hx =>
    cases hu with
    | whole n =>
      refine iff_of_false (Scalar.floatText_ne_int _ n) fun h => ?_
      exact absurd h.2.1 (by decide : "float" ≠ "int")
    | binary hy =>
      refine (Scalar.floatText_eq_iff hx hy).trans ?_
      rw [equals_float hx]
      exact and_congr_right fun _ => ⟨fun h => ⟨rfl, h⟩, fun h => h.2⟩

end Value

namespace Columns

variable {F : Frame} {limit : Value}

theorem filterM_ok {α : Type} {g : α → Except Failure Bool} {p : α → Bool}
    (h : ∀ a, g a = .ok (p a)) (items : List α) : items.filterM g = .ok (items.filter p) := by
  have hall : ∀ found, items.filterAuxM g found = .ok ((items.filter p).reverse ++ found) := by
    induction items with
    | nil => exact fun found => rfl
    | cons a items ih =>
      intro found
      unfold List.filterAuxM
      rw [h a, Except.bind_ok, ih]
      cases hp : p a <;> simp [hp]
  unfold List.filterM
  rw [hall, Except.bind_ok, List.append_nil, List.reverse_reverse]
  rfl

/-- Under labels that do not repeat the choice succeeds, and it is one among the numeric columns. -/
theorem exists_lowCardinality (hlimit : limit.number?.isSome = true)
    (hlabels : Frame.hasRepeats F.labels = false) :
    ∃ p, lowCardinality limit F =
      .ok (((F.columns.filter (·.dtype.isNumeric)).filter p).map (·.label)) := by
  obtain ⟨k, hk⟩ := Option.isSome_iff_exists.1 hlimit
  have hlow : ∀ c, ∃ b, isLow limit c = .ok b := by
    intro c
    unfold isLow
    rw [hk]
    dsimp only
    split
    · exact ⟨_, rfl⟩
    · split <;> exact ⟨_, rfl⟩
  choose p hp using hlow
  refine ⟨p, ?_⟩
  unfold lowCardinality numeric
  rw [hlabels, if_neg Bool.false_ne_true, Except.bind_ok, filterM_ok hp]
  rfl

end Columns

namespace Recast

variable {named : List Label} {X : Frame} {c : Column}

/-- A missing cell, or the text of a number. -/
def recastCell (v : Value) : Value := if v.isMissing then v else .text v.plain

/-- Whether a column of a frame is recast. -/
def isRecast (named : List Label) (X : Frame) (c : Column) : Bool :=
  named.any fun l => Labels.foundAlone X.labels l c.label

theorem recastCell_eq_iff (hv : v.IsNumber) (hu : u.IsNumber) :
    recastCell v = recastCell u ↔ v.Matches u := by
  have htexts : Value.text v.plain = .text u.plain ↔ v.plain = u.plain :=
    ⟨fun h => by simpa using h, fun h => h ▸ rfl⟩
  unfold recastCell
  rw [hv.isMissing_eq, hu.isMissing_eq, if_neg Bool.false_ne_true, if_neg Bool.false_ne_true,
    htexts, Value.plain_eq_iff hv hu]

/-- The texts of the cells of a column, missing ones aside. -/
def recastColumn (c : Column) : Column := ⟨c.label, .object, c.cells.map recastCell⟩

theorem column_of_numeric (h : c.dtype.isNumeric = true) : column c = .ok (recastColumn c) := by
  have hcells : ((c.cells.map (Categories.textCell (.scalar .absent) Value.plain)).zipWith
      (fun t v => if v.isMissing then v else t) c.cells) = c.cells.map recastCell := by
    rw [List.zipWith_map_left, List.zipWith_self]
    refine List.map_congr_left fun v _ => ?_
    unfold Categories.textCell recastCell
    split <;> rfl
  unfold recastColumn
  rw [← hcells]
  unfold column hasLevels Categories.prepareColumn
  cases hdtype : c.dtype <;> simp only [hdtype, Dtype.isNumeric, Bool.false_eq_true] at h <;> rfl

/-- The labels that a frame has find the columns that all of them find. -/
theorem columns_filter (named : List Label) (X : Frame) :
    columns (named.filter X.has) X =
      X.columns.mapM fun c => if isRecast named X c then column c else .ok c := by
  have hfound : ∀ c ∈ X.columns, ((named.filter X.has).map (Labels.foundAlone X.labels)).any
      (fun found => found c.label) = isRecast named X c := by
    intro c hc
    unfold isRecast
    rw [List.any_map, List.any_filter]
    refine congrArg (List.any named) (funext fun l => ?_)
    cases hl : Labels.foundAlone X.labels l c.label with
    | false => simp [hl]
    | true =>
      have hhas : X.has l = true := List.any_eq_true.2 ⟨c.label, List.mem_map_of_mem hc, hl⟩
      simp [hl, hhas]
  unfold columns
  refine mapM_congr fun c hc => ?_
  rw [hfound c hc]

/-- The frame in which the columns with some labels are recast. -/
def recast (named : List Label) (X : Frame) : Frame :=
  X.mapColumns fun c => if isRecast named X c then recastColumn c else c

/-- What is learned are the labels of some columns. -/
def recaster (options : Options) (named : List Label) : Fitted :=
  ⟨[(.text "type", .text "catnum_discriminator"), (.text "columns", .ofLabels named),
    (.text "max_categories", options.getD "max_categories" (.int 24))], apply, returnsInput⟩

theorem discriminator_calculate (options : Options) (F : Frame) :
    ((discriminator options).calculate F).outcome =
      (Columns.resolve F options (some (Columns.lowCardinality
        (options.getD "max_categories" (.int 24))))).map fun named =>
          some (recaster options named) := by
  unfold discriminator
  dsimp only
  rw [Logged.outcome_lift_bind]
  cases Columns.resolve F options _ <;> rfl

/-- Unless columns are named for it, the discriminator is fitted to all frames without repeated
labels. -/
theorem exists_recaster {options : Options} {F : Frame}
    (hcolumns : (options.getD "columns" .null).isTrue = false)
    (hlimit : (options.getD "max_categories" (.int 24)).number?.isSome = true)
    (hlabels : Frame.hasRepeats F.labels = false) :
    ∃ f, ((discriminator options).calculate F).outcome = .ok (some f) := by
  obtain ⟨p, hp⟩ := Columns.exists_lowCardinality hlimit hlabels
  rw [discriminator_calculate]
  unfold Columns.resolve
  simp only [hcolumns, Bool.false_eq_true, if_false, hp]
  exact ⟨_, rfl⟩

theorem recaster_run (options : Options) (named : List Label) (X : Frame) :
    ((recaster options named).run X).outcome =
      (X.columns.mapM fun c => if isRecast named X c then column c else .ok c).map
        (Frame.mk X.index) := by
  have hlisted : Fitted.columnsOf (recaster options named).params = .ok named :=
    listed_ofLabels named
  have hpresent : presentIn (recaster options named).params X = .ok (named.filter X.has) := by
    unfold presentIn
    rw [hlisted]
    rfl
  rw [Fitted.run_outcome]
  change (apply (recaster options named).params X).outcome >>= _ = _
  unfold apply
  rw [hpresent, Logged.outcome_lift_bind]
  change ((liftM (columns (named.filter X.has) X) : Logged _) >>= fun cs => _).outcome >>= _ = _
  rw [Logged.outcome_lift_bind, columns_filter]
  cases X.columns.mapM fun c => if isRecast named X c then column c else .ok c <;> rfl

/-- Numeric columns can be recast wherever they stand. -/
theorem recaster_run_numeric (options : Options)
    (h : ∀ c ∈ X.columns, isRecast named X c = true → c.dtype.isNumeric = true) :
    ((recaster options named).run X).outcome = .ok (recast named X) := by
  rw [recaster_run]
  refine congrArg (Except.map (Frame.mk X.index)) (mapM_ok fun c hc => ?_)
  split
  · next hrecast => exact column_of_numeric (h c hc hrecast)
  · rfl

/-- The numeric columns among those with some labels are recast, and other columns are kept. -/
theorem recast_of_run {options : Options} {G : Frame}
    (h : ((recaster options named).run X).outcome = .ok G) :
    G.index = X.index ∧ List.Forall₂ (fun c d =>
      if isRecast named X c = true then c.dtype.isNumeric = true → d = recastColumn c
      else d = c) X.columns G.columns := by
  rw [recaster_run] at h
  cases hcolumns : X.columns.mapM fun c => if isRecast named X c then column c else .ok c with
  | error e =>
    rw [hcolumns] at h
    cases h
  | ok cs =>
    rw [hcolumns] at h
    obtain rfl := Except.ok.inj h
    refine ⟨rfl, (forall₂_of_mapM hcolumns).imp fun c d hd => ?_⟩
    split at hd
    · next hrecast =>
      rw [if_pos hrecast]
      exact fun hnumeric => Except.ok.inj (hd.symm.trans (column_of_numeric hnumeric))
    · next hrecast =>
      rw [if_neg hrecast]
      exact (Except.ok.inj hd).symm

end Recast

end ColumnFlow
