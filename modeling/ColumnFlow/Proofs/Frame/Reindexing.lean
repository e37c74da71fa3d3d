import ColumnFlow.Proofs.Frame.Slicing
import ColumnFlow.Proofs.Frame.Within
import ColumnFlow.Frame.Majority
import ColumnFlow.Node.Predictions

/-!
# Row labels

Frames that differ in nothing but the labels of their rows. Columns are found, chosen and dropped in
both alike, and rows are taken from both alike.
-/
namespace ColumnFlow

/-- Two outcomes of one kind: results that `R` relates, or one failure. -/
inductive Except.Alike {ε α β : Type} (R : α → β → Prop) : Except ε α → Except ε β → Prop
  | ok {a : α} {b : β} : R a b → Except.Alike R (.ok a) (.ok b)
  | error (e : ε) : Except.Alike R (.error e) (.error e)

namespace Except.Alike

variable {ε α β γ δ : Type} {R R' : α → β → Prop} {S : γ → δ → Prop} {x : Except ε α}
  {y : Except ε β}

theorem refl {R : α → α → Prop} (h : ∀ a, R a a) (x : Except ε α) : Alike R x x := by
  cases x with
  | error e => exact .error e
  | ok a => exact .ok (h a)

theorem of_eq {x y : Except ε α} (h : x = y) : Alike Eq x y := h ▸ refl (fun _ => rfl) x

theorem eq {x y : Except ε α} (h : Alike Eq x y) : x = y := by
  cases h with
  | ok h => rw [h]
  | error e => rfl

/-- What is known of both results. -/
theorem and {P : α → Prop} {Q : β → Prop} (h : Alike R x y) (hP : ∀ a, x = .ok a → P a)
    (hQ : ∀ b, y = .ok b → Q b) : Alike (fun a b => R a b ∧ P a ∧ Q b) x y := by
  cases h with
  | ok h => exact .ok ⟨h, hP _ rfl, hQ _ rfl⟩
  | error e => exact .error e

theorem mono (h : Alike R x y) (hR : ∀ a b, R a b → R' a b) : Alike R' x y := by
  cases h with
  | ok h => exact .ok (hR _ _ h)
  | error e => exact .error e

theorem bind {f : α → Except ε γ} {g : β → Except ε δ} (h : Alike R x y)
    (hfg : ∀ a b, R a b → Alike S (f a) (g b)) : Alike S (x >>= f) (y >>= g) := by
  cases h with
  | ok h => exact hfg _ _ h
  | error e => exact .error e

theorem map {f : α → γ} {g : β → δ} (h : Alike R x y) (hfg : ∀ a b, R a b → S (f a) (g b)) :
    Alike S (x.map f) (y.map g) := by
  cases h with
  | ok h => exact .ok (hfg _ _ h)
  | error e => exact .error e

theorem exists_left (h : Alike R x y) {b : β} (hy : y = .ok b) : ∃ a, x = .ok a ∧ R a b := by
  cases h with
  | ok h =>
    obtain rfl := Except.ok.inj hy
    exact ⟨_, rfl, h⟩
  | error e => cases hy

theorem mapM {xs : List α} {f : α → Except ε γ} {g : α → Except ε δ}
    (h : ∀ x ∈ xs, Alike S (f x) (g x)) :
    Alike (List.Forall₂ S) (xs.mapM f) (xs.mapM g) := by
  induction xs with
  | nil => exact .ok .nil
  | cons x xs ih =>
    rw [List.mapM_cons, List.mapM_cons]
    refine (h x List.mem_cons_self).bind fun a b hab => ?_
    refine (ih fun y hy => h y (List.mem_cons_of_mem _ hy)).bind fun as bs hall => ?_
    exact .ok (.cons hab hall)

theorem foldlM {xs : List γ} {R : α → α → Prop} {f : α → γ → Except ε α} {a b : α}
    (h : ∀ x ∈ xs, ∀ a b, R a b → Alike R (f a x) (f b x)) (hab : R a b) :
    Alike R (xs.foldlM f a) (xs.foldlM f b) := by
  induction xs generalizing a b with
  | nil => exact .ok hab
  | cons x xs ih =>
    rw [List.foldlM_cons, List.foldlM_cons]
    exact (h x List.mem_cons_self a b hab).bind fun a b hab =>
      ih (fun y hy => h y (List.mem_cons_of_mem _ hy)) hab

end Except.Alike

theorem length_pick {α β : Type} {xs : List α} {ys : List β} (h : xs.length = ys.length)
    (positions : List Nat) : (pick positions xs).length = (pick positions ys).length := by
  rw [pick_eq, pick_eq]
  induction positions with
  | nil => rfl
  | cons i positions ih =>
    by_cases hi : i < xs.length
    · rw [List.filterMap_cons, List.filterMap_cons, List.getElem?_eq_getElem hi,
        List.getElem?_eq_getElem (h ▸ hi), List.length_cons, List.length_cons, ih]
    · rw [List.filterMap_cons, List.filterMap_cons, List.getElem?_eq_none (Nat.not_lt.1 hi),
        List.getElem?_eq_none (h ▸ Nat.not_lt.1 hi), ih]

namespace Frame

/-- The same columns over as many rows, under any labels. -/
structure Reindexed (X X' : Frame) : Prop where
  columns : X'.columns = X.columns
  rows : X'.rows = X.rows

variable {X X' Y Y' : Frame}

namespace Reindexed

theorem refl (X : Frame) : X.Reindexed X := ⟨rfl, rfl⟩

/-- Frames over other rows, as many. -/
theorem of_rows {ι ι' : List Label} (h : ι'.length = ι.length) (cs : List Column) :
    Reindexed ⟨ι, cs⟩ ⟨ι', cs⟩ := ⟨rfl, h⟩

theorem labels (h : X.Reindexed X') : X'.labels = X.labels := by
  unfold Frame.labels
  rw [h.columns]

theorem has (h : X.Reindexed X') (l : Label) : X'.has l = X.has l := by
  unfold Frame.has
  rw [h.labels]

theorem named (h : X.Reindexed X') (l : Label) : X'.named l = X.named l := by
  unfold Frame.named
  rw [h.labels, h.columns]

theorem lookUp (h : X.Reindexed X') (ls : List Label) : X'.lookUp ls = X.lookUp ls := by
  unfold Frame.lookUp
  rw [h.labels]

theorem takeRows (h : X.Reindexed X') (positions : List Nat) :
    (X.takeRows positions).Reindexed (X'.takeRows positions) := by
  unfold Frame.takeRows
  rw [h.columns]
  exact of_rows (length_pick h.rows positions) _

theorem select (h : X.Reindexed X') (ls : List Label) :
    Except.Alike Reindexed (X.select ls) (X'.select ls) := by
  unfold Frame.select
  split
  · unfold marked
    rw [h.rows]
    split
    · exact .ok (h.takeRows _)
    · exact .error _
  · rw [h.lookUp, h.columns]
    exact (Except.Alike.of_eq (x := X.lookUp ls) rfl).bind fun a b hab => hab ▸ .ok (of_rows h.rows _)

theorem drop (h : X.Reindexed X') (ls : List Label) :
    Except.Alike Reindexed (X.drop ls) (X'.drop ls) := by
  unfold Frame.drop
  rw [h.lookUp, h.columns]
  exact (Except.Alike.of_eq (x := X.lookUp ls) rfl).bind fun a b hab => hab ▸ .ok (of_rows h.rows _)

theorem beside (h : X.Reindexed X') (hY : Y'.columns = Y.columns) :
    (X.beside Y).Reindexed (X'.beside Y') := by
  unfold Frame.beside
  rw [h.columns, hY]
  exact of_rows h.rows _

theorem relabel (h : X.Reindexed X') (ls : List Label) :
    (X.relabel ls).Reindexed (X'.relabel ls) := by
  unfold Frame.relabel
  rw [h.columns]
  exact of_rows h.rows _

theorem relabelAs (h : X.Reindexed X') (names : Value) :
    Except.Alike Reindexed (X.relabelAs names) (X'.relabelAs names) := by
  have hall : ∀ ls, Except.Alike Reindexed (X.relabelAll ls) (X'.relabelAll ls) := by
    intro ls
    unfold relabelAll
    rw [h.columns]
    split
    · exact .ok (h.relabel ls)
    · exact .error _
  unfold Frame.relabelAs
  split
  · rw [h.columns]
    exact .ok (h.relabel _)
  · split
    · exact hall _
    · exact .error _
  · split
    · exact hall _
    · exact .error _
  · exact hall _
  · exact .error _

theorem rowCells (h : X.Reindexed X') : X'.rowCells = X.rowCells := by
  unfold Frame.rowCells
  rw [h.columns, h.rows]

end Reindexed

end Frame

/-- The same column over as many rows, under any labels. -/
structure Series.Reindexed (S S' : Series) : Prop where
  column : S'.column = S.column
  rows : S'.index.length = S.index.length

namespace Series.Reindexed

variable {S S' : Series} {X X' : Frame}

theorem toFrame (h : S.Reindexed S') : S.toFrame.Reindexed S'.toFrame := by
  unfold Series.toFrame
  rw [h.column]
  exact .of_rows h.rows _

theorem cells (h : S.Reindexed S') : S'.cells = S.cells := congrArg Column.cells h.column

theorem dtype (h : S.Reindexed S') : S'.dtype = S.dtype := congrArg Column.dtype h.column

theorem takeRows (h : S.Reindexed S') (positions : List Nat) :
    (S.takeRows positions).Reindexed (S'.takeRows positions) := by
  unfold Series.takeRows
  rw [h.column]
  exact ⟨rfl, length_pick h.rows positions⟩

/-- A target is paired with features by position. -/
theorem align (h : S.Reindexed S') (hX : X.Reindexed X') :
    Except.Alike Series.Reindexed (S.align X) (S'.align X') := by
  have hlengths : checkLengths X' S'.rows = checkLengths X S.rows := by
    unfold checkLengths Series.rows
    rw [hX.rows, h.column]
  unfold Series.align
  rw [hlengths, h.column]
  exact (Except.Alike.of_eq (x := checkLengths X S.rows) rfl).bind fun _ _ _ => .ok ⟨rfl, hX.rows⟩

end Series.Reindexed

namespace Frame

variable {X X' : Frame}

/-- Frames or series that differ in nothing but the labels of their rows. -/
inductive Extract.Reindexed : Extract → Extract → Prop
  | frame {X X' : Frame} : X.Reindexed X' → Extract.Reindexed (.frame X) (.frame X')
  | series {S S' : Series} : S.Reindexed S' → Extract.Reindexed (.series S) (.series S')

theorem Extract.Reindexed.toFrame {E E' : Extract} (h : E.Reindexed E') :
    E.toFrame.Reindexed E'.toFrame := by
  cases h with
  | frame h => exact h
  | series h => exact h.toFrame

theorem Reindexed.extract (h : X.Reindexed X') (v : Value) :
    Except.Alike Extract.Reindexed (X.extract v) (X'.extract v) := by
  unfold Frame.extract
  split
  · split
    · exact (h.select _).map fun _ _ => .frame
    · exact .error _
  · split
    · rw [h.named]
      split
      · exact .error _
      · exact .ok (.series ⟨rfl, h.rows⟩)
      · exact .ok (.frame (.of_rows h.rows _))
    · exact .error _

end Frame

/-- Data that differs in nothing but the labels of its rows. -/
inductive Data.Reindexed : Data → Data → Prop
  | frame {X X' : Frame} : X.Reindexed X' → Data.Reindexed (.frame X) (.frame X')
  | series {S S' : Series} : S.Reindexed S' → Data.Reindexed (.series S) (.series S')
  | same (d : Data) : Data.Reindexed d d

namespace Data.Reindexed

variable {d d' : Data}

/-- Two targets that are both absent, or that differ in nothing but the labels of their rows. -/
inductive Target : Option Series → Option Series → Prop
  | none : Target .none .none
  | some {S S' : Series} : S.Reindexed S' → Target (.some S) (.some S')

theorem Target.refl (y : Option Series) : Target y y := by
  cases y with
  | none => exact .none
  | some S => exact .some ⟨rfl, rfl⟩

theorem toSeries (h : d.Reindexed d') : Except.Alike Target d.toSeries d'.toSeries := by
  cases h with
  | frame h =>
    unfold Data.toSeries
    dsimp only
    rw [h.columns, h.labels]
    split
    · exact .ok (.some ⟨rfl, h.rows⟩)
    · exact .error _
  | series h => exact .ok (.some h)
  | same d => exact .refl Target.refl _

end Data.Reindexed
end ColumnFlow
