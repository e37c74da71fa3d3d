import ColumnFlow.Node.Predictions

/-!
# Blame

A computation that fails for want of a fit blames a node. What is done with data of any form, with
frames and with the answers of nodes never does, whatever else may be wrong with them.
-/
namespace ColumnFlow

/-- Whoever is blamed for want of a fit is one of certain nodes. -/
def Blames {α : Type} (P : Label → Prop) (x : Except Failure α) : Prop :=
  ∀ l, x = .error (.notFitted l) → P l

namespace Blames

variable {α β : Type} {P Q : Label → Prop} {x : Except Failure α} {as : List α}

theorem ok (a : α) : Blames P (.ok a) := fun _ h => nomatch h

theorem unusable (u : Unusable) : Blames P (.error (.unusable u) : Except Failure α) :=
  fun _ h => nomatch h

theorem mismatch (u : Mismatch) : Blames P (.error (.mismatch u) : Except Failure α) :=
  fun _ h => nomatch h

theorem mono (h : Blames P x) (hPQ : ∀ l, P l → Q l) : Blames Q x := fun l hl => hPQ l (h l hl)

theorem bind {f : α → Except Failure β} (hx : Blames P x) (hf : ∀ a, Blames P (f a)) :
    Blames P (x >>= f) := by
  cases x with
  | ok a => exact hf a
  | error e =>
    intro l hl
    obtain rfl := Except.error.inj hl
    exact hx l rfl

theorem mapM {f : α → Except Failure β} (h : ∀ a ∈ as, Blames P (f a)) : Blames P (as.mapM f) := by
  induction as with
  | nil => exact ok []
  | cons a as ih =>
    rw [List.mapM_cons]
    have hrest := ih fun b hb => h b (List.mem_cons_of_mem _ hb)
    exact (h a List.mem_cons_self).bind fun b => hrest.bind fun bs => ok (b :: bs)

theorem foldlM {f : β → α → Except Failure β} (h : ∀ a ∈ as, ∀ b, Blames P (f b a)) (b : β) :
    Blames P (as.foldlM f b) := by
  induction as generalizing b with
  | nil => exact ok b
  | cons a as ih =>
    rw [List.foldlM_cons]
    have hrest := ih fun c hc => h c (List.mem_cons_of_mem _ hc)
    exact (h a List.mem_cons_self b).bind hrest

theorem elim {u : Unusable} (o : Option β) (f : β → α) :
    Blames P (o.elim (.error (.unusable u)) fun b => .ok (f b)) := by
  cases o with
  | none => exact unusable u
  | some b => exact ok (f b)

/-! What is done with frames blames no node. -/

theorem marked (F : Frame) (marks : List Label) : Blames P (F.marked marks) := by
  rw [Frame.marked]
  split
  · exact ok _
  · exact unusable _

theorem lookUp (F : Frame) (labels : List Label) : Blames P (F.lookUp labels) := by
  rw [Frame.lookUp]
  split
  · exact ok _
  · exact unusable _

theorem select (F : Frame) (labels : List Label) : Blames P (F.select labels) := by
  rw [Frame.select]
  split
  · exact marked F labels
  · exact (lookUp F labels).bind fun _ => ok _

theorem majority (F : Frame) : Blames P (Majority.ofFrame F) := by
  refine bind (mapM fun row _ => ?_) fun _ => ok _
  rw [Majority.winnerOf]
  split
  · split
    · exact ok _
    · exact unusable _
  · exact unusable _

theorem totalOf (row : List Value) : Blames P (RowMeans.totalOf row) := by
  rw [RowMeans.totalOf]
  split
  · exact ok _
  · exact ok _
  · exact ok _
  · exact unusable _

theorem numbers (totals : List RowMeans.Total) : Blames P (RowMeans.Total.numbers totals) := by
  rw [RowMeans.Total.numbers]
  split
  · exact unusable _
  · refine mapM fun total _ => ?_
    rw [RowMeans.Total.number.eq_def]
    cases total with
    | whole n => exact elim _ id
    | binary x => exact ok x
    | joined s => exact elim _ id

theorem means (F : Frame) : Blames P (RowMeans.ofFrame F) := by
  rw [RowMeans.ofFrame]
  split
  · exact unusable _
  · split
    · exact ok _
    · split
      · have hrows : Blames P (RowMeans.ofObjects F.rowCells) :=
          (mapM fun row _ => totalOf row).bind fun totals => (numbers totals).bind fun _ => ok _
        exact hrows.bind fun _ => ok _
      · exact ok _

theorem coded (codes : List (Scalar × Nat)) (c : Column) : Blames P (Stacking.coded codes c) := by
  rw [Stacking.coded]
  split
  · exact ok _
  · split
    · split
      · split
        · exact unusable _
        · exact ok _
      · split
        · exact unusable _
        · exact ok _
    · exact ok _

theorem features (codes : List (Scalar × Nat)) (keep : Bool) (A F : Frame) :
    Blames P (Stacking.features codes keep A F) := by
  rw [Stacking.features]
  refine bind (mapM fun c _ => coded codes c) fun _ => ?_
  split
  · exact ok _
  · exact ok _

/-! Neither is a node blamed for data of any form. -/

theorem ofMapping (entries : List (Label × Value)) : Blames P (Data.ofMapping entries) := by
  rw [Data.ofMapping]
  dsimp only
  split
  · exact ok _
  · split
    · exact ok _
    · exact unusable _
  · split
    · exact ok _
    · exact unusable _
  · exact unusable _

theorem bounded (dtype : Dtype) (n : Int) : Blames P (Grid.bounded dtype n) := by
  rw [Grid.bounded]
  dsimp only
  split
  · exact ok _
  · exact unusable _

theorem wrapped (dtype : Dtype) (n : Int) : Blames P (Grid.wrapped dtype n) := by
  rw [Grid.wrapped.eq_def]
  split
  · exact (bounded .int64 n).bind fun _ => ok _
  · exact bounded _ n

theorem toFloat (v : Value) : Blames P (Grid.toFloat v) := by
  rw [Grid.toFloat.eq_def]
  split
  · split
    · exact ok _
    · exact unusable _
  · exact elim _ _
  · split
    · exact ok _
    · exact unusable _

theorem toInt (dtype : Dtype) (v : Value) : Blames P (Grid.toInt dtype v) := by
  rw [Grid.toInt.eq_def]
  split
  · exact bounded dtype _
  · exact ok _
  · split
    · exact wrapped dtype _
    · exact unusable _
    · exact unusable _
  · split
    · exact wrapped dtype _
    · exact unusable _
  · exact unusable _

theorem toMoment (v : Value) : Blames P (Grid.toMoment v) := by
  rw [Grid.toMoment.eq_def]
  split
  · exact ok _
  · exact unusable _
  · rw [Column.momentOf.eq_def]
    split
    · split
      · exact ok _
      · exact elim _ _
    · exact ok _
    · split
      · exact ok _
      · exact unusable _

theorem cast (dtype : String) (cells : List Value) : Blames P (Grid.cast dtype cells) := by
  have hall : ∀ (kind : Dtype) (f : Value → Except Failure Value), (∀ v, Blames P (f v)) →
      Blames P (do return (kind, ← cells.mapM f) : Except Failure (Dtype × List Value)) :=
    fun kind f hf => (mapM fun v _ => hf v).bind fun _ => ok _
  rw [Grid.cast.eq_def]
  split
  · exact hall _ _ toFloat
  · exact hall _ _ (toInt _)
  · exact hall _ _ (toInt _)
  · exact hall _ _ (toInt _)
  · exact ok _
  · exact ok _
  · exact hall _ _ toMoment
  · exact ok _
  · exact unusable _

theorem ofValue (v : Value) (dtype : Option String) : Blames P (Grid.ofValue v dtype) := by
  rw [Grid.ofValue.eq_def]
  split
  · exact ok _
  · exact (cast _ _).bind fun _ => ok _
  · exact ok _
  · exact unusable _

theorem ofGrid (g : Grid) : Blames P (Data.ofGrid g) := by
  rw [Data.ofGrid]
  split
  · exact ok _
  · exact ok _
  · exact mismatch _

theorem toFrame (X : Data) : Blames P X.toFrame := by
  cases X with
  | frame F => exact ok F
  | series s =>
    rw [Data.toFrame]
    split
    · exact ok _
    · exact ok _
  | mapping entries => exact ofMapping entries
  | array v dtype => exact (ofValue v dtype).bind ofGrid
  | plain v => exact (ofValue v none).bind ofGrid

end Blames
end ColumnFlow
