import ColumnFlow.Node.Predictions
import ColumnFlow.Proofs.Frame.Picking

/-!
# What ensembles do row by row

Votes, means and coded predictions are made row by row. The kind of a column of votes is inferred
from the winners that are there; it hangs on no row if all labels are texts, or all whole numbers of
64 bits.
-/
namespace ColumnFlow

variable {k : CellKind} {F : Frame} {S W : Series} {ps : List Nat} {l : Label}

namespace Frame

/-- All cells of a frame are of one kind. -/
def AllOf (k : CellKind) (F : Frame) : Prop := ∀ c ∈ F.columns, ColumnFlow.AllOf k c.cells

theorem AllOf.row (h : F.AllOf k) {row : List Value} (hrow : row ∈ F.rowCells) :
    ColumnFlow.AllOf k row := by
  unfold rowCells at hrow
  obtain ⟨i, -, rfl⟩ := List.mem_map.1 hrow
  intro v hv
  obtain ⟨c, hc, hv⟩ := List.mem_filterMap.1 hv
  exact h c hc v (List.mem_of_getElem? hv)

theorem length_rowCells (F : Frame) : F.rowCells.length = F.rows := by
  unfold rowCells
  rw [List.length_map, List.length_range]

theorem any_dtype_takeRows (F : Frame) (ps : List Nat) (p : Dtype → Bool) :
    ((F.takeRows ps).columns.any fun c => p c.dtype) = F.columns.any fun c => p c.dtype := by
  unfold takeRows
  rw [List.any_map]
  rfl

theorem all_dtype_takeRows (F : Frame) (ps : List Nat) (p : Dtype → Bool) :
    ((F.takeRows ps).columns.all fun c => p c.dtype) = F.columns.all fun c => p c.dtype := by
  unfold takeRows
  rw [List.all_map]
  rfl

end Frame

/-- A column that is taken apart row by row. -/
def Column.DissolvesAt (ps : List Nat) (c : Column) : Prop :=
  Series.dissolve (c.takeRows ps) = (Series.dissolve c).takeRows ps

/-- Labels that are made row by row, and can become an answer row by row. -/
def Series.AnswersByRows (positions : List Nat) (f : Frame → Except Failure Series) (X : Frame) :
    Prop :=
  ∀ S, f X = .ok S → S.cells.length = X.rows ∧
    f (X.takeRows positions) = .ok (S.takeRows positions) ∧
      ∀ l, (S.column.rename l).DissolvesAt positions

theorem Column.dissolvesAt_of_allOf {c : Column} (h : AllOf k c.cells) (hk : k.IsPlain)
    (hps : ps ≠ []) (hbound : ∀ i ∈ ps, i < c.cells.length) (l : Label) :
    (c.rename l).DissolvesAt ps := by
  have hne : pick ps c.cells ≠ [] := pick_ne_nil hps hbound
  refine AllOf.dissolve_pick (c := c.rename l) h hk (fun hnil => hne ?_) hne
  have hnil : c.cells = [] := hnil
  rw [hnil, pick_eq]
  simp

namespace Majority

theorem mem_of_winnerOf {row : List Value} {v : Value} (h : winnerOf row = .ok v) : v ∈ row := by
  unfold winnerOf at h
  split at h
  · split at h
    next u hu =>
      obtain ⟨i, -, hi⟩ := Option.bind_eq_some_iff.1 hu
      rw [← Except.ok.inj h]
      exact List.mem_of_getElem? hi
    next => cases h
  · cases h

theorem exists_winners (hall : F.AllOf k) (h : ofFrame F = .ok W) :
    ∃ winners, F.rowCells.mapM winnerOf = .ok winners ∧ AllOf k winners ∧
      winners.length = F.rows ∧ W = ⟨Column.infer .null winners, F.index⟩ := by
  unfold ofFrame at h
  obtain ⟨winners, hwinners, h⟩ := Except.exists_of_bind h
  refine ⟨winners, hwinners, fun v hv => ?_, ?_, (Except.ok.inj h).symm⟩
  · obtain ⟨row, hrow, hv⟩ := exists_of_mem_mapM hwinners hv
    exact hall.row hrow v (mem_of_winnerOf hv)
  · rw [← (forall₂_of_mapM hwinners).length_eq, F.length_rowCells]

theorem byRows (hk : k.IsPlain) (hF : F.Rectangular) (hall : F.AllOf k) (hps : F.Picks ps) :
    Series.AnswersByRows ps ofFrame F := by
  intro W h
  obtain ⟨winners, hwinners, hkind, hlength, rfl⟩ := exists_winners hall h
  have hbound : ∀ i ∈ ps, i < winners.length := fun i hi => hlength ▸ hps.bound i hi
  have hpicked : pick ps winners ≠ [] := pick_ne_nil hps.some hbound
  have hne : winners ≠ [] := fun hnil => hpicked (by rw [hnil, pick_eq]; simp)
  have hcells : (Column.infer .null winners).cells = winners := by rw [hkind.infer hk hne]
  refine ⟨(congrArg List.length hcells).trans hlength, ?_,
    Column.dissolvesAt_of_allOf (by rwa [hcells]) hk hps.some (by rwa [hcells])⟩
  unfold ofFrame
  rw [Frame.rowCells_takeRows hF hps,
    mapM_pick hwinners fun i hi => F.length_rowCells ▸ hps.bound i hi, Except.bind_ok,
    hkind.infer_pick hk hne hpicked]
  rfl

end Majority

namespace RowMeans

variable {row : List Value} {rows : List (List Value)} {totals : List Total}

theorem present_of_allOf (h : AllOf k row) (hk : k.IsPlain) : present row = row :=
  List.filter_eq_self.2 fun v hv => by rw [h.isMissing hk hv]; rfl

theorem totalOf_ints (h : AllOf .int row) : ∃ n, totalOf row = .ok (.whole n) := by
  have hwhole : ∃ ns, row.mapM Domain.whole? = some ns := by
    induction row with
    | nil => exact ⟨[], rfl⟩
    | cons v row ih =>
      obtain ⟨n, rfl⟩ := CellKind.exists_int (h v List.mem_cons_self)
      obtain ⟨ns, hns⟩ := ih fun w hw => h w (List.mem_cons_of_mem _ hw)
      refine ⟨n :: ns, ?_⟩
      rw [List.mapM_cons, hns]
      rfl
  obtain ⟨ns, hns⟩ := hwhole
  unfold totalOf
  rw [present_of_allOf h .int, hns]
  exact ⟨_, rfl⟩

theorem totalOf_texts (h : AllOf .text row) (hne : row ≠ []) :
    ∃ s, totalOf row = .ok (.joined s) := by
  have htexts : ∀ row : List Value, AllOf .text row → ∃ ss, texts? row = some ss := by
    intro row h
    induction row with
    | nil => exact ⟨[], rfl⟩
    | cons v row ih =>
      obtain ⟨s, rfl⟩ := CellKind.exists_text (h v List.mem_cons_self)
      obtain ⟨ss, hss⟩ := ih fun w hw => h w (List.mem_cons_of_mem _ hw)
      unfold texts? at hss ⊢
      refine ⟨s :: ss, ?_⟩
      rw [List.mapM_cons, hss]
      rfl
  obtain ⟨v, rest, rfl⟩ := List.exists_cons_of_ne_nil hne
  obtain ⟨s, rfl⟩ := CellKind.exists_text (h v List.mem_cons_self)
  obtain ⟨ss, hss⟩ := htexts rest fun w hw => h w (List.mem_cons_of_mem _ hw)
  have hall : texts? (.text s :: rest) = some (s :: ss) := by
    unfold texts? at hss ⊢
    rw [List.mapM_cons, hss]
    rfl
  unfold totalOf
  rw [present_of_allOf h .text, hall]
  exact ⟨_, rfl⟩

/-- Means of objects that are whole numbers are made row by row. -/
theorem ofObjects_pick {means : List Value} (hrows : ∀ row ∈ rows, AllOf .int row)
    (h : ofObjects rows = .ok means) (hps : ∀ i ∈ ps, i < rows.length) :
    ofObjects (pick ps rows) = .ok (pick ps means) ∧ means.length = rows.length := by
  unfold ofObjects at h ⊢
  obtain ⟨totals, htotals, h⟩ := Except.exists_of_bind h
  obtain ⟨numbers, hnumbers, h⟩ := Except.exists_of_bind h
  obtain rfl := Except.ok.inj h
  have hall := forall₂_of_mapM htotals
  have hjoined : totals.any Total.isJoined = false := by
    refine List.any_eq_false.2 fun t ht => ?_
    obtain ⟨row, hrow, htotal⟩ := exists_of_mem_mapM htotals ht
    obtain ⟨n, hn⟩ := totalOf_ints (hrows row hrow)
    rw [← Except.ok.inj (hn.symm.trans htotal)]
    exact Bool.false_ne_true
  have hpicked : (pick ps totals).any Total.isJoined = false :=
    List.any_eq_false.2 fun t ht => List.any_eq_false.1 hjoined t (mem_of_mem_pick ht)
  unfold Total.numbers at hnumbers ⊢
  rw [hjoined] at hnumbers
  have hnumbered := (forall₂_of_mapM hnumbers).length_eq
  have hlength : numbers.length = rows.length := by rw [← hnumbered, hall.length_eq]
  refine ⟨?_, by rw [List.length_zipWith]; omega⟩
  rw [mapM_pick htotals hps, Except.bind_ok, hpicked]
  simp only [Bool.false_and, Bool.false_eq_true, if_false]
  rw [mapM_pick hnumbers fun i hi => by have := hps i hi; omega, Except.bind_ok,
    pick_zipWith _ hlength fun i hi => by have := hps i hi; omega]
  rfl

theorem ofObjects_texts {means : List Value} (hrows : ∀ row ∈ rows, AllOf .text row ∧ row ≠ [])
    (hne : rows ≠ []) : ofObjects rows ≠ .ok means := by
  intro h
  unfold ofObjects at h
  obtain ⟨totals, htotals, h⟩ := Except.exists_of_bind h
  obtain ⟨numbers, hnumbers, -⟩ := Except.exists_of_bind h
  -- Their sums are texts, and a text cannot be divided.
  have hall := forall₂_of_mapM htotals
  have hjoined : ∀ t ∈ totals, t.isJoined = true ∧ t.isWhole = false := by
    intro t ht
    obtain ⟨row, hrow, htotal⟩ := exists_of_mem_mapM htotals ht
    obtain ⟨htext, hsome⟩ := hrows row hrow
    obtain ⟨s, hs⟩ := totalOf_texts htext hsome
    rw [← Except.ok.inj (hs.symm.trans htotal)]
    exact ⟨rfl, rfl⟩
  have hfirst : totals.any Total.isJoined = true := by
    have hpos : 0 < totals.length := hall.length_eq ▸ List.length_pos_iff.2 hne
    exact List.any_eq_true.2 ⟨totals[0], List.getElem_mem hpos,
      (hjoined _ (List.getElem_mem hpos)).1⟩
  have hwhole : totals.any Total.isWhole = false :=
    List.any_eq_false.2 fun t ht => by rw [(hjoined t ht).2]; exact Bool.false_ne_true
  unfold Total.numbers at hnumbers
  rw [hfirst, hwhole] at hnumbers
  cases hnumbers

theorem row_ne_nil (hF : F.Rectangular) (hcolumns : F.columns ≠ []) {row : List Value}
    (hrow : row ∈ F.rowCells) : row ≠ [] := by
  obtain ⟨c, cs, hcs⟩ := List.exists_cons_of_ne_nil hcolumns
  unfold Frame.rowCells at hrow
  obtain ⟨i, hi, rfl⟩ := List.mem_map.1 hrow
  have hlt : i < c.cells.length := by
    rw [hF c (hcs ▸ List.mem_cons_self)]
    exact List.mem_range.1 hi
  rw [hcs, List.filterMap_cons, List.getElem?_eq_getElem hlt]
  exact List.cons_ne_nil _ _

/-- Means of objects are means of whole numbers, as texts have none. -/
theorem ofObjects_rows {means : List Value} (hF : F.Rectangular) (hall : F.AllOf k)
    (hk : k.IsPlain) (hcolumns : F.columns ≠ []) (hps : F.Picks ps)
    (h : ofObjects F.rowCells = .ok means) :
    ofObjects (pick ps F.rowCells) = .ok (pick ps means) ∧ means.length = F.rows ∧
      AllOf .float means := by
  have hbound : ∀ i ∈ ps, i < F.rowCells.length := fun i hi => F.length_rowCells ▸ hps.bound i hi
  cases hk with
  | int =>
    obtain ⟨hpick, hlength⟩ := ofObjects_pick (fun row hrow => hall.row hrow) h hbound
    refine ⟨hpick, hlength.trans F.length_rowCells, ?_⟩
    unfold ofObjects at h
    obtain ⟨totals, -, h⟩ := Except.exists_of_bind h
    obtain ⟨numbers, -, h⟩ := Except.exists_of_bind h
    obtain rfl := Except.ok.inj h
    intro v hv
    rw [← List.map_uncurry_zip_eq_zipWith] at hv
    obtain ⟨p, -, rfl⟩ := List.mem_map.1 hv
    rfl
  | text =>
    have hne : F.rowCells ≠ [] := fun hnil => pick_ne_nil hps.some hbound (by
      rw [hnil, pick_eq]
      simp)
    exact absurd h
      (ofObjects_texts (fun row hrow => ⟨hall.row hrow, row_ne_nil hF hcolumns hrow⟩) hne)

theorem precisionOf_takeRows (F : Frame) (ps : List Nat) :
    precisionOf (F.takeRows ps) = precisionOf F := by
  obtain ⟨index, cs⟩ := F
  rcases cs with _ | ⟨⟨l, dtype, cells⟩, cs⟩
  · rfl
  · cases dtype <;> rfl

theorem byRows (hk : k.IsPlain) (hF : F.Rectangular) (hall : F.AllOf k) (hps : F.Picks ps) :
    Series.AnswersByRows ps ofFrame F := by
  intro W h
  have hmoments : Numbers.areMoments (F.takeRows ps) = Numbers.areMoments F :=
    F.all_dtype_takeRows ps Numbers.isMoment
  have htruth : mixesTruth (F.takeRows ps) = mixesTruth F := by
    unfold mixesTruth
    rw [F.any_dtype_takeRows ps Numbers.isBool, F.all_dtype_takeRows ps Numbers.isBool]
  -- Which way the means are made hangs on the kinds of the columns, and these stay the same.
  unfold ofFrame at h ⊢
  rw [F.any_dtype_takeRows ps Numbers.isExtended, hmoments, htruth, precisionOf_takeRows,
    F.any_dtype_takeRows ps fun d => !Numbers.isBool d && !d.isNumeric,
    Frame.rowCells_takeRows hF hps]
  split at h
  · cases h
  next hextended =>
  rw [if_neg hextended]
  split at h
  next htime =>
    obtain rfl := Except.ok.inj h
    rw [if_pos htime, ← pick_map]
    exact ⟨(List.length_map _).trans F.length_rowCells, rfl, fun l => rfl⟩
  next htime =>
  rw [if_neg htime]
  split at h
  next hobjects =>
    have hcolumns : F.columns ≠ [] := by
      intro hnil
      unfold mixesTruth at hobjects
      rw [hnil] at hobjects
      simp at hobjects
    obtain ⟨means, hmeans, h⟩ := Except.exists_of_bind h
    obtain rfl := Except.ok.inj h
    obtain ⟨hpick, hlength, hfloats⟩ := ofObjects_rows hF hall hk hcolumns hps hmeans
    rw [if_pos hobjects, hpick]
    refine ⟨hlength, rfl, fun l => ?_⟩
    change Column.ofObjects l (pick ps means) = (Column.ofObjects l means).takeRows ps
    rw [(hfloats.pick ps).ofObjects_of_ne (by decide) (by decide) (by decide),
      hfloats.ofObjects_of_ne (by decide) (by decide) (by decide)]
    rfl
  next hobjects =>
    obtain rfl := Except.ok.inj h
    rw [if_neg hobjects, ← pick_map]
    exact ⟨(List.length_map _).trans F.length_rowCells, rfl, fun l => rfl⟩

end RowMeans

namespace Stacking

variable {codes : List (Scalar × Nat)} {c d : Column}

theorem coded_takeRows (h : AllOf k c.cells) (hk : k.IsPlain) (hd : coded codes c = .ok d)
    (ps : List Nat) :
    coded codes (c.takeRows ps) = .ok (d.takeRows ps) ∧ d.cells.length = c.cells.length := by
  obtain ⟨l, dtype, cells⟩ := c
  have hmissing := h.any_isMissing hk
  have hmissing' := (h.pick ps).any_isMissing hk
  unfold coded at hd ⊢
  cases hplain : isPlainNumber dtype with
  | true =>
    simp only [hplain, Column.takeRows, if_true] at hd ⊢
    obtain rfl := Except.ok.inj hd
    exact ⟨rfl, rfl⟩
  | false =>
    cases dtype with
    | category kind levels =>
      simp only [hplain, hmissing, hmissing', Column.takeRows, Bool.false_eq_true, if_false] at hd ⊢
      split at hd
      · cases hd
      · next hlevels =>
        obtain rfl := Except.ok.inj hd
        rw [if_neg hlevels, ← pick_map]
        exact ⟨rfl, List.length_map _⟩
    | _ =>
      simp only [hplain, Column.takeRows, Bool.false_eq_true, if_false] at hd ⊢
      obtain rfl := Except.ok.inj hd
      rw [← pick_map]
      exact ⟨rfl, List.length_map _⟩

theorem features_takeRows {P X A : Frame} {keep : Bool} (hP : P.Rectangular) (hX : X.Rectangular)
    (hrows : P.rows = X.rows) (hall : P.AllOf k) (hk : k.IsPlain)
    (h : features codes keep P X = .ok A) :
    A.Rectangular ∧ A.rows = X.rows ∧
      ∀ ps, features codes keep (P.takeRows ps) (X.takeRows ps) = .ok (A.takeRows ps) := by
  unfold features at h
  obtain ⟨cs, hcs, h⟩ := Except.exists_of_bind h
  have hcoded : Frame.Rectangular { P with columns := cs } := by
    intro d hd
    obtain ⟨c, hc, hd⟩ := exists_of_mem_mapM hcs hd
    exact (coded_takeRows (hall c hc) hk hd []).2.trans (hP c hc)
  have htaken : ∀ ps, (P.takeRows ps).columns.mapM (coded codes) =
      .ok (cs.map (·.takeRows ps)) := by
    intro ps
    unfold Frame.takeRows
    rw [List.mapM_map]
    exact mapM_ok_map hcs fun c hc d hd => (coded_takeRows (hall c hc) hk hd ps).1
  unfold features
  cases keep with
  | false =>
    obtain rfl := Except.ok.inj h
    refine ⟨hcoded, hrows, fun ps => ?_⟩
    rw [htaken]
    rfl
  | true =>
    obtain rfl := Except.ok.inj h
    refine ⟨hX.beside (hcoded.relabel _) hrows, rfl, fun ps => ?_⟩
    rw [htaken, ← Frame.beside_takeRows, ← Frame.relabel_takeRows,
      ← Frame.labels_takeRows { P with columns := cs } ps]
    rfl

end Stacking
end ColumnFlow
