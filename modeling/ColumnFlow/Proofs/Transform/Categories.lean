import ColumnFlow.Frame.Detection
import ColumnFlow.Proofs.Frame.Within
import ColumnFlow.Proofs.Transform.ByLabel
import Mathlib

/-!
# Categories and their codes

Before columns are encoded every cell becomes a text: its own, or the missing text where nothing
stands. A column takes the missing text unless it is one of categories and has no such level. So a
frame is prepared as a whole if all columns of categories with missing cells have that level, and
refused otherwise.

The encoder keeps the distinct texts of every column that it learned from, in order, and gives each
a column of its own. A row has a one in the column of its text and zeros elsewhere in the block, and
only zeros if its text was not seen. So rows of texts that were seen have the same block if and only
if they have the same text.
-/
namespace ColumnFlow

/-! Texts. -/

namespace Categories

variable {f : Frame} {c : Column} {v : Value}

/-- Whether a column takes the missing text in the place of its missing cells. -/
def isFillable (c : Column) : Bool :=
  match c.dtype with
  | .category _ levels => !c.cells.any Value.isMissing || hasLevel levels missingText
  | _ => true

/-- The text of a cell that is not missing. -/
def textIn (c : Column) : Value → String :=
  match c.dtype with
  | .datetime _ => if c.cells.any Value.isMissing then Value.plain else momentText (moments c.cells)
  | _ => Value.plain

/-- The texts of a column where the missing cells are filled. -/
def filledTexts (c : Column) : List String :=
  c.cells.map fun v => if v.isMissing then missingText else textIn c v

theorem map_textCell (c : Column) (text : Value → String) :
    c.cells.map (textCell
        (if c.cells.any Value.isMissing then .text missingText else .scalar .absent) text) =
      c.cells.map fun v => .text (if v.isMissing then missingText else text v) := by
  refine List.map_congr_left fun v hv => ?_
  unfold textCell
  split
  · next hmissing => rw [if_pos (List.any_eq_true.2 ⟨v, hv, hmissing⟩)]
  · rfl

/-- A column is filled, or cannot take the missing text. -/
theorem prepareColumn_filled (c : Column) :
    prepareColumn true c =
      if isFillable c then .ok ⟨c.label, .text, (filledTexts c).map .text⟩
      else .error (.unusable .type) := by
  have hfilled : (filledTexts c).map Value.text =
      c.cells.map fun v => .text (if v.isMissing then missingText else textIn c v) := by
    unfold filledTexts
    rw [List.map_map]
    rfl
  rw [hfilled, ← map_textCell]
  unfold prepareColumn isFillable textIn
  simp only [Bool.true_and]
  cases c.dtype with
  | category kind levels =>
    cases hlevel : hasLevel levels missingText <;> cases c.cells.any Value.isMissing <;>
      simp only [hlevel] <;> rfl
  | datetime precision => cases c.cells.any Value.isMissing <;> rfl
  | _ => rfl

theorem prepare_filled (h : ∀ c ∈ f.columns, isFillable c = true) :
    prepare f true =
      .ok { f with columns := f.columns.map fun c => ⟨c.label, .text, (filledTexts c).map .text⟩ } := by
  have hcolumns : f.columns.mapM (prepareColumn true) =
      .ok (f.columns.map fun c => ⟨c.label, .text, (filledTexts c).map .text⟩) :=
    mapM_ok fun c hc => by rw [prepareColumn_filled, if_pos (h c hc)]
  unfold prepare
  rw [hcolumns]
  rfl

/-- One column that cannot be filled is enough for a frame to be refused. -/
theorem prepare_refused (h : ∃ c ∈ f.columns, isFillable c = false) :
    prepare f true = .error (.unusable .type) := by
  obtain ⟨c, hfirst⟩ : ∃ c, f.columns.find? (fun c => !isFillable c) = some c := by
    obtain ⟨d, hd, hnot⟩ := h
    exact Option.isSome_iff_exists.1 (List.find?_isSome.2 ⟨d, hd, by simp [hnot]⟩)
  obtain ⟨hc, before, after, hcolumns, hbefore⟩ := List.find?_eq_some_iff_append.1 hfirst
  simp only [Bool.not_eq_true', Bool.not_not] at hc hbefore
  have hmapM : f.columns.mapM (prepareColumn true) = .error (.unusable .type) := by
    rw [hcolumns]
    refine mapM_error (fun d hd => ⟨_, by rw [prepareColumn_filled, if_pos (hbefore d hd)]⟩) ?_
    rw [prepareColumn_filled, hc]
    rfl
  unfold prepare
  rw [hmapM]
  rfl

/-- Objects, texts, categories and truth values are filled with their own texts. -/
theorem filledTexts_of_categorical (h : c.dtype.isCategorical = true) :
    filledTexts c = c.cells.map fun v => if v.isMissing then missingText else v.plain := by
  unfold filledTexts textIn
  cases hdtype : c.dtype <;> simp [hdtype, Dtype.isCategorical] at h ⊢

/-- A frame of categorical columns is prepared as a whole if and only if every column of categories
with missing cells has the missing text among its levels. -/
theorem prepare_categorical (h : Columns.categorical f = f.labels) :
    prepare f true =
      if ∀ c ∈ f.columns, isFillable c = true then
        .ok ⟨f.index, f.columns.map fun c => ⟨c.label, .text,
          c.cells.map fun v => .text (if v.isMissing then missingText else v.plain)⟩⟩
      else .error (.unusable .type) := by
  have hcategorical : ∀ c ∈ f.columns, c.dtype.isCategorical = true := by
    have hlength := congrArg List.length h
    unfold Columns.categorical Frame.labels at hlength
    rw [List.length_map, List.length_map] at hlength
    exact List.length_filter_eq_length_iff.1 hlength
  split
  · next hfillable =>
    rw [prepare_filled hfillable]
    congr 2
    refine List.map_congr_left fun c hc => ?_
    rw [filledTexts_of_categorical (hcategorical c hc), List.map_map]
    rfl
  · next hnot =>
    exact prepare_refused (by simpa using hnot)

theorem prepare_categorical_mixed :
    let f : Frame := ⟨rangeIndex 2, [⟨.text "a", .object, [.int 1, .null]⟩,
      ⟨.text "b", .bool, [.bool true, .bool false]⟩,
      ⟨.text "c", .category .text [.text "x", .text "y"], [.text "y", .text "y"]⟩]⟩
    Columns.categorical f = f.labels ∧
      prepare f true = .ok ⟨rangeIndex 2, [⟨.text "a", .text, [.text "1", .text "__missing__"]⟩,
        ⟨.text "b", .text, [.text "True", .text "False"]⟩,
        ⟨.text "c", .text, [.text "y", .text "y"]⟩]⟩ :=
  ⟨rfl, (prepare_categorical rfl).trans rfl⟩

/-- A column of categories with a missing cell is chosen and then refused. -/
theorem prepare_refuses_missing_category :
    let f : Frame := ⟨rangeIndex 2,
      [⟨.text "c", .category .text [.text "a"], [.text "a", .scalar .absent]⟩]⟩
    Columns.categorical f = f.labels ∧ prepare f true = .error (.unusable .type) :=
  ⟨rfl, rfl⟩

end Categories

namespace OneHot

variable {ts cats : List String} {cells found : List Value} {s t u : String} {l : Label} {i : ℕ}

/-! Distinct texts. -/

def IsText (v : Value) : Prop := ∃ s, v = .text s

theorem sameCategory_iff {v w : Value} (hv : IsText v) (hw : IsText w) :
    sameCategory v w = true ↔ v = w := by
  obtain ⟨s, rfl⟩ := hv
  obtain ⟨t, rfl⟩ := hw
  have htexts : sameCategory (.text s) (.text t) = (s == t) := rfl
  rw [htexts, beq_iff_eq]
  exact ⟨fun h => h ▸ rfl, fun h => by simpa using h⟩

def add (found : List Value) (v : Value) : List Value :=
  if found.any (sameCategory v) then found else found ++ [v]

theorem add_eq {v : Value} (hv : IsText v) (hfound : ∀ w ∈ found, IsText w) :
    v ∈ found ∧ add found v = found ∨ v ∉ found ∧ add found v = found ++ [v] := by
  have hany : found.any (sameCategory v) = true ↔ v ∈ found := by
    rw [List.any_eq_true]
    refine ⟨?_, fun h => ⟨v, h, (sameCategory_iff hv hv).2 rfl⟩⟩
    rintro ⟨w, hw, hsame⟩
    rwa [(sameCategory_iff hv (hfound w hw)).1 hsame]
  by_cases hmem : v ∈ found
  · exact .inl ⟨hmem, if_pos (hany.2 hmem)⟩
  · exact .inr ⟨hmem, if_neg (mt hany.1 hmem)⟩

/-- Every text is added once. -/
theorem foldl_add (hcells : ∀ v ∈ cells, IsText v) (hfound : ∀ v ∈ found, IsText v)
    (hnodup : found.Nodup) :
    (cells.foldl add found).Nodup ∧
      ∀ v, v ∈ cells.foldl add found ↔ v ∈ found ∨ v ∈ cells := by
  induction cells generalizing found with
  | nil => simpa using hnodup
  | cons v cells ih =>
    rw [List.forall_mem_cons] at hcells
    rw [List.foldl_cons]
    obtain ⟨hmem, hadd⟩ | ⟨hmem, hadd⟩ := add_eq hcells.1 hfound <;> rw [hadd]
    · obtain ⟨hresult, hiff⟩ := ih hcells.2 hfound hnodup
      refine ⟨hresult, fun w => ?_⟩
      rw [hiff, List.mem_cons]
      grind
    · have htexts : ∀ w ∈ found ++ [v], IsText w := by
        intro w hw
        rcases List.mem_append.1 hw with hw | hw
        · exact hfound w hw
        · rw [List.mem_singleton.1 hw]
          exact hcells.1
      obtain ⟨hresult, hiff⟩ := ih hcells.2 htexts (hnodup.append (by simp) (by simpa using hmem))
      refine ⟨hresult, fun w => ?_⟩
      rw [hiff, List.mem_append, List.mem_singleton, List.mem_cons, or_assoc]

/-- The distinct texts of a column in their order. -/
def categoriesOf (ts : List String) : List String :=
  ((distinct (ts.map .text)).mergeSort precedes).map Value.plain

theorem isText_map : ∀ v ∈ ts.map Value.text, IsText v := by
  intro v hv
  obtain ⟨s, -, rfl⟩ := List.mem_map.1 hv
  exact ⟨s, rfl⟩

theorem distinct_texts (ts : List String) :
    (distinct (ts.map .text)).Nodup ∧
      ∀ v, v ∈ distinct (ts.map .text) ↔ v ∈ ts.map Value.text := by
  have htexts : ∀ v ∈ ts.map Value.text, IsText v := isText_map
  have hnone : ∀ v ∈ ([] : List Value), IsText v := by simp
  obtain ⟨hnodup, hiff⟩ := foldl_add htexts hnone List.nodup_nil
  exact ⟨hnodup, fun v => (hiff v).trans (or_iff_right List.not_mem_nil)⟩

theorem map_categoriesOf (ts : List String) :
    (distinct (ts.map .text)).mergeSort precedes = (categoriesOf ts).map .text := by
  unfold categoriesOf
  rw [List.map_map]
  refine (List.map_id _).symm.trans (List.map_congr_left fun v hv => ?_)
  obtain ⟨s, -, rfl⟩ := List.mem_map.1 ((distinct_texts ts).2 v |>.1 (List.mem_mergeSort.1 hv))
  rfl

theorem mem_categoriesOf : s ∈ categoriesOf ts ↔ s ∈ ts := by
  have hmem : Value.text s ∈ (categoriesOf ts).map Value.text ↔ Value.text s ∈ ts.map Value.text := by
    rw [← map_categoriesOf, List.mem_mergeSort, (distinct_texts ts).2]
  have hinj : Function.Injective Value.text := fun a b h => by simpa using h
  rwa [List.mem_map_of_injective hinj, List.mem_map_of_injective hinj] at hmem

theorem precedes_trans (u v w : Value) (huv : precedes u v = true) (hvw : precedes v w = true) :
    precedes u w = true := by
  unfold precedes at *
  cases hw : w.isMissing <;> simp only [hw, if_true, if_false, Bool.false_eq_true] at *
  cases hv : v.isMissing <;> simp only [hv, if_true, if_false, Bool.false_eq_true] at *
  cases hu : u.isMissing <;> simp only [hu, if_true, if_false, Bool.false_eq_true] at *
  simp only [Bool.not_eq_true', decide_eq_false_iff_not, not_lt] at *
  exact huv.trans hvw

theorem precedes_total (u v : Value) : (precedes u v || precedes v u) = true := by
  unfold precedes
  cases u.isMissing <;> cases v.isMissing
  · simp only [Bool.false_eq_true, if_false, Bool.or_eq_true, Bool.not_eq_true',
      decide_eq_false_iff_not, not_lt]
    exact le_total u.plain v.plain
  all_goals rfl

theorem pairwise_categoriesOf (ts : List String) : (categoriesOf ts).Pairwise (· < ·) := by
  have hsorted := List.pairwise_mergeSort precedes_trans precedes_total (distinct (ts.map .text))
  have hnodup := (List.mergeSort_perm (distinct (ts.map .text)) precedes).nodup_iff.2
    (distinct_texts ts).1
  rw [map_categoriesOf] at hsorted hnodup
  refine ((List.pairwise_map.1 hsorted).and (List.pairwise_map.1 hnodup)).imp ?_
  rintro s t ⟨hle, hne⟩
  have hle' : precedes (.text s) (.text t) = !decide (t < s) := rfl
  rw [hle', Bool.not_eq_true', decide_eq_false_iff_not, not_lt] at hle
  exact lt_of_le_of_ne hle fun h => hne (h ▸ rfl)

/-! Codes. -/

/-- The ones and zeros of a row whose text is `t`. -/
def code (cats : List String) (t : String) : List Value :=
  cats.map fun s => .int (if s = t then 1 else 0)

theorem code_of_not_mem (h : t ∉ cats) : code cats t = List.replicate cats.length (.int 0) := by
  unfold code
  rw [List.eq_replicate_iff]
  refine ⟨List.length_map _, fun v hv => ?_⟩
  obtain ⟨s, hs, rfl⟩ := List.mem_map.1 hv
  rw [if_neg fun heq : s = t => h (heq ▸ hs)]

theorem code_of_mem (hnodup : cats.Nodup) (h : t ∈ cats) :
    ∃ before after, cats = before ++ t :: after ∧
      code cats t = List.replicate before.length (.int 0) ++
        .int 1 :: List.replicate after.length (.int 0) := by
  obtain ⟨before, after, rfl⟩ := List.append_of_mem h
  refine ⟨before, after, rfl, ?_⟩
  obtain ⟨hbefore, hafter⟩ : t ∉ before ∧ t ∉ after := by
    rw [List.nodup_middle, List.nodup_cons, List.mem_append] at hnodup
    exact not_or.1 hnodup.1
  rw [← code_of_not_mem hbefore, ← code_of_not_mem hafter]
  unfold code
  rw [List.map_append, List.map_cons, if_pos rfl]

theorem code_inj (ht : t ∈ cats) (h : code cats t = code cats u) : t = u := by
  have hone := List.map_inj_left.1 h t ht
  rw [if_pos rfl] at hone
  by_contra hne
  rw [if_neg hne] at hone
  cases hone

/-! Blocks. -/

/-- One column for every category. -/
def indicatorsOf (l : Label) (cats ts : List String) : List Column :=
  cats.map fun s => ⟨.text (l.plain ++ "_" ++ s), .int8, ts.map fun t => .int (if s = t then 1 else 0)⟩

/-- The cells of a row in some columns. -/
def rowIn (block : List Column) (i : ℕ) : List Value := block.filterMap fun c => c.cells[i]?

theorem rowIn_indicatorsOf (h : ts[i]? = some t) :
    rowIn (indicatorsOf l cats ts) i = code cats t := by
  unfold rowIn indicatorsOf code
  rw [List.filterMap_map, ← List.filterMap_eq_map]
  refine List.filterMap_congr fun s _ => ?_
  rw [Function.comp_apply, List.getElem?_map, h]
  rfl

/-! Encodings. -/

namespace Encoding

/-- What is learned from texts where there is no limit and no column is left out. -/
def ofTexts (l : Label) (ts : List String) : Encoding :=
  learn none false ⟨l, .text, ts.map .text⟩

theorem ofTexts_eq (l : Label) (ts : List String) :
    ofTexts l ts = ⟨l, (categoriesOf ts).map .text, [], false⟩ := by
  unfold ofTexts learn
  rw [map_categoriesOf]
  rfl

theorem indicators_ofTexts (l : Label) (ts : List String) :
    (ofTexts l ts).indicators = (categoriesOf ts).map fun s => some (.text s) := by
  rw [ofTexts_eq]
  unfold indicators isRare
  simp only [List.any_nil, Bool.not_false, List.filter_true, List.isEmpty_nil, if_true,
    Bool.false_eq_true, if_false, List.map_map]
  rfl

theorem names_ofTexts (name : String) (ts : List String) :
    (ofTexts (.text name) ts).names = .ok ((categoriesOf ts).map fun s => name ++ "_" ++ s) := by
  have hnames : (ofTexts (.text name) ts).names = .ok ((ofTexts (.text name) ts).indicators.map
      fun i => name ++ "_" ++ indicatorName i) := rfl
  rw [hnames, indicators_ofTexts, List.map_map]
  rfl

theorem encode_ofTexts (l : Label) (seen : List String) (c : Column) (hc : c.cells = ts.map .text) :
    (ofTexts l seen).encode false c = .ok ((categoriesOf seen).map fun s =>
      ⟨.null, .int8, ts.map fun t => .int (if s = t then 1 else 0)⟩) := by
  unfold encode
  rw [Bool.false_and, if_neg Bool.false_ne_true, indicators_ofTexts, List.map_map, hc]
  refine congrArg Except.ok (List.map_congr_left fun s _ => ?_)
  rw [Function.comp_apply, List.map_map]
  refine congrArg (Column.mk .null .int8) (List.map_congr_left fun t _ => ?_)
  have hhit : (ofTexts l seen).isHit (.text t) (some (.text s)) = (s == t) := rfl
  rw [Function.comp_apply, hhit]
  simp only [beq_iff_eq]

end Encoding

end OneHot

end ColumnFlow
