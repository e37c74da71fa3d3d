import ColumnFlow.Proofs.Frame.Finding
import ColumnFlow.Proofs.Transform.Categories
import ColumnFlow.Proofs.Transform.OutputLabels

/-!
# The encoder

With its defaults the encoder learns the texts of all categorical columns. Every frame in which each
of these labels stands once, and whose columns can be filled, is then answered by its other columns
and a block of indicators for every column that is encoded. Repeated labels and frames without rows
are refused.
-/
namespace ColumnFlow

theorem Logged.outcome_forM {α : Type} {xs : List α} {f : α → Logged Unit}
    (h : ∀ x, (f x).outcome = .ok ()) : (xs.forM f).outcome = .ok () := by
  induction xs with
  | nil => rfl
  | cons x xs ih =>
    change (f x >>= fun _ => xs.forM f).outcome = .ok ()
    rw [outcome_bind, h x]
    exact ih

namespace OneHot

variable {named : List Label} {F X : Frame} {l : Label}

/-- What a frame needs for some of its columns to be encoded. -/
structure Encodable (named : List Label) (X : Frame) : Prop where
  texts : ∀ l ∈ named, l.isText = true
  once : ∀ l ∈ named, (X.under l).length = 1
  fillable : ∀ l ∈ named, ∀ c ∈ X.under l, Categories.isFillable c = true
  rows : named ≠ [] → X.rows ≠ 0

/-- The texts of the column with a label. -/
def textsOf (X : Frame) (l : Label) : List String := (X.under l).flatMap Categories.filledTexts

/-- Some columns as texts. -/
def prepared (named : List Label) (X : Frame) : Frame :=
  ⟨X.index, named.map fun l => ⟨l, .text, (textsOf X l).map .text⟩⟩

theorem labels_prepared (named : List Label) (X : Frame) : (prepared named X).labels = named := by
  unfold prepared Frame.labels
  rw [List.map_map]
  exact List.map_id _

namespace Encodable

theorem mem (h : Encodable named X) : ∀ l ∈ named, l ∈ X.labels := by
  intro l hl
  by_contra hnot
  have hlength := h.once l hl
  rw [(Frame.under_eq_nil (h.texts l hl)).2 hnot] at hlength
  exact absurd hlength (by decide)

/-- The columns that are encoded, as texts. -/
theorem prepare_select (h : Encodable named X) :
    (X.select named >>= fun f => Categories.prepare f true) =
      .ok (prepared named X) := by
  rw [Frame.select_eq h.texts h.mem, Except.bind_ok, Categories.prepare_filled]
  · refine congrArg (fun cs => Except.ok (Frame.mk X.index cs)) ?_
    rw [List.map_flatMap, List.map_eq_flatMap]
    refine List.flatMap_congr fun l hl => ?_
    obtain ⟨c, hc⟩ := List.length_eq_one_iff.1 (h.once l hl)
    have hlabel : c.label = l :=
      ((Frame.mem_under (h.texts l hl)).1 (hc ▸ List.mem_singleton_self c)).2
    rw [textsOf, hc, List.map_singleton, List.flatMap_singleton, hlabel]
  · intro c hc
    obtain ⟨l, hl, hc⟩ := List.mem_flatMap.1 hc
    exact h.fillable l hl c hc

end Encodable

theorem not_repeated (htexts : ∀ l ∈ named, l.isText = true) (hnodup : named.Nodup) :
    Frame.hasRepeats named = false := by
  refine Frame.hasRepeats_eq_false.2 (hnodup.imp_of_mem fun hk _ hne => ?_)
  exact Bool.eq_false_iff.2 fun hfinds => hne ((Label.finds_iff_left (htexts _ hk)).1 hfinds).symm

theorem checkLabels_texts (htexts : ∀ l ∈ named, l.isText = true) (hnodup : named.Nodup) :
    Numbers.checkLabels named = .ok () := by
  unfold Numbers.checkLabels
  rw [not_repeated htexts hnodup, if_neg Bool.false_ne_true, List.all_eq_true.2 htexts,
    Bool.true_or, if_pos rfl]

theorem matchLabels_texts (htexts : ∀ l ∈ named, l.isText = true) (hnodup : named.Nodup) :
    Numbers.matchLabels named named = .ok () := by
  have hsame : Numbers.isSameList named named = true := by
    unfold Numbers.isSameList
    rw [beq_self_eq_true, Bool.true_and, List.all_eq_true]
    intro p hp
    obtain ⟨l, hl, rfl⟩ : ∃ l ∈ named, (l, l) = p := by
      have hzip : named.zip named = named.map fun l => (l, l) := by
        rw [List.zip_eq_zipWith, List.zipWith_self]
      rw [hzip] at hp
      exact List.mem_map.1 hp
    obtain ⟨s, rfl⟩ := Labels.exists_text (htexts l hl)
    simp [Scalar.same, Key.isReal, Scalar.key, Scalar.atoms]
  unfold Numbers.matchLabels
  rw [checkLabels_texts htexts hnodup, Except.bind_ok]
  simp only [hsame, List.all_eq_true.2 htexts, Bool.and_self, if_true]
  rfl

/-- Labels that stand once in a frame are chosen once. -/
theorem nodup_of_once (hsub : named.Sublist F.labels)
    (honce : ∀ l ∈ named, (F.under l).length = 1) : named.Nodup := by
  rw [List.nodup_iff_sublist]
  intro l htwice
  have hfound := (htwice.trans hsub).filter l.finds
  have hself := Frame.finds_self l
  rw [← Frame.labels_under, List.filter_cons_of_pos hself, List.filter_cons_of_pos hself,
    List.filter_nil] at hfound
  have hlength := hfound.length_le
  rw [List.length_map, honce l (htwice.subset List.mem_cons_self)] at hlength
  exact absurd hlength (by simp)

theorem categorical_sublist (F : Frame) : (Columns.categorical F).Sublist F.labels :=
  List.filter_sublist.map _

theorem warnings_outcome (choices : Choices) (encodings : List Encoding) :
    (warnings choices encodings).outcome = .ok () := by
  unfold warnings
  refine Logged.outcome_forM fun e => ?_
  split
  · split <;> rfl
  · rfl

/-! Fitting. -/

/-- What is learned from the columns with some labels. -/
def encodingsOf (named : List Label) (F : Frame) : List Encoding :=
  named.map fun l => .ofTexts l (textsOf F l)

def featureNames (named : List Label) (F : Frame) : List String :=
  named.flatMap fun l => (categoriesOf (textsOf F l)).map fun s => l.plain ++ "_" ++ s

def paramsOf (named : List Label) (F : Frame) : Options := [
  (.text "type", .text "onehot"),
  (.text "columns", .ofLabels named),
  (.text "feature_names", .ofTexts (featureNames named F)),
  (.text "categories_count", categoryCounts (encodingsOf named F)),
  (.text "drop_original", .bool true),
  (.text "include_missing", .bool true)]

theorem map_learn (named : List Label) (F : Frame) :
    (prepared named F).columns.map (Encoding.learn none false) = encodingsOf named F :=
  List.map_map

theorem names_encodingsOf (htexts : ∀ l ∈ named, l.isText = true) (F : Frame) :
    ∃ names, namesOf (encodingsOf named F) = .ok names ∧ names.flatten = featureNames named F := by
  refine ⟨named.map fun l => (categoriesOf (textsOf F l)).map fun s => l.plain ++ "_" ++ s, ?_, ?_⟩
  · unfold namesOf encodingsOf
    rw [List.mapM_map]
    refine mapM_ok fun l hl => ?_
    obtain ⟨name, rfl⟩ := Labels.exists_text (htexts l hl)
    exact Encoding.names_ofTexts name _
  · exact List.flatMap_def.symm

theorem resolve_categorical (F : Frame) (options : Options)
    (hoptions : (options.getD "columns" .null).isTrue = false) :
    Columns.resolve F options (some fun f => .ok (Columns.categorical f)) =
      .ok (Columns.categorical F) := by
  have hhas : (Columns.categorical F).filter F.has = Columns.categorical F := by
    exact List.filter_eq_self.2 fun l hl => Frame.has_of_mem ((categorical_sublist F).subset hl)
  unfold Columns.resolve
  simp only [hoptions, Bool.false_eq_true, if_false]
  exact congrArg Except.ok hhas

theorem encoder_calculate (hnamed : Columns.categorical F = named) (h : Encodable named F)
    (hsome : named ≠ []) :
    ((encoder []).calculate F).outcome = .ok (some ⟨paramsOf named F,
      apply ⟨false, none, false⟩ (encodingsOf named F), Mapping.returnsInput⟩) := by
  have hnodup : named.Nodup :=
    hnamed ▸ nodup_of_once (categorical_sublist F) (hnamed ▸ h.once)
  have hresolve := resolve_categorical F [] rfl
  have hempty : named.isEmpty = false := by simpa using hsome
  have hchoices : Choices.read [] = .ok ⟨false, none, false⟩ := rfl
  have hinclude : (Options.getD [] "include_missing" (.bool true)).isTrue = true := rfl
  have hrows : (prepared named F).rows ≠ 0 := h.rows hsome
  obtain ⟨selected, hselect, hprepare⟩ := Except.exists_of_bind h.prepare_select
  obtain ⟨names, hnames, hflatten⟩ := names_encodingsOf h.texts F
  rw [hnamed] at hresolve
  unfold encoder
  simp only [Logged.outcome_lift_bind, hresolve, Except.bind_ok, hempty, Bool.false_eq_true,
    if_false, hinclude]
  rw [hselect, Except.bind_ok, hprepare, Except.bind_ok, hchoices, Except.bind_ok, labels_prepared,
    checkLabels_texts h.texts hnodup, Except.bind_ok, if_neg hrows, map_learn, Logged.outcome_bind,
    warnings_outcome, Except.bind_ok, Logged.outcome_lift_bind, hnames, Except.bind_ok, hflatten]
  rfl

/-! Applying. -/

/-- New columns under names of their own. -/
theorem relabelAs_texts {α : Type} (index : List Label) (xs : List α) (column : α → Column)
    (name : α → String) :
    Frame.relabelAs ⟨index, xs.map column⟩ (.ofTexts (xs.map name)) =
      .ok ⟨index, xs.map fun x => (column x).rename (.text (name x))⟩ := by
  have hlabels : Value.labels? ((xs.map name).map Value.text) =
      some (xs.map fun x => .text (name x)) := by
    have htexts : (xs.map name).map Value.text = (xs.map fun x => Scalar.text (name x)).map .scalar := by
      rw [List.map_map, List.map_map]
      rfl
    rw [htexts, labels?_ofLabels]
  have hunified : Labels.unified (xs.map fun x => Scalar.text (name x)) =
      xs.map fun x => Scalar.text (name x) := by
    refine Labels.unified_of_texts fun l hl => ?_
    obtain ⟨x, -, rfl⟩ := List.mem_map.1 hl
    rfl
  unfold Value.ofTexts Frame.relabelAs
  simp only [hlabels]
  unfold Frame.relabelAll Frame.relabel
  rw [if_pos (by simp), hunified]
  dsimp only
  rw [List.zipWith_map, List.zipWith_self]

theorem encodeAll_prepared (named : List Label) (F X : Frame) :
    encodeAll ⟨false, none, false⟩ (encodingsOf named F) (prepared named X).columns =
      .ok (named.map fun l => (categoriesOf (textsOf F l)).map fun s =>
        ⟨.null, .int8, (textsOf X l).map fun t => .int (if s = t then 1 else 0)⟩) := by
  unfold encodeAll encodingsOf prepared
  rw [List.zip_map', List.mapM_map]
  exact mapM_ok fun l _ => Encoding.encode_ofTexts l _ _ rfl

/-- The indicators of all columns. -/
def blocksOf (named : List Label) (F X : Frame) : List Column :=
  named.flatMap fun l => indicatorsOf l (categoriesOf (textsOf F l)) (textsOf X l)

theorem texts_paramsOf (h : Encodable named X) (F : Frame) :
    texts (paramsOf named F) X (.ofLabels named) = .ok (prepared named X) := by
  have hinclude : ((paramsOf named F).getD "include_missing" (.bool true)).isTrue = true := rfl
  have hchosen : chosen (.ofLabels named) X = X.select named := by
    unfold chosen
    rw [extract_ofLabels]
    cases X.select named <;> rfl
  unfold texts
  rw [hinclude, hchosen]
  exact h.prepare_select

theorem new_encodingsOf (hnodup : named.Nodup) (h : Encodable named X) (hsome : named ≠ [])
    (F : Frame) : new ⟨false, none, false⟩ (encodingsOf named F) (paramsOf named F) X =
      .ok ⟨X.index, blocksOf named F X⟩ := by
  have hcolumns : (paramsOf named F).getD "columns" .null = .ofLabels named := rfl
  have hnames : (paramsOf named F).getD "feature_names" .null = .ofTexts (featureNames named F) :=
    rfl
  have hcheck : Fitted.check (paramsOf named F) "encoder_object" = .ok () := rfl
  have hlearned : (encodingsOf named F).map (·.label) = named := by
    unfold encodingsOf
    rw [List.map_map]
    exact List.map_id _
  have hrows : (prepared named X).rows ≠ 0 := h.rows hsome
  have hsame : Mapping.checkRows (prepared named X) X = .ok () := if_pos rfl
  -- every new column is that of a label and one of its categories
  let pairs := named.flatMap fun l => (categoriesOf (textsOf F l)).map fun s => (l, s)
  let column (p : Label × String) : Column :=
    ⟨.null, .int8, (textsOf X p.1).map fun t => .int (if p.2 = t then 1 else 0)⟩
  have hblocks : (named.map fun l => (categoriesOf (textsOf F l)).map fun s =>
      (⟨.null, .int8, (textsOf X l).map fun t => .int (if s = t then 1 else 0)⟩ : Column)).flatten =
        pairs.map column := by
    rw [← List.flatMap_def, List.map_flatMap]
    exact List.flatMap_congr fun l _ => by rw [List.map_map]; rfl
  have hpairs : featureNames named F = pairs.map fun p => p.1.plain ++ "_" ++ p.2 := by
    unfold featureNames
    rw [List.map_flatMap]
    exact List.flatMap_congr fun l _ => by rw [List.map_map]; rfl
  have hresult : pairs.map (fun p => (column p).rename (.text (p.1.plain ++ "_" ++ p.2))) =
      blocksOf named F X := by
    unfold blocksOf indicatorsOf
    rw [List.map_flatMap]
    exact List.flatMap_congr fun l _ => by rw [List.map_map]; rfl
  unfold new
  rw [hcolumns, hnames, texts_paramsOf h, Except.bind_ok, hcheck, Except.bind_ok, hlearned,
    labels_prepared, matchLabels_texts h.texts hnodup, Except.bind_ok, if_neg hrows,
    encodeAll_prepared, Except.bind_ok, hsame, Except.bind_ok, hblocks, hpairs, relabelAs_texts,
    hresult]

/-- The columns that are not encoded, and the indicators after them. -/
def encoded (named : List Label) (F X : Frame) : Frame :=
  (X.keepLabels fun x => !named.any fun l => l.finds x).beside ⟨X.index, blocksOf named F X⟩

theorem apply_encodingsOf (hnodup : named.Nodup) (h : Encodable named X) (hsome : named ≠ [])
    (F : Frame) : (Fitted.run ⟨paramsOf named F, apply ⟨false, none, false⟩ (encodingsOf named F),
      Mapping.returnsInput⟩ X).outcome = .ok (encoded named F X) := by
  have hcolumns : (paramsOf named F).getD "columns" .null = .ofLabels named := rfl
  have htrue : (Value.ofLabels named).isTrue = true := by
    cases named with
    | nil => exact absurd rfl hsome
    | cons l named => rfl
  have hdrop : ((paramsOf named F).getD "drop_original" (.bool true)).isTrue = true := rfl
  rw [Fitted.run_outcome, apply_outcome, hcolumns, htrue, if_neg (by decide),
    new_encodingsOf hnodup h hsome]
  unfold remainder
  rw [hdrop, if_pos rfl, Mapping.labelsIn_ofLabels, Frame.drop_eq h.texts h.mem]
  rfl

/-- What is learned from a frame answers every frame that can be encoded. -/
theorem exists_encoder (h : Encodable (Columns.categorical F) F) :
    ∃ f, ((encoder []).calculate F).outcome = .ok (some f) ∧
      ∀ X, Encodable (Columns.categorical F) X →
        (f.run X).outcome = .ok (encoded (Columns.categorical F) F X) := by
  by_cases hsome : Columns.categorical F = []
  · have hresolve := resolve_categorical F [] rfl
    have hnone : ∀ X, encoded [] F X = X := fun X =>
      congrArg (Frame.mk X.index) ((List.append_nil _).trans (List.filter_true X.columns))
    rw [hsome] at hresolve ⊢
    refine ⟨.identity, ?_, fun X _ => congrArg Except.ok (hnone X).symm⟩
    unfold encoder
    simp only [Logged.outcome_lift_bind, hresolve, Except.bind_ok, List.isEmpty_nil, if_true]
    rfl
  · exact ⟨_, encoder_calculate rfl h hsome, fun X hX =>
      apply_encodingsOf (nodup_of_once (categorical_sublist F) h.once) hX hsome F⟩

/-- A block of zeros and ones that tells apart the texts of some categories. -/
structure Faithful (l : Label) (cats ts : List String) (block : List Column) : Prop where
  labels : block.map (·.label) = cats.map fun s => .text (l.plain ++ "_" ++ s)
  whole : ∀ c ∈ block, c.dtype = .int8 ∧ c.cells.length = ts.length
  seen : ∀ i t, ts[i]? = some t → t ∈ cats → ∃ before after, cats = before ++ t :: after ∧
    rowIn block i = List.replicate before.length (.int 0) ++
      .int 1 :: List.replicate after.length (.int 0)
  unseen : ∀ i t, ts[i]? = some t → t ∉ cats →
    rowIn block i = List.replicate cats.length (.int 0)
  tells : ∀ i j t u, ts[i]? = some t → ts[j]? = some u → t ∈ cats → u ∈ cats →
    (rowIn block i = rowIn block j ↔ t = u)

theorem faithful_indicatorsOf {cats : List String} (hnodup : cats.Nodup) (l : Label)
    (ts : List String) : Faithful l cats ts (indicatorsOf l cats ts) where
  labels := by
    unfold indicatorsOf
    rw [List.map_map]
    rfl
  whole c hc := by
    obtain ⟨s, -, rfl⟩ := List.mem_map.1 hc
    exact ⟨rfl, List.length_map _⟩
  seen i t hi ht := by
    rw [rowIn_indicatorsOf hi]
    exact code_of_mem hnodup ht
  unseen i t hi ht := by
    rw [rowIn_indicatorsOf hi]
    exact code_of_not_mem ht
  tells i j t u hi hj ht _ := by
    rw [rowIn_indicatorsOf hi, rowIn_indicatorsOf hj]
    exact ⟨code_inj ht, fun h => h ▸ rfl⟩

/-- The encoder answers with the columns that it leaves alone and a faithful block for each of the
others, whose categories are the texts that it has learned from. -/
theorem encoder_faithful (F : Frame) (h : Encodable (Columns.categorical F) F) :
    ∃ f, ((encoder []).calculate F).outcome = .ok (some f) ∧ ∃ cats : Label → List String,
      (∀ l ∈ Columns.categorical F,
        (cats l).Pairwise (· < ·) ∧ ∀ s, s ∈ cats l ↔ s ∈ textsOf F l) ∧
      ∀ X, Encodable (Columns.categorical F) X →
        ∃ (G : Frame) (block : Label → List Column), (f.run X).outcome = .ok G ∧
          G.index = X.index ∧
          G.columns = (X.columns.filter fun c => !(Columns.categorical F).any fun l =>
            l.finds c.label) ++ (Columns.categorical F).flatMap block ∧
          ∀ l ∈ Columns.categorical F, Faithful l (cats l) (textsOf X l) (block l) ∧
            (X = F → ∀ i < (textsOf F l).length, .int 1 ∈ rowIn (block l) i) := by
  obtain ⟨f, hfit, hrun⟩ := exists_encoder h
  refine ⟨f, hfit, fun l => categoriesOf (textsOf F l),
    fun l _ => ⟨pairwise_categoriesOf _, fun s => mem_categoriesOf⟩, fun X hX => ?_⟩
  refine ⟨_, fun l => indicatorsOf l (categoriesOf (textsOf F l)) (textsOf X l), hrun X hX, rfl,
    rfl, fun l _ => ?_⟩
  have hnodup : (categoriesOf (textsOf F l)).Nodup :=
    (pairwise_categoriesOf _).imp fun hlt => ne_of_lt hlt
  refine ⟨faithful_indicatorsOf hnodup l _, ?_⟩
  rintro rfl i hi
  have hcell : (textsOf X l)[i]? = some (textsOf X l)[i] := List.getElem?_eq_getElem hi
  obtain ⟨before, after, -, hrow⟩ := (faithful_indicatorsOf hnodup l _).seen i _ hcell
    (mem_categoriesOf.2 (List.getElem_mem hi))
  rw [hrow]
  simp

theorem encoder_faithful_two :
    let F : Frame := ⟨rangeIndex 2, [⟨.text "c", .object, [.text "b", .null]⟩,
      ⟨.text "x", .int64, [.int 1, .int 2]⟩, ⟨.text "d", .bool, [.bool true, .bool true]⟩]⟩
    let X : Frame := ⟨rangeIndex 1, [⟨.text "d", .bool, [.bool false]⟩,
      ⟨.text "c", .text, [.text "b"]⟩]⟩
    Encodable (Columns.categorical F) F ∧ Encodable (Columns.categorical F) X ∧
      ∃ f G cats block, ((encoder []).calculate F).outcome = .ok (some f) ∧
        (f.run X).outcome = .ok G ∧ G.index = X.index ∧ block ⊆ G.columns ∧
        (∀ s, s ∈ cats ↔ s = "b" ∨ s = "__missing__") ∧ Faithful (.text "c") cats ["b"] block := by
  intro F X
  have hF : Encodable (Columns.categorical F) F :=
    ⟨by decide, by decide, by decide, by decide⟩
  have hX : Encodable (Columns.categorical F) X :=
    ⟨by decide, by decide, by decide, by decide⟩
  have hc : Scalar.text "c" ∈ Columns.categorical F := List.mem_cons_self
  obtain ⟨f, hfit, cats, hcats, hrun⟩ := encoder_faithful F hF
  obtain ⟨G, block, hG, hindex, hcolumns, hblocks⟩ := hrun X hX
  refine ⟨hF, hX, f, G, cats (.text "c"), block (.text "c"), hfit, hG, hindex, ?_, ?_, ?_⟩
  · rw [hcolumns]
    exact fun c hcolumn => List.mem_append_right _ (List.mem_flatMap.2 ⟨_, hc, hcolumn⟩)
  · have htexts : textsOf F (.text "c") = ["b", "__missing__"] := rfl
    intro s
    rw [(hcats _ hc).2, htexts]
    simp
  · exact (hblocks _ hc).1

/-- Frames without rows and columns with one label are refused, in fitting and afterwards. -/
theorem encoder_refuses_rowless_and_repeated :
    let F : Frame := ⟨rangeIndex 2, [⟨.text "c", .object, [.text "a", .text "b"]⟩]⟩
    let rowless : Frame := ⟨[], [⟨.text "c", .object, []⟩]⟩
    let repeated : Frame := ⟨rangeIndex 1, [⟨.text "c", .object, [.text "a"]⟩,
      ⟨.text "c", .object, [.text "b"]⟩]⟩
    ((encoder []).calculate rowless).outcome = .error (.unusable .value) ∧
      ((encoder []).calculate repeated).outcome = .error (.unusable .duplicate) ∧
      ∃ f, ((encoder []).calculate F).outcome = .ok (some f) ∧
        (f.run rowless).outcome = .error (.unusable .value) ∧
        (f.run repeated).outcome = .error (.unusable .duplicate) := by
  refine ⟨rfl, rfl, _, encoder_calculate rfl ⟨by decide, by decide, by decide, by decide⟩
    (by decide), ?_, ?_⟩ <;> rfl

end OneHot

end ColumnFlow
