import ColumnFlow.Proofs.Node.Association
import ColumnFlow.Proofs.Node.Settling
import ColumnFlow.Proofs.Transform.Encoding
import ColumnFlow.Proofs.Transform.Recasting

/-!
# Numbers as categories

A sequence that recasts numbers of few values, selects the categorical columns and encodes them. The
texts that are encoded are those of the cells it was given, whichever step looks at them. So a number
has the same code in every frame, as long as it is of the same kind and the same sign.
-/
namespace ColumnFlow

variable {named : List Label} {F X Z : Frame} {l : Label} {c : Column} {u v : Value}

/-! Recast columns. -/

namespace Recast

theorem isRecast_iff (htexts : ∀ l ∈ named, l.isText = true) (hc : c ∈ X.columns) :
    isRecast named X c = true ↔ c.label ∈ named := by
  have hfinds : ∀ l ∈ named, Labels.foundAlone X.labels l c.label = true ↔ l = c.label := by
    intro l hl
    obtain ⟨name, rfl⟩ := Labels.exists_text (htexts l hl)
    have halone : Labels.foundAlone X.labels (.text name) = Labels.found X.labels (.text name) :=
      rfl
    rw [halone]
    unfold Labels.found
    split
    · rw [Label.finds_iff_left rfl, eq_comm]
    · next haccepts =>
      refine iff_of_false Bool.false_ne_true fun heq => haccepts ?_
      exact Frame.accepts_of_mem (heq ▸ List.mem_map_of_mem hc)
  unfold isRecast
  rw [List.any_eq_true]
  refine ⟨?_, fun h => ⟨_, h, (hfinds _ h).2 rfl⟩⟩
  rintro ⟨l, hl, hfound⟩
  rwa [← (hfinds l hl).1 hfound]

theorem textIn_numeric (h : c.dtype.isNumeric = true) : Categories.textIn c = Value.plain := by
  unfold Categories.textIn
  cases hdtype : c.dtype <;> simp only [hdtype, Dtype.isNumeric, Bool.false_eq_true] at h <;> rfl

/-- The text of a number in the only column with a label. -/
theorem getElem?_textsOf {i : ℕ} (honce : (X.under l).length = 1) (hc : c ∈ X.under l)
    (hnumeric : c.dtype.isNumeric = true) (hi : c.cells[i]? = some v)
    (hv : v.isMissing = false) : (OneHot.textsOf X l)[i]? = some v.plain := by
  obtain ⟨d, hd⟩ := List.length_eq_one_iff.1 honce
  obtain rfl : c = d := List.mem_singleton.1 (hd ▸ hc)
  unfold OneHot.textsOf Categories.filledTexts
  rw [hd, List.flatMap_singleton, List.getElem?_map, hi, textIn_numeric hnumeric, Option.map_some,
    hv]
  rfl

/-- A column that is recast keeps the texts that are encoded. -/
theorem filledTexts_recast (h : c.dtype.isNumeric = true) :
    Categories.filledTexts (recastColumn c) = Categories.filledTexts c := by
  have hobject : Categories.textIn (recastColumn c) = Value.plain := rfl
  unfold Categories.filledTexts
  rw [textIn_numeric h, hobject]
  unfold recastColumn
  rw [List.map_map]
  refine List.map_congr_left fun v _ => ?_
  rw [Function.comp_apply]
  unfold recastCell
  cases hmissing : v.isMissing with
  | true => simp [hmissing]
  | false => rfl

theorem label_recast (named : List Label) (X : Frame) (c : Column) :
    (if isRecast named X c then recastColumn c else c).label = c.label := by
  split <;> rfl

theorem labels_recast (named : List Label) (X : Frame) : (recast named X).labels = X.labels :=
  Frame.labels_mapColumns (label_recast named X)

theorem under_recast (named : List Label) (X : Frame) (l : Label) :
    (recast named X).under l =
      (X.under l).map fun c => if isRecast named X c then recastColumn c else c :=
  Frame.under_mapColumns (label_recast named X)

theorem textsOf_recast
    (h : ∀ c ∈ X.under l, isRecast named X c = true → c.dtype.isNumeric = true) :
    OneHot.textsOf (recast named X) l = OneHot.textsOf X l := by
  unfold OneHot.textsOf
  rw [under_recast, List.flatMap_map]
  refine List.flatMap_congr fun c hc => ?_
  split
  · next hrecast => exact filledTexts_recast (h c hc hrecast)
  · rfl

theorem isFillable_recast (h : Categories.isFillable c = true) :
    Categories.isFillable (if isRecast named X c then recastColumn c else c) = true := by
  split
  · rfl
  · exact h

end Recast

/-! Selected columns. -/

namespace Frame

/-- The columns with some labels. -/
def picked (labels : List Label) (X : Frame) : Frame := { X with columns := labels.flatMap X.under }

theorem filter_flatMap_under {labels : List Label} (htexts : ∀ l ∈ labels, l.isText = true)
    (hl : l.isText = true) (hnot : l ∉ labels) :
    (labels.flatMap X.under).filter (fun c => l.finds c.label) = [] := by
  refine List.filter_eq_nil_iff.2 fun c hc hfinds => hnot ?_
  obtain ⟨k, hk, hc⟩ := List.mem_flatMap.1 hc
  rw [← (Label.finds_iff_left hl).1 hfinds, ((mem_under (htexts k hk)).1 hc).2]
  exact hk

theorem under_picked {labels : List Label} (htexts : ∀ l ∈ labels, l.isText = true)
    (hnodup : labels.Nodup) (hl : l ∈ labels) : (picked labels X).under l = X.under l := by
  have hltext := htexts l hl
  obtain ⟨before, after, rfl⟩ := List.append_of_mem hl
  obtain ⟨hbefore, hafter⟩ : l ∉ before ∧ l ∉ after := by
    rw [List.nodup_middle, List.nodup_cons, List.mem_append] at hnodup
    exact not_or.1 hnodup.1
  have hself : (X.under l).filter (fun c => l.finds c.label) = X.under l :=
    List.filter_eq_self.2 fun c hc => (List.mem_filter.1 hc).2
  change ((before ++ l :: after).flatMap X.under).filter (fun c => l.finds c.label) = _
  rw [List.flatMap_append, List.flatMap_cons, List.filter_append, List.filter_append, hself,
    filter_flatMap_under (fun k hk => htexts k (by simp [hk])) hltext hbefore,
    filter_flatMap_under (fun k hk => htexts k (by simp [hk])) hltext hafter,
    List.nil_append, List.append_nil]

theorem labels_picked {labels : List Label} (htexts : ∀ l ∈ labels, l.isText = true)
    (honce : ∀ l ∈ labels, (X.under l).length = 1) : (picked labels X).labels = labels := by
  have hlabels : (picked labels X).labels = labels.flatMap fun l => (X.under l).map (·.label) :=
    List.map_flatMap
  rw [hlabels]
  refine (List.flatMap_congr (g := fun l => [l]) fun l hl => ?_).trans (List.flatMap_singleton' _)
  obtain ⟨c, hc⟩ := List.length_eq_one_iff.1 (honce l hl)
  rw [hc, List.map_singleton,
    ((mem_under (htexts l hl)).1 (hc ▸ List.mem_singleton_self c)).2]

end Frame

/-! Frames that the sequence is given. -/

namespace Recast

/-- The labels of the columns that are encoded. -/
def encodedIn (named : List Label) (F : Frame) : List Label :=
  Columns.categorical (recast named F)

/-- What the encoder is given. -/
def handed (named : List Label) (F X : Frame) : Frame :=
  (recast named X).picked (encodedIn named F)

/-- What a frame needs for a sequence that was fitted on the columns of another. -/
structure Recodable (named : List Label) (F X : Frame) : Prop where
  has : ∀ l ∈ F.labels, l ∈ X.labels
  numeric : ∀ l ∈ named, ∀ c ∈ X.under l, c.dtype.isNumeric = true
  once : ∀ l ∈ encodedIn named F, (X.under l).length = 1
  fillable : ∀ l ∈ encodedIn named F, ∀ c ∈ X.under l, Categories.isFillable c = true
  rows : encodedIn named F ≠ [] → X.rows ≠ 0

theorem encodedIn_sublist (named : List Label) (F : Frame) :
    (encodedIn named F).Sublist F.labels := by
  have hsub := OneHot.categorical_sublist (recast named F)
  rwa [labels_recast] at hsub

/-- A column that is recast is encoded. -/
theorem mem_encodedIn (htexts : ∀ l ∈ named, l.isText = true) (hl : l ∈ named)
    (hmem : l ∈ F.labels) : l ∈ encodedIn named F := by
  obtain ⟨c, hc, rfl⟩ := List.mem_map.1 hmem
  have hcolumn : recastColumn c ∈ (recast named F).columns := by
    refine List.mem_map.2 ⟨c, hc, ?_⟩
    rw [if_pos ((isRecast_iff htexts hc).2 hl)]
  exact List.mem_map.2 ⟨recastColumn c, List.mem_filter.2 ⟨hcolumn, rfl⟩, rfl⟩

theorem isText_encodedIn (htexts : ∀ l ∈ F.labels, l.isText = true) :
    ∀ l ∈ encodedIn named F, l.isText = true :=
  fun l hl => htexts l ((encodedIn_sublist named F).subset hl)

theorem under_handed (htexts : ∀ l ∈ F.labels, l.isText = true)
    (hnodup : (encodedIn named F).Nodup) (hl : l ∈ encodedIn named F) :
    (handed named F X).under l = (recast named X).under l :=
  Frame.under_picked (isText_encodedIn htexts) hnodup hl

namespace Recodable

theorem nodup (h : Recodable named F F) : (encodedIn named F).Nodup :=
  OneHot.nodup_of_once (encodedIn_sublist named F) h.once

theorem once_recast (h : Recodable named F X) (hl : l ∈ encodedIn named F) :
    ((recast named X).under l).length = 1 := by
  rw [under_recast, List.length_map]
  exact h.once l hl

theorem numeric_of_recast (h : Recodable named F X) (hnamed : ∀ l ∈ named, l.isText = true) :
    ∀ c ∈ X.columns, isRecast named X c = true → c.dtype.isNumeric = true := by
  intro c hc hrecast
  have hl := (isRecast_iff hnamed hc).1 hrecast
  exact h.numeric c.label hl c ((Frame.mem_under (hnamed _ hl)).2 ⟨hc, rfl⟩)

theorem labels_handed (h : Recodable named F X) (htexts : ∀ l ∈ F.labels, l.isText = true) :
    (handed named F X).labels = encodedIn named F :=
  Frame.labels_picked (isText_encodedIn htexts) fun _ hl => h.once_recast hl

theorem encodable (h : Recodable named F X) (htexts : ∀ l ∈ F.labels, l.isText = true)
    (hnodup : (encodedIn named F).Nodup) :
    OneHot.Encodable (encodedIn named F) (handed named F X) := by
  refine ⟨isText_encodedIn htexts, fun l hl => ?_, fun l hl c hc => ?_, h.rows⟩
  · rw [under_handed htexts hnodup hl]
    exact h.once_recast hl
  · rw [under_handed htexts hnodup hl, under_recast] at hc
    obtain ⟨d, hd, rfl⟩ := List.mem_map.1 hc
    exact isFillable_recast (h.fillable l hl d hd)

theorem textsOf_handed (h : Recodable named F X) (htexts : ∀ l ∈ F.labels, l.isText = true)
    (hnamed : ∀ l ∈ named, l.isText = true) (hnodup : (encodedIn named F).Nodup)
    (hl : l ∈ encodedIn named F) : OneHot.textsOf (handed named F X) l = OneHot.textsOf X l := by
  have hrecast : OneHot.textsOf (recast named X) l = OneHot.textsOf X l :=
    textsOf_recast fun c hc => h.numeric_of_recast hnamed c (List.mem_of_mem_filter hc)
  rw [← hrecast]
  unfold OneHot.textsOf
  rw [under_handed htexts hnodup hl]

/-- The encoder encodes all that it is given. -/
theorem categorical_handed (h : Recodable named F F) (htexts : ∀ l ∈ F.labels, l.isText = true) :
    Columns.categorical (handed named F F) = encodedIn named F := by
  refine Eq.trans ?_ (h.labels_handed htexts)
  unfold Columns.categorical Frame.labels
  refine congrArg (List.map Column.label) (List.filter_eq_self.2 fun c hc => ?_)
  obtain ⟨l, hl, hc⟩ := List.mem_flatMap.1 hc
  -- the label stands for one column only, and that one was chosen
  obtain ⟨d, hd, rfl⟩ := List.mem_map.1 hl
  obtain ⟨hmem, hcategorical⟩ := List.mem_filter.1 hd
  obtain ⟨e, he⟩ := List.length_eq_one_iff.1 (h.once_recast hl)
  have hd' : d ∈ (recast named F).under d.label :=
    (Frame.mem_under (isText_encodedIn htexts _ hl)).2 ⟨hmem, rfl⟩
  rw [he, List.mem_singleton] at hc hd'
  rw [hc, ← hd', hcategorical]

/-- Nothing is left beside the indicators, and these are of the texts of the frame itself. -/
theorem encoded_handed (hX : Recodable named F X) (hF : Recodable named F F)
    (htexts : ∀ l ∈ F.labels, l.isText = true) (hnamed : ∀ l ∈ named, l.isText = true) :
    OneHot.encoded (encodedIn named F) (handed named F F) (handed named F X) =
      ⟨X.index, OneHot.blocksOf (encodedIn named F) F X⟩ := by
  have hrest : (handed named F X).columns.filter (fun c =>
      !(encodedIn named F).any fun l => l.finds c.label) = [] := by
    refine List.filter_eq_nil_iff.2 fun c hc => ?_
    have hl : c.label ∈ encodedIn named F :=
      hX.labels_handed htexts ▸ List.mem_map_of_mem (f := Column.label) hc
    rw [Bool.not_eq_true', Bool.not_eq_false]
    exact List.any_eq_true.2 ⟨_, hl, Frame.finds_self _⟩
  have hblocks : OneHot.blocksOf (encodedIn named F) (handed named F F) (handed named F X) =
      OneHot.blocksOf (encodedIn named F) F X := by
    refine List.flatMap_congr fun l hl => ?_
    rw [hF.textsOf_handed htexts hnamed hF.nodup hl, hX.textsOf_handed htexts hnamed hF.nodup hl]
  unfold OneHot.encoded Frame.keepLabels Frame.beside
  dsimp only
  rw [hrest, hblocks]
  rfl

/-- Where numbers are recast, a row has the code of a row of the first frame if and only if they
have matching numbers. -/
theorem rowIn_eq_iff {d : Column} {i j : ℕ} (hX : Recodable named F X) (hF : Recodable named F F)
    (hl : l ∈ named) (hencoded : l ∈ encodedIn named F) (hc : c ∈ X.under l) (hd : d ∈ F.under l)
    (hctyped : c.Typed) (hdtyped : d.Typed) (hi : c.cells[i]? = some v) (hj : d.cells[j]? = some u)
    (hv : v.isMissing = false) (hu : u.isMissing = false) :
    let block (Z : Frame) := OneHot.indicatorsOf l (OneHot.categoriesOf (OneHot.textsOf F l))
      (OneHot.textsOf Z l)
    .int 1 ∈ OneHot.rowIn (block F) j ∧
      (OneHot.rowIn (block X) i = OneHot.rowIn (block F) j ↔ v.Matches u) := by
  have hcnumeric := hX.numeric l hl c hc
  have hdnumeric := hF.numeric l hl d hd
  have hvnumber := Value.isNumber_of_holds hcnumeric (hctyped v (List.mem_of_getElem? hi)) hv
  have hunumber := Value.isNumber_of_holds hdnumeric (hdtyped u (List.mem_of_getElem? hj)) hu
  have hvtext := getElem?_textsOf (hX.once l hencoded) hc hcnumeric hi hv
  have hutext := getElem?_textsOf (hF.once l hencoded) hd hdnumeric hj hu
  have hseen : u.plain ∈ OneHot.categoriesOf (OneHot.textsOf F l) :=
    OneHot.mem_categoriesOf.2 (List.mem_of_getElem? hutext)
  intro block
  rw [OneHot.rowIn_indicatorsOf hvtext, OneHot.rowIn_indicatorsOf hutext,
    ← Value.plain_eq_iff hvnumber hunumber]
  exact ⟨List.mem_map.2 ⟨_, hseen, congrArg Value.int (if_pos rfl)⟩,
    fun h => (OneHot.code_inj hseen h.symm).symm, fun h => h ▸ rfl⟩

end Recodable

end Recast

/-! Leaves. -/

namespace Node

variable {env : Surroundings} {w : Workspace} {s : Site} {t : Transformer} {f : Fitted}
  {y y' : Option Series} {m : Memory}

theorem slot_of_inputColumns {columns : List Label} (hcolumns : m.inputColumns s = some columns)
    (hlearned : m.learned s = .fitted f) :
    m.slot s.id = ⟨(m.slot s.id).name, some columns, .fitted f⟩ := by
  unfold Memory.inputColumns at hcolumns
  unfold Memory.learned at hlearned
  rw [← hcolumns, ← hlearned]

theorem train_transformer (hs : s.id < w.memory.next) (hy : alignTarget y X = .ok y')
    (hfit : (t.calculate X).outcome = .ok (some f)) :
    train env w ⟨.transformer t, s⟩ X y =
      .ok (Trained.guarded X.labels ⟨true, fun Z => Failure.byKind (f.run Z).outcome⟩) := by
  have hnext : (w.memory.withInput s none).next = w.memory.next := Memory.next_update _ _ _
  have hs' : s.id < (w.memory.withInput s none).next := hnext.symm ▸ hs
  have hlast : ((w.memory.withInput s none).withLearned s (.fitted f)).next = w.memory.next :=
    (Memory.next_update _ _ _).trans hnext
  have haligned : ∀ g : Option Series → Except String Trained,
      (Failure.byKind (.ok y') >>= g) = g y' := fun g => rfl
  unfold train
  simp only [Plan.fit]
  rw [Work.ended_fitting, hy, haligned, Work.ended_logged_bind, hfit]
  change Except.ok (trained (((w.memory.withInput s none).withLearned s (.fitted f)).withInput s
    (some X.labels)) ⟨.transformer t, s⟩) = _
  rw [trained_transformer (slot_of_inputColumns (inputColumns_withInput (hlast.symm ▸ hs))
    (Memory.learned_remembered hs'))]

/-- A transformer that learns something is fitted, and answers what was learned. -/
theorem exists_leaf (env : Surroundings) (hs : s.id < w.memory.next) (hy : alignTarget y X = .ok y')
    (hfit : (t.calculate X).outcome = .ok (some f)) :
    ∃ r, train env w ⟨.transformer t, s⟩ X y = .ok r ∧ r.fitted = true ∧
      ∀ {Z U : Frame}, (∀ l ∈ X.labels, l ∈ Z.labels) → (f.run Z).outcome = .ok U →
        r.answer Z = .ok U := by
  refine ⟨_, train_transformer hs hy hfit, rfl, fun {Z U} hmem hrun => ?_⟩
  have hall : X.labels.all Z.has = true :=
    List.all_eq_true.2 fun l hl => Frame.has_of_mem (hmem l hl)
  unfold Trained.guarded
  simp only [Bool.not_true, Bool.false_eq_true, if_false, hall, if_true, hrun]
  rfl

theorem alignTarget_of_index (h : Z.index = X.index) : alignTarget y Z = alignTarget y X := by
  have hrows : Z.rows = X.rows := congrArg List.length h
  unfold alignTarget Series.align checkLengths
  simp only [h, hrows]

end Node

section Steps

variable {tr : Trainer} {ts : List Trainer} {r : Trained} {rs : List Trained} {y : Option Series}

theorem Trainer.chain_cons (ht : tr X y = .ok r) (hZ : r.answer X = .ok Z)
    (hrest : Trainer.chain ts Z y = .ok rs) : Trainer.chain (tr :: ts) X y = .ok (r :: rs) := by
  cases ts with
  | nil =>
    obtain rfl : [] = rs := Except.ok.inj hrest
    simp only [chain, ht]
    rfl
  | cons u ts =>
    simp only [chain, ht, Except.bind_ok, hZ, hrest]
    rfl

theorem Trained.chained_cons (hZ : r.answer X = .ok Z) :
    Trained.chained (r :: rs) X = Trained.chained rs Z := by
  simp only [chained, hZ, Except.bind_ok]

end Steps

/-! The steps. -/

namespace Selection

/-- A selector that has chosen its columns. -/
def chooser (named : List Label) : Fitted :=
  ⟨[(.text "type", .text "categorical_selector"), (.text "columns", .ofLabels named)], apply,
    fun _ _ => false⟩

theorem categorical_calculate (Z : Frame) :
    ((categorical []).calculate Z).outcome = .ok (some (chooser (Columns.categorical Z))) := by
  have hresolve := OneHot.resolve_categorical Z [] rfl
  unfold categorical selector
  dsimp only
  rw [Logged.outcome_lift_bind, hresolve, Except.bind_ok]
  split <;> rfl

theorem chooser_run (htexts : ∀ l ∈ named, l.isText = true) (hmem : ∀ l ∈ named, l ∈ X.labels) :
    ((chooser named).run X).outcome = .ok (X.picked named) := by
  rw [Fitted.run_outcome]
  unfold chooser
  dsimp only
  rw [apply_outcome hmem, Frame.select_eq htexts hmem]
  rfl

end Selection

namespace Node

variable {env : Surroundings} {w : Workspace} {s s₁ s₂ s₃ : Site} {y y' : Option Series}
  {options : Options} {nodes : List Node} {rs : List Trained} {f : Fitted}

/-- A sequence whose steps can all be trained, and are fitted then, answers what they do. -/
theorem sequence_trained (hs : w.memory.Holds s.ids) (hparts : s.parts = sites nodes)
    (hy : alignTarget y F = .ok y') (hchain : Trainer.chain (nodes.map (train env w)) F y' = .ok rs)
    (hfitted : rs.all (·.fitted) = true) :
    ∃ r, train env w ⟨.sequential (plans nodes), s⟩ F y = .ok r ∧
      ∀ X, (∀ l ∈ F.labels, l ∈ X.labels) → r.answer X = Trained.chained rs X := by
  refine ⟨(Trained.sequence rs).guarded F.labels, ?_, fun X hmem => ?_⟩
  · rw [train_sequential hs hparts, Trainer.sequential, Trainer.fitting_of_aligned hy, hchain]
    rfl
  · have hall : F.labels.all X.has = true :=
      List.all_eq_true.2 fun l hl => Frame.has_of_mem (hmem l hl)
    unfold Trained.guarded Trained.sequence
    simp only [hfitted, Bool.not_true, Bool.false_eq_true, if_false, hall, if_true]

/-- The steps that encode numbers of few values with the categorical columns. -/
def recoder (options : Options) : List Plan :=
  [.transformer (Recast.discriminator options), .transformer (Selection.categorical []),
    .transformer (OneHot.encoder [])]

theorem recoder_trained (env : Surroundings) (hs : w.memory.Holds s.ids) (hparts : s.parts = [s₁, s₂, s₃])
    (hy : alignTarget y F = .ok y') (htexts : ∀ l ∈ F.labels, l.isText = true)
    (hnamed : Columns.resolve F options (some (Columns.lowCardinality
      (options.getD "max_categories" (.int 24)))) = .ok named)
    (hF : Recast.Recodable named F F) :
    ∃ r, train env w ⟨.sequential (recoder options), s⟩ F y = .ok r ∧
      ∀ X, Recast.Recodable named F X →
        r.answer X = .ok ⟨X.index, OneHot.blocksOf (Recast.encodedIn named F) F X⟩ := by
  have hnamedtexts : ∀ l ∈ named, l.isText = true := fun l hl =>
    htexts l (mem_of_resolve htexts hnamed l hl)
  have hetexts : ∀ l ∈ Recast.encodedIn named F, l.isText = true := Recast.isText_encodedIn htexts
  have hsub := Recast.encodedIn_sublist named F
  -- what the three steps learn from what they are given
  have hfirst : ((Recast.discriminator options).calculate F).outcome =
      .ok (some (Recast.recaster options named)) := by
    rw [Recast.discriminator_calculate]
    exact congrArg (Except.map _) hnamed
  have hsecond : ((Selection.categorical []).calculate (Recast.recast named F)).outcome =
      .ok (some (Selection.chooser (Recast.encodedIn named F))) :=
    Selection.categorical_calculate _
  obtain ⟨f, hthird, hencode⟩ := OneHot.exists_encoder (F := Recast.handed named F F) (by
    rw [hF.categorical_handed htexts]
    exact hF.encodable htexts hF.nodup)
  rw [hF.categorical_handed htexts] at hencode
  have htaken : ∀ q ∈ s.parts, q.id < w.memory.next := fun q hq =>
    hs.taken _ (Site.mem_ids_of_mem_part hq q.id_mem_ids)
  have haligned : ∀ Z : Frame, Z.index = F.index → alignTarget y' Z = .ok y' := fun Z hZ =>
    (alignTarget_of_index hZ).trans ((alignTarget_alignTarget hy F).trans hy)
  obtain ⟨first, ht₁, hfitted₁, hanswer₁⟩ := exists_leaf env (htaken s₁ (by simp [hparts]))
    (haligned F rfl) hfirst
  obtain ⟨second, ht₂, hfitted₂, hanswer₂⟩ := exists_leaf env (htaken s₂ (by simp [hparts]))
    (haligned (Recast.recast named F) rfl) hsecond
  obtain ⟨third, ht₃, hfitted₃, hanswer₃⟩ := exists_leaf env (htaken s₃ (by simp [hparts]))
    (haligned (Recast.handed named F F) rfl) hthird
  -- what they make of a frame
  have hrecast : ∀ X, Recast.Recodable named F X →
      first.answer X = .ok (Recast.recast named X) := fun X hX =>
    hanswer₁ hX.has (Recast.recaster_run_numeric options (hX.numeric_of_recast hnamedtexts))
  have hchosen : ∀ X, Recast.Recodable named F X →
      second.answer (Recast.recast named X) = .ok (Recast.handed named F X) := by
    intro X hX
    have hlabels : ∀ l ∈ F.labels, l ∈ (Recast.recast named X).labels := by
      rw [Recast.labels_recast]
      exact hX.has
    refine hanswer₂ ?_ (Selection.chooser_run hetexts fun l hl => hlabels l (hsub.subset hl))
    rw [Recast.labels_recast]
    exact hlabels
  have hencoded : ∀ X, Recast.Recodable named F X →
      third.answer (Recast.handed named F X) =
        .ok ⟨X.index, OneHot.blocksOf (Recast.encodedIn named F) F X⟩ := by
    intro X hX
    rw [← hX.encoded_handed hF htexts hnamedtexts]
    refine hanswer₃ ?_ (hencode _ (hX.encodable htexts hF.nodup))
    rw [hF.labels_handed htexts, hX.labels_handed htexts]
    exact fun l hl => hl
  have hnone : ∀ Z : Frame, Trainer.chain [] Z y' = .ok [] := fun Z => rfl
  have hchain := Trainer.chain_cons ht₁ (hrecast F hF) (Trainer.chain_cons ht₂ (hchosen F hF)
    (Trainer.chain_cons ht₃ (hencoded F hF) (hnone _)))
  have hfitted : [first, second, third].all (·.fitted) = true := by
    simp only [List.all_cons, List.all_nil, hfitted₁, hfitted₂, hfitted₃, Bool.and_true]
  have hnodes : s.parts = sites [⟨.transformer (Recast.discriminator options), s₁⟩,
      ⟨.transformer (Selection.categorical []), s₂⟩, ⟨.transformer (OneHot.encoder []), s₃⟩] :=
    hparts
  obtain ⟨r, hr, hanswer⟩ := sequence_trained hs hnodes hy hchain hfitted
  refine ⟨r, hr, fun X hX => ?_⟩
  rw [hanswer X hX.has, Trained.chained_cons (hrecast X hX), Trained.chained_cons (hchosen X hX),
    Trained.chained_cons (hencoded X hX)]
  rfl

/-- A recast tells numbers of one kind and one sign apart just as they are, in whichever frames they
stand. So a number that a sequence was fitted with has the same code in every frame. -/
theorem recast_tells_numbers (options : Options) (F : Frame) :
    ((options.getD "columns" .null).isTrue = false →
      (options.getD "max_categories" (.int 24)).number?.isSome = true →
      Frame.hasRepeats F.labels = false →
      ∃ f, ((Recast.discriminator options).calculate F).outcome = .ok (some f)) ∧
    ∀ f, ((Recast.discriminator options).calculate F).outcome = .ok (some f) →
    ∃ named, Columns.resolve F options (some (Columns.lowCardinality
        (options.getD "max_categories" (.int 24)))) = .ok named ∧
      (∀ X, (∀ c ∈ X.columns, Recast.isRecast named X c = true → c.dtype.isNumeric = true) →
        ∃ G, (f.run X).outcome = .ok G) ∧
      (∀ X G, (f.run X).outcome = .ok G → G.index = X.index ∧ List.Forall₂ (fun c d =>
        if Recast.isRecast named X c = true then c.dtype.isNumeric = true → d = Recast.recastColumn c
        else d = c) X.columns G.columns) ∧
      (∀ c d : Column, c.dtype.isNumeric = true → d.dtype.isNumeric = true → c.Typed → d.Typed →
        ∀ v ∈ c.cells, ∀ u ∈ d.cells, v.isMissing = false → u.isMissing = false →
          (Recast.recastCell v = Recast.recastCell u ↔ v.Matches u)) ∧
      ∀ (env : Surroundings) (w : Workspace) (s s₁ s₂ s₃ : Site) (y y' : Option Series),
        w.memory.Holds s.ids → s.parts = [s₁, s₂, s₃] → alignTarget y F = .ok y' →
        (∀ l ∈ F.labels, l.isText = true) → Recast.Recodable named F F →
        ∃ (r : Trained) (block : Frame → Label → List Column),
          train env w ⟨.sequential (recoder options), s⟩ F y = .ok r ∧
          ∀ X, Recast.Recodable named F X →
            r.answer X = .ok ⟨X.index, (Recast.encodedIn named F).flatMap (block X)⟩ ∧
            ∀ l ∈ named, l ∈ Recast.encodedIn named F ∧
              (block X l).map (·.label) = (block F l).map (·.label) ∧
              ∀ c ∈ X.under l, ∀ d ∈ F.under l, c.Typed → d.Typed → ∀ i j v u,
                c.cells[i]? = some v → d.cells[j]? = some u →
                v.isMissing = false → u.isMissing = false →
                  .int 1 ∈ OneHot.rowIn (block F l) j ∧
                  (OneHot.rowIn (block X l) i = OneHot.rowIn (block F l) j ↔ v.Matches u) := by
  refine ⟨Recast.exists_recaster, fun f hfit => ?_⟩
  rw [Recast.discriminator_calculate] at hfit
  cases hnamed : Columns.resolve F options (some (Columns.lowCardinality
      (options.getD "max_categories" (.int 24)))) with
  | error e =>
    rw [hnamed] at hfit
    cases hfit
  | ok named =>
    rw [hnamed] at hfit
    obtain rfl : Recast.recaster options named = f := Option.some.inj (Except.ok.inj hfit)
    refine ⟨named, rfl, fun X hX => ⟨_, Recast.recaster_run_numeric options hX⟩,
      fun X G => Recast.recast_of_run, ?_, ?_⟩
    · intro c d hc hd hctyped hdtyped v hv u hu hvhere huhere
      exact Recast.recastCell_eq_iff (Value.isNumber_of_holds hc (hctyped v hv) hvhere)
        (Value.isNumber_of_holds hd (hdtyped u hu) huhere)
    · intro env w s s₁ s₂ s₃ y y' hs hparts hy htexts hF
      obtain ⟨r, hr, hanswer⟩ := recoder_trained env hs hparts hy htexts hnamed hF
      refine ⟨r, fun X l => OneHot.indicatorsOf l (OneHot.categoriesOf (OneHot.textsOf F l))
        (OneHot.textsOf X l), hr, fun X hX => ⟨hanswer X hX, fun l hl => ?_⟩⟩
      have hnamedtexts : ∀ l ∈ named, l.isText = true := fun l hl =>
        htexts l (mem_of_resolve htexts hnamed l hl)
      have hencoded : l ∈ Recast.encodedIn named F :=
        Recast.mem_encodedIn hnamedtexts hl (mem_of_resolve htexts hnamed l hl)
      refine ⟨hencoded, by unfold OneHot.indicatorsOf; rw [List.map_map, List.map_map]; rfl, ?_⟩
      exact fun c hc d hd hctyped hdtyped i j v u hi hj hv hu =>
        hX.rowIn_eq_iff hF hl hencoded hc hd hctyped hdtyped hi hj hv hu

theorem recast_tells_numbers_whole :
    let F : Frame := ⟨rangeIndex 3, [⟨.text "c", .int64, [.int 1, .int 2, .int 1]⟩]⟩
    let X : Frame := ⟨rangeIndex 2, [⟨.text "c", .int64, [.int 5, .int 2]⟩]⟩
    let w : Workspace := ⟨⟨#[.fresh (.text "cn"), .fresh (.text "cf"), .fresh (.text "ohe"),
      .fresh (.text "seq")]⟩, [], false⟩
    let s : Site := .mk 3 [.mk 0 [], .mk 1 [], .mk 2 []]
    ∃ (f : Fitted) (r : Trained) (block : Frame → List Column),
      ((Recast.discriminator []).calculate F).outcome = .ok (some f) ∧
      train ⟨.error (.unusable .value), .builtin⟩ w ⟨.sequential (recoder []), s⟩ F none = .ok r ∧
      r.answer X = .ok ⟨X.index, block X⟩ ∧
      OneHot.rowIn (block X) 1 = OneHot.rowIn (block F) 1 ∧
      OneHot.rowIn (block X) 0 ≠ OneHot.rowIn (block F) 1 := by
  intro F X w s
  obtain ⟨hexists, htells⟩ := recast_tells_numbers [] F
  obtain ⟨f, hfit⟩ := hexists (by decide) (by decide) (by decide)
  obtain ⟨named, hnamed, -, -, -, hsequence⟩ := htells f hfit
  have hlow : Columns.resolve F [] (some (Columns.lowCardinality (.int 24))) = .ok [.text "c"] := by
    rfl
  obtain rfl := Except.ok.inj (hnamed.symm.trans hlow)
  have hencoded : Recast.encodedIn [.text "c"] F = [.text "c"] := by rfl
  have hF : Recast.Recodable [.text "c"] F F :=
    ⟨fun _ h => h, by decide, by rw [hencoded]; decide, by rw [hencoded]; decide, fun _ => by decide⟩
  have hX : Recast.Recodable [.text "c"] F X :=
    ⟨fun _ h => h, by decide, by rw [hencoded]; decide, by rw [hencoded]; decide, fun _ => by decide⟩
  obtain ⟨r, block, hr, hanswers⟩ := hsequence ⟨.error (.unusable .value), .builtin⟩ w s _ _ _ none
    none ⟨by decide, by decide⟩ rfl rfl (by decide) hF
  obtain ⟨hanswer, hcells⟩ := hanswers X hX
  obtain ⟨-, -, hrows⟩ := hcells (.text "c") (List.mem_singleton_self _)
  have htwo := hrows _ (List.mem_singleton_self _) _ (List.mem_singleton_self _) (by decide)
    (by decide) 1 1 (.int 2) (.int 2) rfl rfl rfl rfl
  have hfive := hrows _ (List.mem_singleton_self _) _ (List.mem_singleton_self _) (by decide)
    (by decide) 0 1 (.int 5) (.int 2) rfl rfl rfl rfl
  rw [hencoded, List.flatMap_singleton] at hanswer
  exact ⟨f, r, fun Z => block Z (.text "c"), hfit, hr, hanswer, htwo.2.2 ⟨rfl, rfl, rfl⟩,
    fun h => absurd (hfive.2.1 h).1 (by decide)⟩

/-- A column that has become binary, for a cell that is missing, has other labels for its numbers. -/
theorem equal_numbers_recast_apart :
    let F : Frame := ⟨rangeIndex 3, [⟨.text "c", .int64, [.int 1, .int 2, .int 1]⟩]⟩
    let X : Frame := ⟨rangeIndex 3,
      [⟨.text "c", .float64, [.float 1, .float Decimal.notANumber, .float 2]⟩]⟩
    ∃ f, ((Recast.discriminator []).calculate F).outcome = .ok (some f) ∧
      (f.run F).outcome =
        .ok ⟨F.index, [⟨.text "c", .object, [.text "1", .text "2", .text "1"]⟩]⟩ ∧
      (f.run X).outcome = .ok ⟨X.index,
        [⟨.text "c", .object, [.text "1.0", .float Decimal.notANumber, .text "2.0"]⟩]⟩ ∧
      (Value.int 1).equals (.float 1) = true ∧ (Value.int 2).equals (.float 2) = true := by
  refine ⟨_, rfl, rfl, ?_, rfl, rfl⟩
  rfl

end Node

end ColumnFlow
