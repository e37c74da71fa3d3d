import ColumnFlow.Proofs.Transform.ByLabel

/-!
# The labels of what comes out

What a transformer of the library has learned answers under labels that depend on the labels of the
frame alone. So whatever stands in the cells, and whichever rows there are, frames with the labels
of the frame that it learned from are answered under one and the same list of labels, and these are
texts again.
-/
namespace ColumnFlow

variable {F G : Frame} {L M named : List Label} {params : Options}
  {keeps : Options → Frame → Bool} {f : Fitted}

namespace Frame

theorem labels_under (F : Frame) (l : Label) :
    (F.under l).map (·.label) = F.labels.filter l.finds := by
  unfold under labels
  rw [List.filter_map]
  rfl

theorem labels_select (htexts : ∀ l ∈ named, l.isText = true) (hmem : ∀ l ∈ named, l ∈ F.labels)
    (h : F.select named = .ok G) : G.labels = named.flatMap fun l => F.labels.filter l.finds := by
  rw [select_eq htexts hmem] at h
  obtain rfl := Except.ok.inj h
  exact List.map_flatMap.trans (List.flatMap_congr fun l _ => F.labels_under l)

theorem labels_keepLabels (F : Frame) (p : Label → Bool) :
    (F.keepLabels p).labels = F.labels.filter p := by
  unfold keepLabels labels
  rw [List.filter_map]
  rfl

theorem labels_of_mapM {g : Column → Except Failure Column} {cs : List Column}
    (hg : ∀ c d, g c = .ok d → d.label = c.label) (h : F.columns.mapM g = .ok cs) :
    ({ F with columns := cs } : Frame).labels = F.labels := by
  have hall := forall₂_of_mapM h
  refine List.forall₂_eq_eq_eq ▸ List.forall₂_map_left_iff.2 (List.forall₂_map_right_iff.2 ?_)
  exact hall.flip.imp fun d c hd => hg c d hd

theorem labels_relabel_map (F : Frame) {g : Label → Label} (hg : ∀ l, (g l).isText = true) :
    (F.relabel (F.labels.map g)).labels = F.labels.map g := by
  have htexts : ∀ l ∈ F.labels.map g, l.isText = true := by
    intro l hl
    obtain ⟨c, -, rfl⟩ := List.mem_map.1 hl
    exact hg c
  have hlength : (F.labels.map g).length = F.columns.length :=
    (List.length_map _).trans (List.length_map _)
  rw [labels_relabel hlength, Labels.unified_of_texts htexts]

end Frame

/-- Whatever stands in a frame with the labels `L`, an answer to it has the labels `M`. -/
def Fitted.Carries (f : Fitted) (L M : List Label) : Prop :=
  ∀ F G : Frame, F.labels = L → (f.run F).outcome = .ok G → G.labels = M

/-- An answer that is the frame itself. -/
theorem Fitted.carries_self (h : ∀ F G : Frame, (f.run F).outcome = .ok G → G = F) :
    f.Carries L L := by
  intro F G hF hG
  rw [h F G hG, hF]

/-- An answer of columns that are kept, and new ones after them. -/
theorem Fitted.carries_beside {names : List Label} (p : Label → Bool)
    (htexts : ∀ l ∈ L, l.isText = true) (hnames : ∀ l ∈ names, l.isText = true)
    (h : ∀ F G : Frame, F.labels = L → (f.run F).outcome = .ok G →
      ∃ new : Frame, new.labels = names ∧ G = (F.keepLabels p).beside new) :
    ∃ M, (∀ l ∈ M, l.isText = true) ∧ f.Carries L M := by
  refine ⟨L.filter p ++ names, fun l hl => ?_, fun F G hF hG => ?_⟩
  · exact (List.mem_append.1 hl).elim (fun h => htexts l (List.mem_of_mem_filter h)) (hnames l)
  · obtain ⟨new, hnew, rfl⟩ := h F G hF hG
    rw [Frame.labels_beside, Frame.labels_keepLabels, hF, hnew]

theorem Selection.carries {type : Value} (htexts : ∀ l ∈ named, l.isText = true)
    (hnamed : ∀ l ∈ named, l ∈ L) :
    Fitted.Carries ⟨[(.text "type", type), (.text "columns", .ofLabels named)], apply, keeps⟩ L
      (named.flatMap fun l => L.filter l.finds) := by
  rintro F G rfl hG
  rw [Fitted.run_outcome, apply_outcome hnamed] at hG
  cases hselect : F.select named with
  | error e =>
    rw [hselect] at hG
    cases hG
  | ok S =>
    rw [hselect] at hG
    obtain rfl : S = G := Except.ok.inj hG
    exact Frame.labels_select htexts hnamed hselect

theorem Recast.carries (hparams : Fitted.columnsOf params = .ok named)
    (htexts : ∀ l ∈ named, l.isText = true) (hnamed : ∀ l ∈ named, l ∈ L) :
    Fitted.Carries ⟨params, apply, keeps⟩ L L := by
  rintro F G rfl hG
  rw [Fitted.run_outcome, apply_outcome hparams hnamed, columns_eq htexts hnamed] at hG
  cases hcolumns : F.columns.mapM fun c =>
      if named.any fun l => l.finds c.label then column c else .ok c with
  | error e =>
    rw [hcolumns] at hG
    cases hG
  | ok cs =>
    rw [hcolumns] at hG
    obtain rfl : { F with columns := cs } = G := Except.ok.inj hG
    refine Frame.labels_of_mapM (fun c d hd => ?_) hcolumns
    split at hd
    · exact label_column hd
    · rw [Except.ok.inj hd]

namespace Mapping

variable {m : Mapping} {learned names : List Label}

/-- New columns take the places of the old ones, or are put last where the old ones are dropped. -/
theorem carries (htexts : ∀ l ∈ L, l.isText = true)
    (hcolumns : params.getD "columns" .null = .ofLabels named) (hnamed : ∀ l ∈ named, l ∈ L)
    (hnames : ∀ l ∈ names, l.isText = true)
    (hparams : params.getD "feature_names" .null = .ofLabels names) :
    ∃ M, (∀ l ∈ M, l.isText = true) ∧
      Fitted.Carries ⟨params, m.apply learned, keeps⟩ L M := by
  have hrun : ∀ F : Frame, (Fitted.run ⟨params, m.apply learned, keeps⟩ F).outcome =
      (m.apply learned params F).outcome >>= fun e => .ok e.toFrame := fun F =>
    Fitted.run_outcome _ _
  simp only [apply_outcome] at hrun
  by_cases hnone : (!(params.getD "columns" .null).isTrue) = true
  · simp only [if_pos hnone] at hrun
    refine ⟨L, htexts, Fitted.carries_self fun F G hG => ?_⟩
    rw [hrun] at hG
    exact (Except.ok.inj hG).symm
  simp only [if_neg hnone] at hrun
  by_cases hsame : isSameListing (params.getD "feature_names" .null)
      (params.getD "columns" .null) = true
  · simp only [if_pos hsame] at hrun
    refine ⟨L, htexts, fun F G hF hG => ?_⟩
    rw [hrun] at hG
    obtain ⟨e, he, hG⟩ := Except.exists_of_bind hG
    obtain ⟨new, hnew, he⟩ := Except.exists_of_bind he
    obtain rfl := Except.ok.inj he
    obtain rfl := Except.ok.inj hG
    exact (Frame.labels_mapColumns (Frame.label_replaced _ _)).trans hF
  · simp only [if_neg hsame] at hrun
    refine Fitted.carries_beside (fun x => !named.any fun l => l.finds x) htexts hnames
      fun F G hF hG => ?_
    subst hF
    rw [hrun] at hG
    obtain ⟨e, he, hG⟩ := Except.exists_of_bind hG
    obtain ⟨new, hnew, he⟩ := Except.exists_of_bind he
    rw [hcolumns, labelsIn_ofLabels,
      Frame.drop_eq (fun l hl => htexts l (hnamed l hl)) hnamed] at he
    obtain rfl := Except.ok.inj he
    exact ⟨new, labels_new hnames hparams hnew, (Except.ok.inj hG).symm⟩

end Mapping

namespace OneHot

variable {choices : Choices} {encodings : List Encoding} {names : List Label}

/-- Indicators are put last. -/
theorem carries (htexts : ∀ l ∈ L, l.isText = true)
    (hcolumns : params.getD "columns" .null = .ofLabels named) (hnamed : ∀ l ∈ named, l ∈ L)
    (hnames : ∀ l ∈ names, l.isText = true)
    (hparams : params.getD "feature_names" .null = .ofLabels names) :
    ∃ M, (∀ l ∈ M, l.isText = true) ∧
      Fitted.Carries ⟨params, apply choices encodings, keeps⟩ L M := by
  have hrun : ∀ F : Frame, (Fitted.run ⟨params, apply choices encodings, keeps⟩ F).outcome =
      (apply choices encodings params F).outcome >>= fun e => .ok e.toFrame := fun F =>
    Fitted.run_outcome _ _
  simp only [apply_outcome] at hrun
  by_cases hnone : (!(params.getD "columns" .null).isTrue) = true
  · simp only [if_pos hnone] at hrun
    refine ⟨L, htexts, Fitted.carries_self fun F G hG => ?_⟩
    rw [hrun] at hG
    exact (Except.ok.inj hG).symm
  obtain ⟨p, hp⟩ := remainder_eq params fun l hl => htexts l (hnamed l hl)
  simp only [if_neg hnone] at hrun
  refine Fitted.carries_beside p htexts hnames fun F G hF hG => ?_
  subst hF
  rw [hrun] at hG
  obtain ⟨e, he, hG⟩ := Except.exists_of_bind hG
  obtain ⟨new, hnew, he⟩ := Except.exists_of_bind he
  rw [hcolumns, hp F hnamed] at he
  obtain rfl := Except.ok.inj he
  exact ⟨new, labels_new hnames hparams hnew, (Except.ok.inj hG).symm⟩

end OneHot

/-- What was learned from columns with some texts for labels answers all frames with these columns
under the same texts. -/
theorem Fitted.OfColumns.carries (h : f.OfColumns L) (htexts : ∀ l ∈ L, l.isText = true) :
    ∃ M, (∀ l ∈ M, l.isText = true) ∧ f.Carries L M := by
  cases h with
  | identity | passthrough =>
    refine ⟨L, htexts, carries_self fun F G hG => ?_⟩
    obtain rfl : F = G := Except.ok.inj hG
    rfl
  | selection type keeps hnamed =>
    refine ⟨_, fun l hl => ?_, Selection.carries (fun l hl => htexts l (hnamed l hl)) hnamed⟩
    obtain ⟨_, -, hl⟩ := List.mem_flatMap.1 hl
    exact htexts l (List.mem_of_mem_filter hl)
  | recast keeps hparams hnamed =>
    exact ⟨L, htexts, Recast.carries hparams (fun l hl => htexts l (hnamed l hl)) hnamed⟩
  | mapping m learned keeps hcolumns hnamed hparams hnames =>
    exact Mapping.carries htexts hcolumns hnamed hnames hparams
  | encoding choices encodings keeps hcolumns hnamed hparams hnames =>
    exact OneHot.carries htexts hcolumns hnamed hnames hparams

end ColumnFlow
