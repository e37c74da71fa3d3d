import ColumnFlow.Proofs.Frame.Joining
import ColumnFlow.Proofs.Node.Trainer
import ColumnFlow.Transform.OneHot

/-!
# Transformers go by label

What the transformers of the library learn speaks of columns by their labels, and only of columns
of the frame they learned from. It does the same to a frame that has these columns and to every
frame that this one is within: columns are chosen, recast, replaced and left out alike, and new
columns are the same, since they are computed from what was looked up. All other columns come
through as they are, so they must not have the label of a new one.
-/
namespace ColumnFlow

/-- The transformers of the library: selectors, the recast, the passthrough, the encoder, and every
method that maps columns to new ones. -/
inductive Transformer.BuiltIn : Transformer → Prop
  | categorical (options : Options) : BuiltIn (Selection.categorical options)
  | numeric (options : Options) : BuiltIn (Selection.numeric options)
  | discriminator (options : Options) : BuiltIn (Recast.discriminator options)
  | passthrough (options : Options) : BuiltIn (Passthrough.passthrough options)
  | encoder (options : Options) : BuiltIn (OneHot.encoder options)
  | method (m : Method) (binding : String) (defaults options : Options) :
    BuiltIn (m.transformer binding defaults options)

/-- What was learned from columns with some labels does the same to a frame with these columns and
to every frame that it is within, as long as the other columns there meet nothing new. -/
def Fitted.ByLabel (f : Fitted) (labels : List Label) : Prop :=
  ∀ F F' G : Frame, F.Within F' → (∀ l ∈ labels, l ∈ F.labels) → F.Spares F' G →
    (f.run F).outcome = .ok G → ∃ G', (f.run F').outcome = .ok G' ∧ G.Within G'

variable {labels named : List Label} {X F F' G : Frame} {options params : Options} {l : Label}
  {keeps : Options → Frame → Bool} {type : Value}

theorem labels?_ofLabels (labels : List Label) :
    Value.labels? (labels.map Value.scalar) = some labels := by
  induction labels with
  | nil => rfl
  | cons l labels ih => simp only [List.map_cons, Value.labels?, Value.label?, ih]

theorem listed_ofLabels (labels : List Label) : Columns.listed (.ofLabels labels) = .ok labels := by
  have hitems : (labels.map Value.scalar).mapM (fun v : Value =>
      v.label?.elim (.error (.unusable .type)) .ok) =
        (.ok labels : Except Failure (List Label)) := by
    induction labels with
    | nil => rfl
    | cons l labels ih =>
      rw [List.map_cons, List.mapM_cons, ih]
      rfl
  exact hitems

theorem extract_ofLabels (X : Frame) (labels : List Label) :
    X.extract (.ofLabels labels) = (X.select labels).map .frame := by
  unfold Value.ofLabels Frame.extract
  simp only [labels?_ofLabels]

theorem mem_of_resolve {choose : Option (Frame → Except Failure (List Label))}
    (htexts : ∀ l ∈ X.labels, l.isText = true)
    (h : Columns.resolve X options choose = .ok named) : ∀ l ∈ named, l ∈ X.labels := by
  have hfilter : ∀ ls : Except Failure (List Label),
      (ls >>= fun ls => .ok (ls.filter X.has)) = .ok named → ∀ l ∈ named, l ∈ X.labels := by
    intro ls hls l hl
    cases ls with
    | error e => cases hls
    | ok ls =>
      obtain rfl := Except.ok.inj hls
      exact (Frame.has_iff htexts).1 (List.mem_filter.1 hl).2
  unfold Columns.resolve at h
  dsimp only at h
  split at h
  · exact hfilter _ h
  · cases choose with
    | none =>
      obtain rfl := Except.ok.inj h
      exact fun l hl => hl
    | some choose => exact hfilter _ h

theorem Logged.outcome_lift_bind {α β : Type} (x : Except Failure α) (f : α → Logged β) :
    ((liftM x : Logged α) >>= f).outcome = x >>= fun a => (f a).outcome :=
  outcome_bind _ _

theorem Logged.outcome_pure {α : Type} (a : α) : (pure a : Logged α).outcome = .ok a := rfl

theorem Fitted.run_outcome (f : Fitted) (X : Frame) :
    (f.run X).outcome = (f.apply f.params X).outcome >>= fun e => .ok e.toFrame :=
  Logged.outcome_bind _ _

namespace Selection

theorem apply_outcome (hnamed : ∀ l ∈ named, l ∈ X.labels) :
    (apply [(.text "type", type), (.text "columns", .ofLabels named)] X).outcome =
      (X.select named).map .frame := by
  have hcolumns : Options.getD [(.text "type", type), (.text "columns", .ofLabels named)] "columns"
      (.list []) = .ofLabels named := rfl
  have hmissing : named.filter (fun l => !X.has l) = [] :=
    List.filter_eq_nil_iff.2 fun l hl => by simp [Frame.has_of_mem (hnamed l hl)]
  unfold apply Fitted.columnsOf
  rw [hcolumns, listed_ofLabels, Logged.outcome_lift_bind, Except.bind_ok, hmissing]
  dsimp only
  rw [extract_ofLabels]
  rfl

theorem byLabel (hnamed : ∀ l ∈ named, l ∈ labels) :
    Fitted.ByLabel ⟨[(.text "type", type), (.text "columns", .ofLabels named)], apply, keeps⟩
      labels := by
  intro F F' G h hlabels hspares hG
  have hmem : ∀ l ∈ named, l ∈ F.labels := fun l hl => hlabels l (hnamed l hl)
  rw [Fitted.run_outcome] at hG ⊢
  rw [apply_outcome hmem] at hG
  rw [apply_outcome fun l hl => h.mem (hmem l hl), h.select hmem]
  refine ⟨G, hG, .refl ?_⟩
  cases hselect : F.select named with
  | error e =>
    rw [hselect] at hG
    cases hG
  | ok S =>
    rw [hselect] at hG
    obtain rfl : S = G := Except.ok.inj hG
    exact Frame.texts_of_select (fun l hl => h.texts l (hmem l hl)) hmem hselect

end Selection

theorem Passthrough.byLabel (params : Options) (labels : List Label) :
    Fitted.ByLabel ⟨params, apply, keeps⟩ labels := by
  intro F F' G h _ _ hG
  obtain rfl : F = G := Except.ok.inj hG
  exact ⟨F', rfl, h⟩

theorem Fitted.identity_byLabel (labels : List Label) : Fitted.identity.ByLabel labels := by
  intro F F' G h _ _ hG
  obtain rfl : F = G := Except.ok.inj hG
  exact ⟨F', rfl, h⟩

namespace Recast

theorem label_column {c d : Column} (h : column c = .ok d) : d.label = c.label := by
  unfold column at h
  split at h
  · rw [← Except.ok.inj h]
  · cases hlevels : hasLevels c <;> rw [hlevels] at h
    · cases h
    · cases htexts : Categories.prepareColumn false c <;> rw [htexts] at h
      · cases h
      · rw [← Except.ok.inj h]

theorem columns_eq (htexts : ∀ l ∈ named, l.isText = true) (hnamed : ∀ l ∈ named, l ∈ X.labels) :
    columns named X = X.columns.mapM fun c =>
      if named.any fun l => l.finds c.label then column c else .ok c := by
  have hlookups : named.map (Labels.foundAlone X.labels) = named.map Label.finds := by
    refine List.map_congr_left fun l hl => ?_
    have hnull : l.isNull = false := by
      obtain ⟨s, rfl⟩ := Labels.exists_text (htexts l hl)
      rfl
    unfold Labels.foundAlone Labels.found
    simp only [hnull, Bool.false_and, Bool.false_eq_true, if_false,
      Frame.accepts_of_mem (hnamed l hl), if_true]
  unfold columns
  rw [hlookups]
  simp only [List.any_map]
  rfl

theorem apply_outcome {params : Options} (hparams : Fitted.columnsOf params = .ok named)
    (hnamed : ∀ l ∈ named, l ∈ X.labels) :
    (apply params X).outcome =
      (columns named X).map fun cs => .frame { X with columns := cs } := by
  have hpresent : presentIn params X = .ok named := by
    unfold presentIn
    rw [hparams]
    exact congrArg Except.ok (List.filter_eq_self.2 fun l hl => Frame.has_of_mem (hnamed l hl))
  unfold apply
  rw [hpresent, Logged.outcome_lift_bind]
  change ((liftM (columns named X) : Logged _) >>= fun cs => _).outcome = _
  rw [Logged.outcome_lift_bind]
  cases columns named X <;> rfl

theorem byLabel {params : Options} (hparams : Fitted.columnsOf params = .ok named)
    (hnamed : ∀ l ∈ named, l ∈ labels) : Fitted.ByLabel ⟨params, apply, keeps⟩ labels := by
  intro F F' G h hlabels hspares hG
  have hmem : ∀ l ∈ named, l ∈ F.labels := fun l hl => hlabels l (hnamed l hl)
  have htexts : ∀ l ∈ named, l.isText = true := fun l hl => h.texts l (hmem l hl)
  have hmem' : ∀ l ∈ named, l ∈ F'.labels := fun l hl => h.mem (hmem l hl)
  rw [Fitted.run_outcome] at hG ⊢
  rw [apply_outcome hparams hmem, columns_eq htexts hmem] at hG
  rw [apply_outcome hparams hmem', columns_eq htexts hmem']
  cases hcolumns : F.columns.mapM fun c =>
      if named.any fun l => l.finds c.label then column c else .ok c with
  | error e =>
    rw [hcolumns] at hG
    cases hG
  | ok cs =>
    rw [hcolumns] at hG
    obtain rfl : { F with columns := cs } = G := Except.ok.inj hG
    have hlabel : ∀ c d, (if named.any fun l => l.finds c.label then column c else .ok c) = .ok d →
        d.label = c.label := by
      intro c d hd
      split at hd
      · exact label_column hd
      · rw [Except.ok.inj hd]
    have hother : ∀ c ∈ F'.columns, c.label ∉ F.labels →
        (if named.any fun l => l.finds c.label then column c else .ok c) = .ok c := by
      intro c hc hnot
      rw [if_neg]
      rw [Bool.not_eq_true, List.any_eq_false]
      intro l hl hfinds
      rw [(Label.finds_iff_left (htexts l hl)).1 hfinds] at hnot
      exact hnot (hmem l hl)
    obtain ⟨cs', hcs', hwithin⟩ := h.mapM hlabel hother hcolumns
    exact ⟨{ F' with columns := cs' }, by rw [hcs']; rfl, hwithin⟩

end Recast

namespace Frame

theorem label_replaced (labels : List Label) (new : List Column) (c : Column) :
    (Mapping.successor labels new c).label = c.label := by
  unfold Mapping.successor
  split <;> rfl

theorem Within.replace (h : F.Within F') (labels : List Label) (new : List Column) :
    (Mapping.replace F labels new).Within (Mapping.replace F' labels new) :=
  h.mapColumns (label_replaced labels new)

theorem Within.dropped_beside (h : F.Within F') {new : Frame} (p : Label → Bool)
    (hnew : ∀ l ∈ new.labels, l.isText = true)
    (hspares : F.Spares F' ((F.keepLabels p).beside new)) :
    ((F.keepLabels p).beside new).Within ((F'.keepLabels p).beside new) := by
  refine (h.keepLabels p).beside hnew fun l hl hmem => ?_
  obtain ⟨hmem', hp⟩ := mem_labels_keepLabels.1 hmem
  refine mem_labels_keepLabels.2 ⟨hspares l ?_ hmem', hp⟩
  rw [labels_beside, List.mem_append]
  exact .inr hl

theorem labels_of_relabelAs {names : List Label} (hnames : ∀ l ∈ names, l.isText = true)
    (h : F.relabelAs (.ofLabels names) = .ok G) : G.labels = names := by
  unfold Value.ofLabels relabelAs at h
  simp only [labels?_ofLabels] at h
  unfold relabelAll at h
  split at h
  case isTrue hlength =>
    rw [← Except.ok.inj h, labels_relabel hlength, Labels.unified_of_texts hnames]
  case isFalse => cases h

end Frame

namespace Mapping

/-- The new columns that a mapping makes of a frame. -/
def new (m : Mapping) (learned : List Label) (params : Options) (X : Frame) :
    Except Failure Frame := do
  Fitted.check params "transformer_object"
  let old ← chosen (params.getD "columns" .null) X
  if m.names.isSome then Numbers.matchLabels learned old.labels
  let new ← m.map old
  checkRows old X
  Frame.relabelAs ⟨X.index, new⟩ (params.getD "feature_names" .null)

theorem apply_outcome (m : Mapping) (learned : List Label) (params : Options) (X : Frame) :
    (m.apply learned params X).outcome =
      if !(params.getD "columns" .null).isTrue then .ok (.frame X)
      else m.new learned params X >>= fun new =>
        if isSameListing (params.getD "feature_names" .null) (params.getD "columns" .null) then
          .ok (.frame (replace X (labelsIn (params.getD "columns" .null)) new.columns))
        else X.drop (labelsIn (params.getD "columns" .null)) >>= fun rest =>
          .ok (.frame (rest.beside new)) := by
  unfold apply new
  dsimp only
  split
  · rfl
  · cases m.names.isSome <;>
      simp only [Logged.outcome_lift_bind, apply_ite Logged.outcome, Logged.outcome_pure,
        bind_assoc, Bool.false_eq_true, if_true, if_false]

variable {m : Mapping} {learned names : List Label}

theorem labelsIn_ofLabels (labels : List Label) : labelsIn (.ofLabels labels) = labels := by
  unfold labelsIn Value.ofLabels
  simp only [labels?_ofLabels, Option.getD_some]

theorem chosen_ofLabels (h : F.Within F') (hnamed : ∀ l ∈ named, l ∈ F.labels) :
    chosen (.ofLabels named) F' = chosen (.ofLabels named) F := by
  unfold chosen
  rw [extract_ofLabels, extract_ofLabels, h.select hnamed]

theorem checkRows_eq (h : F.Within F') (old : Frame) : checkRows old F' = checkRows old F := by
  have hrows : F'.rows = F.rows := congrArg List.length h.index
  unfold checkRows
  rw [hrows]

theorem new_eq (h : F.Within F') (hnamed : ∀ l ∈ named, l ∈ F.labels)
    (hcolumns : params.getD "columns" .null = .ofLabels named) :
    m.new learned params F' = m.new learned params F := by
  unfold new
  simp only [hcolumns, chosen_ofLabels h hnamed, checkRows_eq h, h.index]

theorem labels_new (hnames : ∀ l ∈ names, l.isText = true)
    (hparams : params.getD "feature_names" .null = .ofLabels names)
    (h : m.new learned params X = .ok G) : G.labels = names := by
  unfold new at h
  rw [hparams] at h
  obtain ⟨_, -, h⟩ := Except.exists_of_bind h
  obtain ⟨old, -, h⟩ := Except.exists_of_bind h
  split at h
  · obtain ⟨_, -, h⟩ := Except.exists_of_bind h
    obtain ⟨cs, -, h⟩ := Except.exists_of_bind h
    obtain ⟨_, -, h⟩ := Except.exists_of_bind h
    exact Frame.labels_of_relabelAs hnames h
  · obtain ⟨cs, -, h⟩ := Except.exists_of_bind h
    obtain ⟨_, -, h⟩ := Except.exists_of_bind h
    exact Frame.labels_of_relabelAs hnames h

theorem byLabel (hcolumns : params.getD "columns" .null = .ofLabels named)
    (hnames : ∀ l ∈ names, l.isText = true)
    (hparams : params.getD "feature_names" .null = .ofLabels names)
    (hnamed : ∀ l ∈ named, l ∈ labels) :
    Fitted.ByLabel ⟨params, m.apply learned, keeps⟩ labels := by
  intro F F' G h hlabels hspares hG
  have hmem : ∀ l ∈ named, l ∈ F.labels := fun l hl => hlabels l (hnamed l hl)
  rw [Fitted.run_outcome, apply_outcome] at hG ⊢
  rw [new_eq h hmem hcolumns]
  split at hG
  case isTrue hnone =>
    obtain rfl : F = G := Except.ok.inj hG
    rw [if_pos hnone]
    exact ⟨F', rfl, h⟩
  case isFalse hsome =>
    rw [if_neg hsome]
    obtain ⟨e, he, hG⟩ := Except.exists_of_bind hG
    obtain ⟨new, hnew, he⟩ := Except.exists_of_bind he
    have htexts : ∀ l ∈ new.labels, l.isText = true := labels_new hnames hparams hnew ▸ hnames
    rw [hnew, Except.bind_ok]
    split at he
    case isTrue hsame =>
      obtain rfl := Except.ok.inj he
      obtain rfl := Except.ok.inj hG
      rw [if_pos hsame]
      exact ⟨_, rfl, h.replace _ _⟩
    case isFalse hother =>
      have hnamedtexts : ∀ l ∈ named, l.isText = true := fun l hl => h.texts l (hmem l hl)
      rw [hcolumns, labelsIn_ofLabels, Frame.drop_eq hnamedtexts hmem] at he
      obtain rfl := Except.ok.inj he
      obtain rfl := Except.ok.inj hG
      rw [if_neg hother, hcolumns, labelsIn_ofLabels,
        Frame.drop_eq hnamedtexts fun l hl => h.mem (hmem l hl)]
      exact ⟨_, rfl, h.dropped_beside _ htexts hspares⟩

end Mapping

namespace OneHot

/-- The new columns that an encoder makes of a frame. -/
def new (choices : Choices) (encodings : List Encoding) (params : Options) (X : Frame) :
    Except Failure Frame := do
  let prepared ← texts params X (params.getD "columns" .null)
  Fitted.check params "encoder_object"
  Numbers.matchLabels (encodings.map (·.label)) prepared.labels
  if prepared.rows = 0 then throw (.unusable .value)
  let blocks ← encodeAll choices encodings prepared.columns
  Mapping.checkRows prepared X
  Frame.relabelAs ⟨X.index, blocks.flatten⟩ (params.getD "feature_names" .null)

variable {choices : Choices} {encodings : List Encoding} {names : List Label}

theorem apply_outcome (choices : Choices) (encodings : List Encoding) (params : Options)
    (X : Frame) :
    (apply choices encodings params X).outcome =
      if !(params.getD "columns" .null).isTrue then .ok (.frame X)
      else new choices encodings params X >>= fun new =>
        remainder params X (params.getD "columns" .null) >>= fun rest =>
          .ok (.frame (rest.beside new)) := by
  unfold apply new
  dsimp only
  split
  · rfl
  · simp only [Logged.outcome_lift_bind, apply_ite Logged.outcome, Logged.outcome_pure, bind_assoc]
    refine bind_congr fun prepared => bind_congr fun _ => bind_congr fun _ => ?_
    split
    · rfl
    · simp only [bind_assoc]

theorem chosen_ofLabels (h : F.Within F') (hnamed : ∀ l ∈ named, l ∈ F.labels) :
    chosen (.ofLabels named) F' = chosen (.ofLabels named) F := by
  unfold chosen
  rw [extract_ofLabels, extract_ofLabels, h.select hnamed]

theorem new_eq (h : F.Within F') (hnamed : ∀ l ∈ named, l ∈ F.labels)
    (hcolumns : params.getD "columns" .null = .ofLabels named) :
    new choices encodings params F' = new choices encodings params F := by
  unfold new texts
  simp only [hcolumns, chosen_ofLabels h hnamed, Mapping.checkRows_eq h, h.index]

theorem labels_new (hnames : ∀ l ∈ names, l.isText = true)
    (hparams : params.getD "feature_names" .null = .ofLabels names)
    (h : new choices encodings params X = .ok G) : G.labels = names := by
  unfold new at h
  rw [hparams] at h
  obtain ⟨prepared, -, h⟩ := Except.exists_of_bind h
  obtain ⟨_, -, h⟩ := Except.exists_of_bind h
  obtain ⟨_, -, h⟩ := Except.exists_of_bind h
  split at h
  · cases h
  · obtain ⟨blocks, -, h⟩ := Except.exists_of_bind h
    obtain ⟨_, -, h⟩ := Except.exists_of_bind h
    exact Frame.labels_of_relabelAs hnames h

theorem remainder_eq (params : Options) (hnamed : ∀ l ∈ named, l.isText = true) :
    ∃ p, ∀ X : Frame, (∀ l ∈ named, l ∈ X.labels) →
      remainder params X (.ofLabels named) = .ok (X.keepLabels p) := by
  have hlabels : Mapping.labelsIn (.ofLabels named) = named := Mapping.labelsIn_ofLabels named
  unfold remainder
  rw [hlabels]
  cases (params.getD "drop_original" (.bool true)).isTrue with
  | true => exact ⟨_, fun X hX => Frame.drop_eq hnamed hX⟩
  | false =>
    refine ⟨fun _ => true, fun X _ => congrArg Except.ok ?_⟩
    unfold Frame.keepLabels
    rw [List.filter_true]

theorem byLabel (hcolumns : params.getD "columns" .null = .ofLabels named)
    (hnames : ∀ l ∈ names, l.isText = true)
    (hparams : params.getD "feature_names" .null = .ofLabels names)
    (hnamed : ∀ l ∈ named, l ∈ labels) :
    Fitted.ByLabel ⟨params, apply choices encodings, keeps⟩ labels := by
  intro F F' G h hlabels hspares hG
  have hmem : ∀ l ∈ named, l ∈ F.labels := fun l hl => hlabels l (hnamed l hl)
  have hnamedtexts : ∀ l ∈ named, l.isText = true := fun l hl => h.texts l (hmem l hl)
  rw [Fitted.run_outcome, apply_outcome] at hG ⊢
  rw [new_eq h hmem hcolumns]
  split at hG
  case isTrue hnone =>
    obtain rfl : F = G := Except.ok.inj hG
    rw [if_pos hnone]
    exact ⟨F', rfl, h⟩
  case isFalse hsome =>
    rw [if_neg hsome]
    obtain ⟨e, he, hG⟩ := Except.exists_of_bind hG
    obtain ⟨new, hnew, he⟩ := Except.exists_of_bind he
    obtain ⟨p, hp⟩ := remainder_eq params hnamedtexts
    rw [hcolumns, hp F hmem] at he
    obtain rfl := Except.ok.inj he
    obtain rfl : (F.keepLabels p).beside new = G := Except.ok.inj hG
    rw [hnew, Except.bind_ok, hcolumns, hp F' fun l hl => h.mem (hmem l hl)]
    exact ⟨_, rfl, h.dropped_beside p (labels_new hnames hparams hnew ▸ hnames) hspares⟩

end OneHot

/-! What is learned. -/

/-- What transformers of the library learn from a frame with some labels: which of its columns to
work on, and texts as the names of new columns. -/
inductive Fitted.OfColumns (labels : List Label) : Fitted → Prop
  | identity : OfColumns labels .identity
  | passthrough (params : Options) (keeps : Options → Frame → Bool) :
    OfColumns labels ⟨params, Passthrough.apply, keeps⟩
  | selection {named : List Label} (type : Value) (keeps : Options → Frame → Bool) :
    (∀ l ∈ named, l ∈ labels) → OfColumns labels
      ⟨[(.text "type", type), (.text "columns", .ofLabels named)], Selection.apply, keeps⟩
  | recast {named : List Label} {params : Options} (keeps : Options → Frame → Bool) :
    columnsOf params = .ok named → (∀ l ∈ named, l ∈ labels) →
      OfColumns labels ⟨params, Recast.apply, keeps⟩
  | mapping {named names : List Label} {params : Options} (m : Mapping) (learned : List Label)
    (keeps : Options → Frame → Bool) :
    params.getD "columns" .null = .ofLabels named → (∀ l ∈ named, l ∈ labels) →
      params.getD "feature_names" .null = .ofLabels names → (∀ l ∈ names, l.isText = true) →
      OfColumns labels ⟨params, m.apply learned, keeps⟩
  | encoding {named names : List Label} {params : Options} (choices : OneHot.Choices)
    (encodings : List OneHot.Encoding) (keeps : Options → Frame → Bool) :
    params.getD "columns" .null = .ofLabels named → (∀ l ∈ named, l ∈ labels) →
      params.getD "feature_names" .null = .ofLabels names → (∀ l ∈ names, l.isText = true) →
      OfColumns labels ⟨params, OneHot.apply choices encodings, keeps⟩

theorem Fitted.OfColumns.byLabel {f : Fitted} (h : f.OfColumns labels) : f.ByLabel labels := by
  cases h with
  | identity => exact identity_byLabel _
  | passthrough params keeps => exact Passthrough.byLabel _ _
  | selection type keeps hnamed => exact Selection.byLabel hnamed
  | recast keeps hparams hnamed => exact Recast.byLabel hparams hnamed
  | mapping m learned keeps hcolumns hnamed hparams hnames =>
    exact Mapping.byLabel hcolumns hnames hparams hnamed
  | encoding choices encodings keeps hcolumns hnamed hparams hnames =>
    exact OneHot.byLabel hcolumns hnames hparams hnamed

namespace Transformer

variable {t : Transformer} {f : Fitted}

theorem selector_ofColumns {binding type : String} {notice : Notice}
    {choose : Frame → Except Failure (List Label)} (htexts : ∀ l ∈ X.labels, l.isText = true)
    (h : ((Selection.selector binding type notice choose options).calculate X).outcome =
      .ok (some f)) : f.OfColumns X.labels := by
  unfold Selection.selector at h
  dsimp only at h
  rw [Logged.outcome_lift_bind] at h
  obtain ⟨named, hnamed, h⟩ := Except.exists_of_bind h
  have hmem := mem_of_resolve htexts hnamed
  cases hempty : named.isEmpty <;> rw [hempty] at h
  · obtain rfl := Option.some.inj (Except.ok.inj h)
    exact .selection _ _ hmem
  · obtain rfl := Option.some.inj (Except.ok.inj h)
    exact .selection _ _ hmem

theorem discriminator_ofColumns (htexts : ∀ l ∈ X.labels, l.isText = true)
    (h : ((Recast.discriminator options).calculate X).outcome = .ok (some f)) :
    f.OfColumns X.labels := by
  unfold Recast.discriminator at h
  dsimp only at h
  rw [Logged.outcome_lift_bind] at h
  obtain ⟨named, hnamed, h⟩ := Except.exists_of_bind h
  obtain rfl := Option.some.inj (Except.ok.inj h)
  exact .recast _ (listed_ofLabels named) (mem_of_resolve htexts hnamed)

theorem texts_map_text (names : List String) :
    ∀ l ∈ names.map Scalar.text, Label.isText l = true := by
  intro l hl
  obtain ⟨name, -, rfl⟩ := List.mem_map.1 hl
  rfl

theorem texts_mapping {m : Mapping} {method : String} (h : ∀ l ∈ labels, l.isText = true) :
    ∀ l ∈ m.labels method labels, l.isText = true := by
  unfold Mapping.labels
  cases m.names with
  | none =>
    intro l hl
    obtain ⟨i, -, rfl⟩ := List.mem_map.1 hl
    rfl
  | some names =>
    dsimp only
    split
    · exact h
    · exact texts_map_text names

theorem method_ofColumns {m : Method} {binding : String} {defaults : Options}
    (htexts : ∀ l ∈ X.labels, l.isText = true)
    (h : ((m.transformer binding defaults options).calculate X).outcome = .ok (some f)) :
    f.OfColumns X.labels := by
  unfold Method.transformer at h
  dsimp only at h
  rw [Logged.outcome_lift_bind] at h
  obtain ⟨named, hnamed, h⟩ := Except.exists_of_bind h
  have hmem := mem_of_resolve htexts hnamed
  cases hempty : named.isEmpty <;> rw [hempty] at h
  · simp only [Bool.false_eq_true, if_false, Logged.outcome_lift_bind] at h
    obtain ⟨parameters, -, h⟩ := Except.exists_of_bind h
    obtain ⟨_, -, h⟩ := Except.exists_of_bind h
    obtain ⟨old, hold, h⟩ := Except.exists_of_bind h
    obtain ⟨mapping, -, h⟩ := Except.exists_of_bind h
    obtain rfl := Option.some.inj (Except.ok.inj h)
    have hold := Frame.texts_of_select (fun l hl => htexts l (hmem l hl)) hmem hold
    exact .mapping _ _ _ rfl hmem rfl (texts_mapping hold)
  · obtain rfl := Option.some.inj (Except.ok.inj h)
    exact .identity

theorem encoder_ofColumns (htexts : ∀ l ∈ X.labels, l.isText = true)
    (h : ((OneHot.encoder options).calculate X).outcome = .ok (some f)) :
    f.OfColumns X.labels := by
  unfold OneHot.encoder at h
  dsimp only at h
  rw [Logged.outcome_lift_bind] at h
  obtain ⟨named, hnamed, h⟩ := Except.exists_of_bind h
  have hmem := mem_of_resolve htexts hnamed
  cases hempty : named.isEmpty <;> rw [hempty] at h
  · simp only [Bool.false_eq_true, if_false, Logged.outcome_lift_bind] at h
    obtain ⟨selected, -, h⟩ := Except.exists_of_bind h
    obtain ⟨prepared, -, h⟩ := Except.exists_of_bind h
    obtain ⟨choices, -, h⟩ := Except.exists_of_bind h
    obtain ⟨_, -, h⟩ := Except.exists_of_bind h
    split at h
    · cases h
    · rw [Logged.outcome_bind] at h
      obtain ⟨_, -, h⟩ := Except.exists_of_bind h
      rw [Logged.outcome_lift_bind] at h
      obtain ⟨names, -, h⟩ := Except.exists_of_bind h
      obtain rfl := Option.some.inj (Except.ok.inj h)
      refine .encoding _ _ _ rfl hmem ?_ (texts_map_text names.flatten)
      change Value.ofTexts names.flatten = Value.ofLabels (names.flatten.map Scalar.text)
      unfold Value.ofTexts Value.ofLabels
      rw [List.map_map]
      rfl
  · obtain rfl := Option.some.inj (Except.ok.inj h)
    exact .identity

theorem BuiltIn.ofColumns (ht : t.BuiltIn) (htexts : ∀ l ∈ X.labels, l.isText = true)
    (h : (t.calculate X).outcome = .ok (some f)) : f.OfColumns X.labels := by
  cases ht with
  | categorical options => exact selector_ofColumns htexts h
  | numeric options => exact selector_ofColumns htexts h
  | discriminator options => exact discriminator_ofColumns htexts h
  | passthrough options =>
    obtain rfl := Option.some.inj (Except.ok.inj h)
    exact .passthrough _ _
  | encoder options => exact encoder_ofColumns htexts h
  | method m binding defaults options => exact method_ofColumns htexts h

/-- What a transformer of the library learned from a frame goes by the labels of that frame. -/
theorem BuiltIn.byLabel (ht : t.BuiltIn) (htexts : ∀ l ∈ X.labels, l.isText = true)
    (h : (t.calculate X).outcome = .ok (some f)) : f.ByLabel X.labels :=
  (ht.ofColumns htexts h).byLabel

end Transformer
end ColumnFlow
