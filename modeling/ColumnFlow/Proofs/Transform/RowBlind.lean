import ColumnFlow.Proofs.Frame.Reindexing
import ColumnFlow.Proofs.Transform.ByLabel

/-!
# Transformers and row labels

The transformers of the library learn the same from frames that differ in the labels of their rows
alone, and do the same to them. They answer under the row labels that they are given, but for a
selector that has learned nothing but truth values: these choose rows and not columns.
-/
namespace ColumnFlow

namespace Selection

/-- What the parameters of selectors say of their kind. -/
def types : List Value := [.text "categorical_selector", .text "numeric_selector"]

end Selection

namespace Fitted

/-- A selector whose columns are truth values, which choose rows. -/
def choosesRows (f : Fitted) : Prop :=
  f.params.getD "type" .null ∈ Selection.types ∧
    ∃ labels, columnsOf f.params = .ok labels ∧ labels ≠ [] ∧ labels.all Label.isBool = true

/-- What was learned does the same whatever the rows are called, and keeps what they are called
unless it chooses rows. -/
structure RowBlind (f : Fitted) : Prop where
  alike : ∀ X X' : Frame, X.Reindexed X' →
    Except.Alike Frame.Reindexed (f.run X).outcome (f.run X').outcome
  index : ∀ X G : Frame, (f.run X).outcome = .ok G → ¬ f.choosesRows → G.index = X.index

end Fitted

/-- A mapping that sees values only. -/
def Mapping.RowBlind (m : Mapping) : Prop :=
  ∀ X X' : Frame, X.Reindexed X' → m.map X' = m.map X

/-- A method that sees values only. -/
def Method.RowBlind (m : Method) : Prop :=
  ∀ (options : Options) (X X' : Frame), X.Reindexed X' → m.learn options X' = m.learn options X ∧
    ∀ mapping, m.learn options X = .ok mapping → mapping.RowBlind

/-- The same is learned whatever the rows are called, and it is as blind to it. -/
def Transformer.RowBlind (t : Transformer) : Prop :=
  ∀ X X' : Frame, X.Reindexed X' → (t.calculate X').outcome = (t.calculate X).outcome ∧
    ∀ f, (t.calculate X).outcome = .ok (some f) → f.RowBlind

/-- The transformers of the library, if the methods among them see values only. -/
inductive Transformer.OfValues : Transformer → Prop
  | categorical (options : Options) : OfValues (Selection.categorical options)
  | numeric (options : Options) : OfValues (Selection.numeric options)
  | discriminator (options : Options) : OfValues (Recast.discriminator options)
  | passthrough (options : Options) : OfValues (Passthrough.passthrough options)
  | encoder (options : Options) : OfValues (OneHot.encoder options)
  | method {m : Method} (binding : String) (defaults options : Options) :
    m.RowBlind → OfValues (m.transformer binding defaults options)

variable {X X' G : Frame} {params options : Options} {f : Fitted} {t : Transformer}

namespace Columns

theorem numeric_reindexed (h : X.Reindexed X') : numeric X' = numeric X := by
  unfold numeric
  rw [h.labels, h.columns]

theorem categorical_reindexed (h : X.Reindexed X') : categorical X' = categorical X := by
  unfold categorical
  rw [h.columns]

theorem lowCardinality_reindexed (h : X.Reindexed X') (limit : Value) :
    lowCardinality limit X' = lowCardinality limit X := by
  unfold lowCardinality
  rw [numeric_reindexed h, h.columns]

theorem resolve_reindexed (h : X.Reindexed X') (options : Options)
    (choose : Option (Frame → Except Failure (List Label)))
    (hchoose : ∀ g ∈ choose, g X' = g X) :
    resolve X' options choose = resolve X options choose := by
  have hhas : X'.has = X.has := funext h.has
  unfold resolve
  rw [hhas, h.labels]
  cases choose with
  | none => rfl
  | some g => simp only [hchoose g rfl]

end Columns

/-- What was learned does the same to both frames if its answers differ in row labels alone. -/
theorem Fitted.run_alike (h : Except.Alike Frame.Extract.Reindexed (f.answer X).outcome
    (f.answer X').outcome) :
    Except.Alike Frame.Reindexed (f.run X).outcome (f.run X').outcome := by
  rw [Fitted.run_outcome, Fitted.run_outcome]
  exact h.bind fun E E' hE => .ok hE.toFrame

namespace Selection

theorem outcome_apply (params : Options) (X : Frame) :
    (apply params X).outcome = Fitted.columnsOf params >>= fun labels =>
      match labels.filter fun l => !X.has l with
      | [] => X.extract (params.getD "columns" (.list []))
      | missing => .error (.mismatch (.selectionMissing missing)) := by
  unfold apply
  rw [Logged.outcome_lift_bind]
  refine bind_congr fun labels => ?_
  cases labels.filter fun l => !X.has l <;> rfl

theorem apply_alike (h : X.Reindexed X') (params : Options) :
    Except.Alike Frame.Extract.Reindexed (apply params X).outcome (apply params X').outcome := by
  have hhas : X'.has = X.has := funext h.has
  rw [outcome_apply, outcome_apply, hhas]
  refine (Except.Alike.of_eq (x := Fitted.columnsOf params) rfl).bind fun labels _ hlabels => ?_
  subst hlabels
  split
  · exact h.extract _
  · exact .error _

theorem index_select {ls : List Label} (hls : ls = [] ∨ ls.all Label.isBool = false)
    (h : X.select ls = .ok G) : G.index = X.index := by
  unfold Frame.select at h
  rw [if_neg] at h
  · obtain ⟨lookups, -, h⟩ := Except.exists_of_bind h
    rw [← Except.ok.inj h]
  · rcases hls with rfl | hls
    · simp
    · simp [hls]

/-- What a selector answers once it has chosen its columns. -/
theorem outcome_run (type : Value) (keeps : Options → Frame → Bool) (ls : List Label) (X : Frame) :
    (Fitted.run ⟨[(.text "type", type), (.text "columns", .ofLabels ls)], apply, keeps⟩ X).outcome =
      match ls.filter fun l => !X.has l with
      | [] => X.select ls
      | missing => .error (.mismatch (.selectionMissing missing)) := by
  have hlisted : Fitted.columnsOf [(.text "type", type), (.text "columns", .ofLabels ls)] =
      .ok ls := listed_ofLabels ls
  rw [Fitted.run_outcome, outcome_apply, hlisted, Except.bind_ok]
  cases ls.filter fun l => !X.has l with
  | cons l missing => rfl
  | nil =>
    change (X.extract (.ofLabels ls) >>= fun E => .ok E.toFrame) = X.select ls
    rw [extract_ofLabels]
    cases X.select ls <;> rfl

theorem fitted_rowBlind {type : String} (htype : Value.text type ∈ types)
    (keeps : Options → Frame → Bool) (ls : List Label) : Fitted.RowBlind
      ⟨[(.text "type", .text type), (.text "columns", .ofLabels ls)], apply, keeps⟩ where
  alike X X' h := Fitted.run_alike (apply_alike h _)
  index X G h hrows := by
    have hls : ls = [] ∨ ls.all Label.isBool = false := by
      by_contra hnot
      simp only [not_or, Bool.not_eq_false] at hnot
      exact hrows ⟨htype, ls, listed_ofLabels ls, hnot.1, hnot.2⟩
    rw [outcome_run] at h
    split at h
    · exact index_select hls h
    · cases h

theorem selector_rowBlind {binding type : String} {notice : Notice}
    {choose : Frame → Except Failure (List Label)} (htype : Value.text type ∈ types)
    (hchoose : ∀ X X' : Frame, X.Reindexed X' → choose X' = choose X) :
    (selector binding type notice choose options).RowBlind := by
  intro X X' h
  have hlabels := Columns.resolve_reindexed h options (some choose)
    fun g hg => Option.mem_some.1 hg ▸ hchoose X X' h
  unfold selector
  dsimp only
  rw [hlabels]
  refine ⟨rfl, fun f hf => ?_⟩
  rw [Logged.outcome_lift_bind] at hf
  obtain ⟨named, -, hf⟩ := Except.exists_of_bind hf
  cases hempty : named.isEmpty <;> rw [hempty] at hf
  all_goals
    obtain rfl := Option.some.inj (Except.ok.inj hf)
    exact fitted_rowBlind htype _ named

end Selection

/-- What always answers over the rows that it is given need not be asked what it chooses. -/
theorem Fitted.RowBlind.of_answer
    (halike : ∀ X X' : Frame, X.Reindexed X' →
      Except.Alike Frame.Extract.Reindexed (f.answer X).outcome (f.answer X').outcome)
    (hindex : ∀ (X : Frame) E, (f.answer X).outcome = .ok E → E.toFrame.index = X.index) :
    f.RowBlind where
  alike X X' h := run_alike (halike X X' h)
  index X G h _ := by
    rw [run_outcome] at h
    obtain ⟨E, hE, h⟩ := Except.exists_of_bind h
    rw [← Except.ok.inj h]
    exact hindex X E hE

theorem Passthrough.rowBlind (params : Options) (keeps : Options → Frame → Bool) :
    Fitted.RowBlind ⟨params, apply, keeps⟩ :=
  .of_answer (fun _ _ h => .ok (.frame h)) fun X E h => by
    obtain rfl := Except.ok.inj h
    rfl

theorem Fitted.identity_rowBlind : Fitted.identity.RowBlind :=
  .of_answer (fun _ _ h => .ok (.frame h)) fun X E h => by
    obtain rfl := Except.ok.inj h
    rfl

namespace Recast

theorem presentIn_reindexed (h : X.Reindexed X') (params : Options) :
    presentIn params X' = presentIn params X := by
  unfold presentIn
  rw [show X'.has = X.has from funext h.has]

theorem columns_reindexed (h : X.Reindexed X') (labels : List Label) :
    columns labels X' = columns labels X := by
  unfold columns
  rw [h.labels, h.columns]

theorem outcome_apply (params : Options) (X : Frame) :
    (apply params X).outcome = presentIn params X >>= fun labels =>
      columns labels X >>= fun cs => .ok (.frame { X with columns := cs }) := by
  unfold apply
  simp only [Logged.outcome_lift_bind]
  rfl

theorem rowBlind (params : Options) (keeps : Options → Frame → Bool) :
    Fitted.RowBlind ⟨params, apply, keeps⟩ := by
  refine .of_answer (fun X X' h => ?_) fun X E h => ?_
  · change Except.Alike _ (apply params X).outcome (apply params X').outcome
    rw [outcome_apply, outcome_apply, presentIn_reindexed h]
    refine (Except.Alike.of_eq (x := presentIn params X) rfl).bind fun labels _ hlabels => ?_
    subst hlabels
    rw [columns_reindexed h]
    refine (Except.Alike.of_eq (x := columns labels X) rfl).bind fun cs _ hcs => ?_
    subst hcs
    exact .ok (.frame (.of_rows h.rows cs))
  · change (apply params X).outcome = .ok E at h
    rw [outcome_apply] at h
    obtain ⟨labels, -, h⟩ := Except.exists_of_bind h
    obtain ⟨cs, -, h⟩ := Except.exists_of_bind h
    rw [← Except.ok.inj h]
    rfl

theorem discriminator_rowBlind (options : Options) : (discriminator options).RowBlind := by
  intro X X' h
  unfold discriminator
  dsimp only
  rw [Columns.resolve_reindexed h options _ fun g hg =>
    Option.mem_some.1 hg ▸ Columns.lowCardinality_reindexed h _]
  refine ⟨rfl, fun f hf => ?_⟩
  rw [Logged.outcome_lift_bind] at hf
  obtain ⟨named, -, hf⟩ := Except.exists_of_bind hf
  obtain rfl := Option.some.inj (Except.ok.inj hf)
  exact rowBlind _ _

end Recast

theorem Frame.index_drop {ls : List Label} (h : X.drop ls = .ok G) : G.index = X.index := by
  obtain ⟨lookups, -, h⟩ := Except.exists_of_bind h
  rw [← Except.ok.inj h]

namespace Mapping

theorem chosen_reindexed (h : X.Reindexed X') (columns : Value) :
    Except.Alike Frame.Reindexed (chosen columns X) (chosen columns X') := by
  unfold chosen
  refine (h.extract columns).bind fun E E' hE => ?_
  cases hE with
  | frame h => exact .ok h
  | series h => exact .error _

theorem checkRows_reindexed {old old' : Frame} (hold : old.Reindexed old') (h : X.Reindexed X') :
    checkRows old' X' = checkRows old X := by
  unfold checkRows
  rw [hold.rows, h.rows]

theorem new_alike {m : Mapping} (hm : m.RowBlind) (h : X.Reindexed X') (learned : List Label)
    (params : Options) :
    Except.Alike Frame.Reindexed (m.new learned params X) (m.new learned params X') := by
  unfold new
  refine (Except.Alike.of_eq rfl).bind fun _ _ _ => ?_
  refine (chosen_reindexed h _).bind fun old old' hold => ?_
  have hnew : Except.Alike Frame.Reindexed
      (do
        let new ← m.map old
        checkRows old X
        Frame.relabelAs ⟨X.index, new⟩ (params.getD "feature_names" .null))
      (do
        let new ← m.map old'
        checkRows old' X'
        Frame.relabelAs ⟨X'.index, new⟩ (params.getD "feature_names" .null)) := by
    rw [hm old old' hold, checkRows_reindexed hold h]
    refine (Except.Alike.of_eq (x := m.map old) rfl).bind fun cs _ hcs => ?_
    subst hcs
    refine (Except.Alike.of_eq (x := checkRows old X) rfl).bind fun _ _ _ => ?_
    exact Frame.Reindexed.relabelAs (.of_rows h.rows cs) _
  rw [hold.labels]
  split
  · exact (Except.Alike.of_eq rfl).bind fun _ _ _ => hnew
  · exact hnew

theorem replace_reindexed {new new' : Frame} (h : X.Reindexed X') (hnew : new.Reindexed new')
    (labels : List Label) :
    (replace X labels new.columns).Reindexed (replace X' labels new'.columns) := by
  unfold replace
  rw [h.columns, hnew.columns]
  exact .of_rows h.rows _

theorem rowBlind {m : Mapping} (hm : m.RowBlind) (learned : List Label) (params : Options)
    (keeps : Options → Frame → Bool) : Fitted.RowBlind ⟨params, m.apply learned, keeps⟩ := by
  refine .of_answer (fun X X' h => ?_) fun X E h => ?_
  · change Except.Alike _ (m.apply learned params X).outcome (m.apply learned params X').outcome
    rw [apply_outcome, apply_outcome]
    split
    · exact .ok (.frame h)
    · refine (new_alike hm h learned params).bind fun new new' hnew => ?_
      split
      · exact .ok (.frame (replace_reindexed h hnew _))
      · exact (h.drop _).bind fun rest rest' hrest => .ok (.frame (hrest.beside hnew.columns))
  · change (m.apply learned params X).outcome = .ok E at h
    rw [apply_outcome] at h
    split at h
    · rw [← Except.ok.inj h]
      rfl
    · obtain ⟨new, -, h⟩ := Except.exists_of_bind h
      split at h
      · rw [← Except.ok.inj h]
        rfl
      · obtain ⟨rest, hrest, h⟩ := Except.exists_of_bind h
        have hindex := Frame.index_drop hrest
        rw [← Except.ok.inj h]
        exact hindex

end Mapping

theorem Method.transformer_rowBlind {m : Method} (hm : m.RowBlind) (binding : String)
    (defaults options : Options) : (m.transformer binding defaults options).RowBlind := by
  intro X X' h
  have hlabels := Columns.resolve_reindexed h options (some Columns.numeric)
    fun g hg => Option.mem_some.1 hg ▸ Columns.numeric_reindexed h
  unfold transformer
  dsimp only
  rw [hlabels]
  constructor
  · simp only [Logged.outcome_lift_bind]
    refine bind_congr fun named => ?_
    cases named.isEmpty with
    | true => rfl
    | false =>
      simp only [Bool.false_eq_true, if_false, Logged.outcome_lift_bind]
      refine bind_congr fun parameters => bind_congr fun _ => ?_
      refine (Except.Alike.bind (S := Eq) (h.select named) fun old old' hold => ?_).eq.symm
      rw [hold.labels, (hm parameters old old' hold).1]
      exact .of_eq rfl
  · intro f hf
    rw [Logged.outcome_lift_bind] at hf
    obtain ⟨named, -, hf⟩ := Except.exists_of_bind hf
    cases hempty : named.isEmpty <;> rw [hempty] at hf
    · simp only [Bool.false_eq_true, if_false, Logged.outcome_lift_bind] at hf
      obtain ⟨parameters, -, hf⟩ := Except.exists_of_bind hf
      obtain ⟨_, -, hf⟩ := Except.exists_of_bind hf
      obtain ⟨old, -, hf⟩ := Except.exists_of_bind hf
      obtain ⟨mapping, hmapping, hf⟩ := Except.exists_of_bind hf
      obtain rfl := Option.some.inj (Except.ok.inj hf)
      exact Mapping.rowBlind ((hm parameters old old (.refl old)).2 mapping hmapping) _ _ _
    · obtain rfl := Option.some.inj (Except.ok.inj hf)
      exact Fitted.identity_rowBlind

namespace OneHot

variable {choices : Choices} {encodings : List Encoding}

theorem prepare_reindexed (h : X.Reindexed X') (includeMissing : Bool) :
    Except.Alike Frame.Reindexed (Categories.prepare X includeMissing)
      (Categories.prepare X' includeMissing) := by
  unfold Categories.prepare
  rw [h.columns]
  refine (Except.Alike.of_eq (x := X.columns.mapM _) rfl).bind fun cs _ hcs => ?_
  subst hcs
  exact .ok (.of_rows h.rows cs)

theorem texts_reindexed (h : X.Reindexed X') (params : Options) (columns : Value) :
    Except.Alike Frame.Reindexed (texts params X columns) (texts params X' columns) := by
  have hchosen : Except.Alike Frame.Reindexed (chosen columns X) (chosen columns X') := by
    unfold chosen
    refine (h.extract columns).bind fun E E' hE => ?_
    cases hE with
    | frame h => exact .ok h
    | series h => exact .error _
  unfold texts
  exact hchosen.bind fun f f' hf => prepare_reindexed hf _

theorem new_alike (h : X.Reindexed X') (params : Options) :
    Except.Alike Frame.Reindexed (new choices encodings params X)
      (new choices encodings params X') := by
  unfold new
  refine (texts_reindexed h params _).bind fun prepared prepared' hprepared => ?_
  rw [hprepared.labels, hprepared.rows, hprepared.columns, Mapping.checkRows_reindexed hprepared h]
  refine (Except.Alike.of_eq rfl).bind fun _ _ _ => (Except.Alike.of_eq rfl).bind fun _ _ _ => ?_
  split
  · exact .error _
  · refine (Except.Alike.of_eq (x := encodeAll choices encodings prepared.columns) rfl).bind
      fun blocks _ hblocks => ?_
    subst hblocks
    refine (Except.Alike.of_eq rfl).bind fun _ _ _ => ?_
    exact Frame.Reindexed.relabelAs (.of_rows h.rows _) _

theorem remainder_reindexed (h : X.Reindexed X') (params : Options) (columns : Value) :
    Except.Alike Frame.Reindexed (remainder params X columns) (remainder params X' columns) := by
  unfold remainder
  split
  · exact h.drop _
  · exact .ok h

theorem rowBlind (params : Options) (keeps : Options → Frame → Bool) :
    Fitted.RowBlind ⟨params, apply choices encodings, keeps⟩ := by
  refine .of_answer (fun X X' h => ?_) fun X E h => ?_
  · change Except.Alike _ (apply choices encodings params X).outcome
      (apply choices encodings params X').outcome
    rw [apply_outcome, apply_outcome]
    split
    · exact .ok (.frame h)
    · refine (new_alike h params).bind fun new new' hnew => ?_
      refine (remainder_reindexed h params _).bind fun rest rest' hrest => ?_
      exact .ok (.frame (hrest.beside hnew.columns))
  · change (apply choices encodings params X).outcome = .ok E at h
    rw [apply_outcome] at h
    split at h
    · rw [← Except.ok.inj h]
      rfl
    · obtain ⟨new, -, h⟩ := Except.exists_of_bind h
      obtain ⟨rest, hrest, h⟩ := Except.exists_of_bind h
      have hindex : rest.index = X.index := by
        unfold remainder at hrest
        split at hrest
        · exact Frame.index_drop hrest
        · rw [← Except.ok.inj hrest]
      rw [← Except.ok.inj h]
      exact hindex

theorem encoder_rowBlind (options : Options) : (encoder options).RowBlind := by
  intro X X' h
  have hlabels := Columns.resolve_reindexed h options
    (some fun f => .ok (Columns.categorical f)) fun g hg =>
      Option.mem_some.1 hg ▸ congrArg Except.ok (Columns.categorical_reindexed h)
  unfold encoder
  dsimp only
  rw [hlabels]
  constructor
  · simp only [Logged.outcome_lift_bind]
    refine bind_congr fun named => ?_
    cases named.isEmpty with
    | true => rfl
    | false =>
      simp only [Bool.false_eq_true, if_false, Logged.outcome_lift_bind]
      refine (Except.Alike.bind (S := Eq) (h.select named) fun old old' hold => ?_).eq.symm
      refine (prepare_reindexed hold _).bind fun prepared prepared' hprepared => ?_
      rw [hprepared.labels, hprepared.rows, hprepared.columns]
      exact .of_eq rfl
  · intro f hf
    rw [Logged.outcome_lift_bind] at hf
    obtain ⟨named, -, hf⟩ := Except.exists_of_bind hf
    cases hempty : named.isEmpty <;> rw [hempty] at hf
    · simp only [Bool.false_eq_true, if_false, Logged.outcome_lift_bind] at hf
      obtain ⟨selected, -, hf⟩ := Except.exists_of_bind hf
      obtain ⟨prepared, -, hf⟩ := Except.exists_of_bind hf
      obtain ⟨choices, -, hf⟩ := Except.exists_of_bind hf
      obtain ⟨_, -, hf⟩ := Except.exists_of_bind hf
      split at hf
      · cases hf
      · rw [Logged.outcome_bind] at hf
        obtain ⟨_, -, hf⟩ := Except.exists_of_bind hf
        rw [Logged.outcome_lift_bind] at hf
        obtain ⟨names, -, hf⟩ := Except.exists_of_bind hf
        obtain rfl := Option.some.inj (Except.ok.inj hf)
        exact rowBlind _ _
    · obtain rfl := Option.some.inj (Except.ok.inj hf)
      exact Fitted.identity_rowBlind

end OneHot

namespace Transformer

theorem OfValues.rowBlind (ht : t.OfValues) : t.RowBlind := by
  cases ht with
  | categorical options =>
    exact Selection.selector_rowBlind (.head _) fun X X' h =>
      congrArg Except.ok (Columns.categorical_reindexed h)
  | numeric options =>
    exact Selection.selector_rowBlind (.tail _ (.head _)) fun X X' h => Columns.numeric_reindexed h
  | discriminator options => exact Recast.discriminator_rowBlind options
  | passthrough options =>
    intro X X' h
    refine ⟨?_, fun f hf => ?_⟩
    · unfold Passthrough.passthrough
      dsimp only
      rw [h.labels]
    · obtain rfl := Option.some.inj (Except.ok.inj hf)
      exact Passthrough.rowBlind _ _
  | encoder options => exact OneHot.encoder_rowBlind options
  | method binding defaults options hm =>
    exact Method.transformer_rowBlind hm binding defaults options

end Transformer

end ColumnFlow
