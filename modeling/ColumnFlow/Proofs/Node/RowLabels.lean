import ColumnFlow.Proofs.Node.Replies
import ColumnFlow.Proofs.Node.Teaching
import ColumnFlow.Proofs.Transform.RowBlind

/-!
# Answers and row labels

A tree answers frames that differ in row labels alone with frames that differ in row labels alone,
as long as everything that was learned in it sees values only. It answers under the row labels that
it is given, unless a part of it chooses rows.
-/
namespace ColumnFlow

/-- A model that sees values only. -/
structure Model.RowBlind (m : Model) : Prop where
  predict : ∀ X X' : Frame, X.Reindexed X' → (m.predict X').outcome = (m.predict X).outcome
  probabilities : ∀ f ∈ m.probabilities, ∀ X X' : Frame, X.Reindexed X' →
    Except.Alike Frame.Reindexed (f X).outcome (f X').outcome

/-- A learner that sees values only. -/
def Learner.RowBlind (l : Learner) : Prop :=
  ∀ (X X' : Frame) (y y' : Series), X.Reindexed X' → y.Reindexed y' →
    (l.calculate X' y').outcome = (l.calculate X y).outcome ∧
      ∀ model, (l.calculate X y).outcome = .ok (some model) → model.RowBlind

def Learned.RowBlind : Learned → Prop
  | .fitted f => f.RowBlind
  | .model m => m.RowBlind
  | _ => True

/-- Everything that was learned sees values only. -/
def Memory.RowBlind (m : Memory) : Prop := ∀ i, (m.slot i).learned.RowBlind

/-- Trees of library nodes, if the methods and learners in them see values only. -/
inductive Plan.RowBlind : Plan → Prop
  | transformer {t : Transformer} : t.OfValues → RowBlind (.transformer t)
  | learner {l : Learner} : l.RowBlind → RowBlind (.learner l)
  | sequential {ps : List Plan} : (∀ p ∈ ps, RowBlind p) → RowBlind (.sequential ps)
  | parallel {ps : List Plan} : (∀ p ∈ ps, RowBlind p) → RowBlind (.parallel ps)
  | vote {ps : List Plan} : (∀ p ∈ ps, RowBlind p) → RowBlind (.vote ps)
  | stack {t : Plan} {ps : List Plan} {settings : StackSettings} :
    RowBlind t → (∀ p ∈ ps, RowBlind p) → RowBlind (.stack t ps settings)
  | best {ps : List Plan} {policy : SelectionPolicy} :
    (∀ p ∈ ps, RowBlind p) → RowBlind (.best ps policy)
  | bagging {t : Plan} {settings : BaggingSettings} : RowBlind t → RowBlind (.bagging t settings)

/-- A node that has not learned to choose rows. -/
def Node.KeepsEveryRow (m : Memory) (n : Node) : Prop :=
  ∀ f, (m.slot n.site.id).learned = .fitted f → ¬ f.choosesRows

variable {m : Memory} {n : Node} {s : Site} {ps : List Plan} {l : Learner} {X X' G : Frame}
  {S S' : Series}

theorem Logged.bind_alike {α β γ δ : Type} {R : α → β → Prop} {T : γ → δ → Prop} {x : Logged α}
    {y : Logged β} {f : α → Logged γ} {g : β → Logged δ}
    (h : Except.Alike R x.outcome y.outcome)
    (hfg : ∀ a b, R a b → Except.Alike T (f a).outcome (g b).outcome) :
    Except.Alike T (x >>= f).outcome (y >>= g).outcome := by
  rw [outcome_bind, outcome_bind]
  exact h.bind hfg

/-- What may have been learned of a frame. -/
theorem Learned.RowBlind.elim {α : Type} {f : α → Learned} {a : Option α}
    (h : ∀ b, a = some b → (f b).RowBlind) : (a.elim .nothing f).RowBlind := by
  cases a with
  | none => trivial
  | some b => exact h b rfl

theorem Plan.RowBlind.part {q : Node} (hn : n.plan.RowBlind) (hq : q ∈ n.parts) :
    q.plan.RowBlind := by
  obtain ⟨p, s⟩ := n
  cases hn with
  | transformer | learner => exact nomatch hq
  | sequential hps | parallel hps | vote hps | best hps =>
    exact hps q.plan (Node.of_mem_zipParts hq).1
  | stack ht hps =>
    rcases List.mem_cons.1 hq with rfl | hq
    · exact ht
    · exact hps q.plan (Node.of_mem_zipParts hq).1
  | bagging ht =>
    obtain ⟨r, -, rfl⟩ := List.mem_map.1 hq
    exact ht

theorem Series.Reindexed.columns {Ss Ss' : List Series} (h : List.Forall₂ Reindexed Ss Ss') :
    Ss'.map (·.column) = Ss.map (·.column) := by
  induction h with
  | nil => rfl
  | cons hS _ ih => rw [List.map_cons, List.map_cons, hS.column, ih]

namespace Frame.Reindexed

theorem allRows {Fs Fs' : List Frame} (h : List.Forall₂ Reindexed Fs Fs') :
    Fs'.map Frame.rows = Fs.map Frame.rows := by
  induction h with
  | nil => rfl
  | cons hF _ ih => rw [List.map_cons, List.map_cons, hF.rows, ih]

theorem allColumns {Fs Fs' : List Frame} (h : List.Forall₂ Reindexed Fs Fs') :
    Fs'.flatMap (·.columns) = Fs.flatMap (·.columns) := by
  induction h with
  | nil => rfl
  | cons hF _ ih => rw [List.flatMap_cons, List.flatMap_cons, hF.columns, ih]

theorem majority (h : X.Reindexed X') :
    Except.Alike Series.Reindexed (Majority.ofFrame X) (Majority.ofFrame X') := by
  unfold Majority.ofFrame
  rw [h.rowCells]
  exact (Except.Alike.of_eq (x := X.rowCells.mapM _) rfl).bind fun winners _ hw =>
    hw ▸ .ok ⟨rfl, h.rows⟩

theorem rowMeans (h : X.Reindexed X') :
    Except.Alike Series.Reindexed (RowMeans.ofFrame X) (RowMeans.ofFrame X') := by
  have hmoments : Numbers.areMoments X' = Numbers.areMoments X := by
    unfold Numbers.areMoments
    rw [h.columns]
  have htruth : RowMeans.mixesTruth X' = RowMeans.mixesTruth X := by
    unfold RowMeans.mixesTruth
    rw [h.columns]
  have hprecision : RowMeans.precisionOf X' = RowMeans.precisionOf X := by
    unfold RowMeans.precisionOf
    rw [h.columns]
  unfold RowMeans.ofFrame
  rw [h.rowCells, hmoments, htruth, hprecision, h.columns]
  split
  · exact .error _
  · split
    · exact .ok ⟨rfl, h.rows⟩
    · split
      · exact (Except.Alike.of_eq (x := RowMeans.ofObjects X.rowCells) rfl).bind fun means _ hm =>
          hm ▸ .ok ⟨rfl, h.rows⟩
      · exact .ok ⟨rfl, h.rows⟩

theorem stacked {codes : List (Scalar × Nat)} {keep : Bool} {P P' : Frame} (hP : P.Reindexed P')
    (h : X.Reindexed X') : Except.Alike Reindexed (Stacking.features codes keep P X)
      (Stacking.features codes keep P' X') := by
  unfold Stacking.features
  rw [hP.columns]
  refine (Except.Alike.of_eq (x := P.columns.mapM (Stacking.coded codes)) rfl).bind
    fun cs _ hcs => ?_
  subst hcs
  have hcoded : Reindexed { P with columns := cs } { P' with columns := cs } :=
    .of_rows hP.rows cs
  dsimp only
  split
  · rw [hcoded.labels]
    exact .ok (h.beside (hcoded.relabel _).columns)
  · exact .ok hcoded

end Frame.Reindexed

namespace Memory

theorem guarded_alike {α β : Type} {R : α → β → Prop} {fitted : Bool} {body : Unit → Logged α}
    {body' : Unit → Logged β} (h : X.Reindexed X')
    (hbody : Except.Alike R (body ()).outcome (body' ()).outcome) :
    Except.Alike R (m.guarded s fitted X body).outcome (m.guarded s fitted X' body').outcome := by
  have hlacking : m.lacking s X' = m.lacking s X := by
    unfold lacking
    rw [show X'.has = X.has from funext h.has]
  unfold guarded
  rw [hlacking]
  split
  · exact .error _
  · split
    · exact hbody
    · exact .error _

/-! Leaves. -/

theorem model_rowBlind (hm : m.RowBlind) {model : Model} (h : (m.model s).outcome = .ok model) :
    model.RowBlind := by
  have hslot := hm s.id
  unfold Memory.model at h
  cases hlearned : (m.slot s.id).learned <;> simp only [hlearned] at h hslot
  case model model' =>
    obtain rfl := Except.ok.inj h
    exact hslot
  all_goals cases h

theorem applyFitted_alike (hm : m.RowBlind) (h : X.Reindexed X') :
    Except.Alike Frame.Reindexed (m.applyFitted s X).outcome (m.applyFitted s X').outcome := by
  have hslot := hm s.id
  unfold applyFitted
  cases hlearned : (m.slot s.id).learned <;> rw [hlearned] at hslot
  case fitted f => exact Fitted.RowBlind.alike hslot X X' h
  all_goals exact .error _

theorem features_alike (h : X.Reindexed X') :
    Except.Alike Frame.Reindexed (m.features s X).outcome (m.features s X').outcome := h.select _

theorem predictions_alike (hm : m.RowBlind) (h : X.Reindexed X') :
    Except.Alike Series.Reindexed (m.predictions s X).outcome (m.predictions s X').outcome := by
  unfold predictions
  simp only [Logged.outcome_bind]
  cases hmodel : (m.model s).outcome with
  | error e => exact .error e
  | ok model =>
    refine (features_alike h).bind fun Z Z' hZ => ?_
    rw [(model_rowBlind hm hmodel).predict Z Z' hZ]
    refine (Except.Alike.of_eq (x := (model.predict Z).outcome) rfl).bind fun c _ hc => ?_
    subst hc
    unfold Series.over
    rw [h.rows]
    split
    · exact .ok ⟨rfl, h.rows⟩
    · exact .error _

theorem labelFrame_reindexed (h : S.Reindexed S') :
    (labelFrame S).Reindexed (labelFrame S') := by
  unfold labelFrame Series.toFrame
  rw [h.column]
  split <;> exact .of_rows h.rows _

theorem namedProbabilities_alike {proba proba' : Frame} (h : X.Reindexed X')
    (hproba : proba.Reindexed proba') : Except.Alike Frame.Reindexed
      (m.namedProbabilities s X proba).outcome (m.namedProbabilities s X' proba').outcome := by
  unfold namedProbabilities
  rw [h.rows, hproba.rows, hproba.labels]
  split
  · exact .ok ⟨(hproba.relabel _).columns, h.rows⟩
  · exact .error _

theorem answer_alike (hm : m.RowBlind) (h : X.Reindexed X') :
    Except.Alike Frame.Reindexed (m.answer l s X).outcome (m.answer l s X').outcome := by
  have hlabels : Except.Alike Frame.Reindexed
      (do return labelFrame (← m.predictions s X) : Logged Frame).outcome
      (do return labelFrame (← m.predictions s X') : Logged Frame).outcome :=
    Logged.bind_alike (predictions_alike hm h) fun _ _ hS => .ok (labelFrame_reindexed hS)
  unfold answer
  cases l.output with
  | labels => exact hlabels
  | probabilities =>
    simp only [Logged.outcome_bind]
    cases hmodel : (m.model s).outcome with
    | error e => exact .error e
    | ok model =>
      dsimp only [Except.bind_ok]
      cases hproba : model.probabilities with
      | none => exact hlabels
      | some f =>
        have hblind := (model_rowBlind hm hmodel).probabilities f hproba
        refine Logged.bind_alike (features_alike h) fun Z Z' hZ => ?_
        exact Logged.bind_alike (hblind Z Z' hZ) fun P P' hP => namedProbabilities_alike h hP

/-! Ensembles. -/

theorem singleColumn_alike {C C' : Frame} (h : X.Reindexed X') (hC : C.Reindexed C') :
    Except.Alike Series.Reindexed (m.singleColumn s X C).outcome
      (m.singleColumn s X' C').outcome := by
  unfold singleColumn
  rw [hC.columns, h.rows, hC.labels]
  split
  · split
    · exact .ok ⟨rfl, h.rows⟩
    · exact .error _
  · exact .error _

theorem besides_reindexed {Ss Ss' : List Series} (h : X.Reindexed X')
    (hS : List.Forall₂ Series.Reindexed Ss Ss') (names : List Label) :
    (besides names Ss X).Reindexed (besides names Ss' X') := by
  unfold besides
  rw [Series.Reindexed.columns hS]
  exact (Frame.Reindexed.of_rows h.rows _).relabel _

theorem output_reindexed (h : X.Reindexed X') (hS : S.Reindexed S') :
    (m.output s S X).Reindexed (m.output s S' X') := by
  unfold output
  rw [hS.column]
  exact .of_rows h.rows _

theorem answered_alike {x x' : Logged Series} (h : X.Reindexed X')
    (hx : Except.Alike Series.Reindexed x.outcome x'.outcome) :
    Except.Alike Frame.Reindexed (do return m.output s (← x) X : Logged Frame).outcome
      (do return m.output s (← x') X' : Logged Frame).outcome :=
  Logged.bind_alike hx fun _ _ hS => .ok (output_reindexed h hS)

theorem concatenate_alike {names : List Label} {outputs outputs' : List Frame}
    (h : X.Reindexed X') (hall : List.Forall₂ Frame.Reindexed outputs outputs') :
    Except.Alike Frame.Reindexed (m.concatenate s names outputs X).outcome
      (m.concatenate s names outputs' X').outcome := by
  have hany : ∀ Fs : List Frame, (Fs.any fun f => f.rows != X.rows) =
      (Fs.map Frame.rows).any (· != X.rows) := fun Fs => by
    rw [List.any_map]
    rfl
  unfold concatenate
  simp only [h.rows, hany, Frame.Reindexed.allRows hall, Frame.Reindexed.allColumns hall]
  split
  · exact .error _
  · split
    · exact .error _
    · exact .ok ((Frame.Reindexed.of_rows h.rows _).relabel _)

end Memory

namespace Node

/-- One label for every row, if a node answers alike. -/
theorem labels_alike (hm : m.RowBlind) (h : X.Reindexed X')
    (hreply : Except.Alike Frame.Reindexed (n.reply m X) (n.reply m X')) :
    Except.Alike Series.Reindexed (n.labels m X).outcome (n.labels m X').outcome := by
  by_cases hlearner : ∃ l, n.plan = .learner l
  · obtain ⟨l, hl⟩ := hlearner
    unfold labels
    rw [hl]
    exact Memory.guarded_alike h (Memory.predictions_alike hm h)
  · rw [labels_of_reply fun l hl => hlearner ⟨l, hl⟩,
      labels_of_reply fun l hl => hlearner ⟨l, hl⟩]
    exact hreply.bind fun C C' hC => Memory.singleColumn_alike h hC

/-- What a node of the library answers does not hang on row labels. By induction over the tree. -/
theorem reply_alike (hn : n.plan.RowBlind) (hm : m.RowBlind) (h : X.Reindexed X') :
    Except.Alike Frame.Reindexed (n.reply m X) (n.reply m X') := by
  induction n using Node.induction generalizing X X' with
  | step n ih =>
  have hparts : ∀ q ∈ n.parts, ∀ X X' : Frame, X.Reindexed X' →
      Except.Alike Frame.Reindexed (q.reply m X) (q.reply m X') :=
    fun q hq X X' h => ih q hq (hn.part hq) h
  have hlabels : ∀ q ∈ n.parts, Except.Alike Series.Reindexed (q.labels m X).outcome
      (q.labels m X').outcome := fun q hq => labels_alike hm h (hparts q hq X X' h)
  obtain ⟨p, s⟩ := n
  cases p <;> simp only [reply, Plan.transform] <;> refine Memory.guarded_alike h ?_
  case transformer t => exact Memory.applyFitted_alike hm h
  case learner l => exact Memory.answer_alike hm h
  case element e => cases hn
  case sequential ps =>
    rw [Plan.chain_outcome, Plan.chain_outcome]
    exact .foldlM (fun q hq X X' h => hparts q hq X X' h) h
  case parallel ps =>
    rw [Logged.outcome_bind, Logged.outcome_bind, Plan.outputs_outcome, Plan.outputs_outcome]
    exact (Except.Alike.mapM fun q hq => hparts q hq X X' h).bind fun outputs outputs' hall =>
      Memory.concatenate_alike h hall
  case vote ps =>
    rw [Logged.outcome_bind, Logged.outcome_bind, Plan.labelsOfAll_outcome,
      Plan.labelsOfAll_outcome]
    refine (Except.Alike.mapM hlabels).bind fun members members' hmembers => ?_
    exact Memory.answered_alike h (Memory.besides_reindexed h hmembers _).majority
  case stack t ps settings =>
    rw [Logged.outcome_bind, Logged.outcome_bind, Plan.labelsOfAll_outcome,
      Plan.labelsOfAll_outcome]
    refine (Except.Alike.mapM fun q hq => hlabels q (List.mem_cons_of_mem _ hq)).bind
      fun members members' hmembers => ?_
    rw [Logged.outcome_lift_bind, Logged.outcome_lift_bind]
    refine ((Memory.besides_reindexed h hmembers _).stacked h).bind fun stacked stacked' hs => ?_
    exact Memory.answered_alike h
      (labels_alike (n := ⟨t, s.first⟩) hm hs (hparts _ List.mem_cons_self _ _ hs))
  case best ps policy =>
    refine Memory.answered_alike h ?_
    rw [Plan.labelsAt_outcome, Plan.labelsAt_outcome]
    split
    · next q hq => exact hlabels q (List.mem_of_getElem? hq)
    · exact .error _
  case bagging t settings =>
    rw [Logged.outcome_bind, Logged.outcome_bind, Plan.labelsOfEach_outcome,
      Plan.labelsOfEach_outcome]
    refine (Except.Alike.mapM fun q hq => hlabels q ?_).bind fun members members' hmembers => ?_
    · obtain ⟨r, hr, rfl⟩ := List.mem_map.1 hq
      exact List.mem_map_of_mem hr
    · have hbeside := Memory.besides_reindexed h hmembers (m.labelsOf s.rest)
      split
      · exact Memory.answered_alike h hbeside.rowMeans
      · exact Memory.answered_alike h hbeside.majority

end Node

/-! Under which row labels a tree answers. -/

namespace Memory

theorem index_predictions (h : (m.predictions s X).outcome = .ok S) : S.index = X.index := by
  unfold predictions at h
  obtain ⟨model, -, h⟩ := Logged.exists_of_bind h
  obtain ⟨features, -, h⟩ := Logged.exists_of_bind h
  obtain ⟨c, -, h⟩ := Logged.exists_of_bind h
  unfold Series.over at h
  split at h
  · rw [← Except.ok.inj h]
  · cases h

theorem index_labelFrame (S : Series) : (labelFrame S).index = S.index := by
  unfold labelFrame
  split <;> rfl

theorem index_answer (h : (m.answer l s X).outcome = .ok G) : G.index = X.index := by
  have hlabels : ∀ {S}, (m.predictions s X).outcome = .ok S → (labelFrame S).index = X.index :=
    fun hS => (index_labelFrame _).trans (index_predictions hS)
  unfold answer at h
  cases hmode : l.output <;> simp only [hmode] at h
  · obtain ⟨S, hS, h⟩ := Logged.exists_of_bind h
    rw [← Except.ok.inj h]
    exact hlabels hS
  · obtain ⟨model, -, h⟩ := Logged.exists_of_bind h
    cases hproba : model.probabilities <;> simp only [hproba] at h
    · obtain ⟨_, -, h⟩ := Logged.exists_of_bind h
      obtain ⟨S, hS, h⟩ := Logged.exists_of_bind h
      rw [← Except.ok.inj h]
      exact hlabels hS
    · obtain ⟨features, -, h⟩ := Logged.exists_of_bind h
      obtain ⟨proba, -, h⟩ := Logged.exists_of_bind h
      unfold namedProbabilities at h
      split at h
      · rw [← Except.ok.inj h]
        rfl
      · cases h

theorem index_concatenate {names : List Label} {outputs : List Frame}
    (h : (m.concatenate s names outputs X).outcome = .ok G) : G.index = X.index := by
  rw [(concatenate_ok h).2]
  rfl

theorem index_applyFitted (hm : m.RowBlind) (hkeeps : Node.KeepsEveryRow m n)
    (h : (m.applyFitted n.site X).outcome = .ok G) : G.index = X.index := by
  have hslot := hm n.site.id
  unfold applyFitted at h
  cases hlearned : (m.slot n.site.id).learned <;> simp only [hlearned] at h hslot
  case fitted f => exact Fitted.RowBlind.index hslot X G h (hkeeps f hlearned)
  all_goals cases h

end Memory

namespace Node

theorem index_chain {qs : List Node}
    (hqs : ∀ q ∈ qs, ∀ X G : Frame, q.reply m X = .ok G → G.index = X.index)
    (h : qs.foldlM (fun A q => q.reply m A) X = .ok G) : G.index = X.index := by
  induction qs generalizing X with
  | nil =>
    obtain rfl : X = G := Except.ok.inj h
    rfl
  | cons q qs ih =>
    rw [List.foldlM_cons] at h
    obtain ⟨A, hA, h⟩ := Except.exists_of_bind h
    rw [ih (fun r hr => hqs r (List.mem_cons_of_mem _ hr)) h]
    exact hqs q List.mem_cons_self X A hA

/-- Every answer carries the row labels of the input, unless a part has learned to choose rows. By
induction over the tree. -/
theorem index_reply (hn : n.plan.RowBlind) (hm : m.RowBlind)
    (hkeeps : n.Throughout (KeepsEveryRow m)) (h : n.reply m X = .ok G) : G.index = X.index := by
  induction n using Node.induction generalizing X G with
  | step n ih =>
  have houtput : ∀ {x : Logged Series},
      (do return m.output n.site (← x) X : Logged Frame).outcome = .ok G → G.index = X.index := by
    intro x h
    obtain ⟨S, -, h⟩ := Logged.exists_of_bind h
    rw [← Except.ok.inj h]
    rfl
  obtain ⟨p, s⟩ := n
  cases p <;> simp only [reply, Plan.transform] at h <;> obtain ⟨-, -, h⟩ := guarded_of_ok h
  case transformer t => exact Memory.index_applyFitted hm hkeeps.self h
  case learner l => exact Memory.index_answer h
  case element e => cases hn
  case sequential ps =>
    rw [Plan.chain_outcome] at h
    exact index_chain (fun q hq X G h => ih q hq (hn.part hq) (hkeeps.part hq) h) h
  case parallel ps =>
    obtain ⟨outputs, -, h⟩ := Logged.exists_of_bind h
    exact Memory.index_concatenate h
  case vote ps =>
    obtain ⟨members, -, h⟩ := Logged.exists_of_bind h
    exact houtput h
  case stack t ps settings =>
    obtain ⟨members, -, h⟩ := Logged.exists_of_bind h
    obtain ⟨stacked, -, h⟩ := Logged.exists_of_bind h
    exact houtput h
  case best ps policy => exact houtput h
  case bagging t settings =>
    obtain ⟨members, -, h⟩ := Logged.exists_of_bind h
    split at h
    · exact houtput h
    · exact houtput h

end Node
end ColumnFlow
