import ColumnFlow.Proofs.Node.Training
import ColumnFlow.Proofs.Transform.ByLabel

/-!
# Replies

What nodes answer to a frame, and what composites and ensembles make of the answers of their parts.
A learner looks at nothing of a frame but its row labels and the columns it was fitted with, so it
answers a frame and every frame that it is within alike. An ensemble is content with the labels of
its members, each of which must be a single column.
-/
namespace ColumnFlow

variable {m : Memory} {n : Node} {s : Site} {ps : List Plan} {ss : List Site} {l : Learner}
  {F F' G : Frame} {S : Series}

instance : LawfulMonad Logged :=
  .mk' Logged
    (fun ⟨notices, outcome⟩ => by cases outcome <;> simp [Functor.map])
    (fun _ _ => rfl)
    (fun ⟨notices, outcome⟩ f g => by
      rcases outcome with _ | a
      · rfl
      · rcases hf : f a with ⟨_, _ | _⟩ <;> simp [bind, hf])

namespace Node

def reply (m : Memory) (n : Node) (F : Frame) : Except Failure Frame :=
  (n.plan.transform m n.site F).outcome

theorem zipParts_cons (p : Plan) (ps : List Plan) (s : Site) (ss : List Site) :
    zipParts (p :: ps) (s :: ss) = ⟨p, s⟩ :: zipParts ps ss := rfl

theorem labels_of_reply (hlearner : ∀ l, n.plan ≠ .learner l) :
    (n.labels m F).outcome =
      n.reply m F >>= fun C => (m.singleColumn n.site F C).outcome := by
  obtain ⟨p, s⟩ := n
  cases p with
  | learner l => exact absurd rfl (hlearner l)
  | _ => exact Logged.outcome_bind _ _

end Node

namespace Plan

open Node (zipParts)

theorem chain_outcome (m : Memory) (ps : List Plan) (ss : List Site) (F : Frame) :
    (chain m ps ss F).outcome = (zipParts ps ss).foldlM (fun A q => q.reply m A) F := by
  induction ps generalizing ss F with
  | nil => rfl
  | cons p ps ih =>
    cases ss with
    | nil => rfl
    | cons s ss =>
      simp only [chain, Logged.outcome_bind, ih]
      rfl

theorem outputs_outcome (m : Memory) (ps : List Plan) (ss : List Site) (F : Frame) :
    (outputs m ps ss F).outcome = (zipParts ps ss).mapM fun q => q.reply m F := by
  induction ps generalizing ss with
  | nil => rfl
  | cons p ps ih =>
    cases ss with
    | nil => rfl
    | cons s ss =>
      simp only [outputs, Logged.outcome_bind, ih]
      rw [Node.zipParts_cons, List.mapM_cons]
      rfl

theorem labelsOfAll_outcome (m : Memory) (ps : List Plan) (ss : List Site) (F : Frame) :
    (labelsOfAll m ps ss F).outcome = (zipParts ps ss).mapM fun q => (q.labels m F).outcome := by
  induction ps generalizing ss with
  | nil => rfl
  | cons p ps ih =>
    cases ss with
    | nil => rfl
    | cons s ss =>
      simp only [labelsOfAll, Logged.outcome_bind, ih]
      rw [Node.zipParts_cons, List.mapM_cons]
      rfl

theorem labelsOfEach_outcome (m : Memory) (t : Plan) (ss : List Site) (F : Frame) :
    (ss.mapM fun s => m.labels t s F fun _ => transform m t s F).outcome =
      (ss.map (Node.mk t)).mapM fun q => (q.labels m F).outcome := by
  induction ss with
  | nil => rfl
  | cons s ss ih =>
    simp only [List.mapM_cons, List.map_cons, Logged.outcome_bind, ih]
    rfl

theorem labelsAt_outcome (m : Memory) (ps : List Plan) (ss : List Site) (i : Nat) (F : Frame) :
    (labelsAt m ps ss i F).outcome =
      match (zipParts ps ss)[i]? with
      | some q => (q.labels m F).outcome
      | none => .error (.unusable .attribute) := by
  induction ps generalizing ss i with
  | nil => rfl
  | cons p ps ih =>
    cases ss with
    | nil => rfl
    | cons s ss =>
      cases i with
      | zero => rfl
      | succ i => exact ih ss i

end Plan

/-! Frames within others. -/

namespace Memory

theorem mem_of_lacking (htexts : ∀ l ∈ F.labels, l.isText = true) (h : m.lacking s F = []) :
    ∀ l ∈ (m.inputColumns s).getD [], l ∈ F.labels := by
  intro l hl
  have hhas := List.filter_eq_nil_iff.1 h l hl
  exact (Frame.has_iff htexts).1 (by simpa using hhas)

theorem lacking_within (hF : F.Within F') (h : m.lacking s F = []) : m.lacking s F' = [] := by
  refine List.filter_eq_nil_iff.2 fun l hl => ?_
  have hhas : F'.has l = true := Frame.has_of_mem (hF.mem (mem_of_lacking hF.texts h l hl))
  simp [hhas]

/-- Whoever may go on for a frame may go on for every frame that it is within. -/
theorem guarded_within {α β : Type} {fitted : Bool} {body : Unit → Logged α}
    {body' : Unit → Logged β} {a : α} (hF : F.Within F')
    (h : (m.guarded s fitted F body).outcome = .ok a) : m.guarded s fitted F' body' = body' () := by
  obtain ⟨rfl, hlacking, -⟩ := Node.guarded_of_ok h
  unfold guarded
  rw [lacking_within hF hlacking]
  rfl

section Learners

variable (hF : F.Within F') (hlacking : m.lacking s F = [])
include hF hlacking

theorem features_within : m.features s F' = m.features s F := by
  unfold features
  rw [hF.select (mem_of_lacking hF.texts hlacking)]

theorem predictions_within : m.predictions s F' = m.predictions s F := by
  unfold predictions Series.over
  rw [features_within hF hlacking, hF.rows, hF.index]

theorem answer_within : m.answer l s F' = m.answer l s F := by
  unfold answer namedProbabilities
  rw [predictions_within hF hlacking, features_within hF hlacking, hF.rows, hF.index]

end Learners

end Memory

/-! Answers under names that are texts. -/

theorem Series.label_dissolve (c : Column) : (dissolve c).label = c.label := by
  unfold dissolve Column.ofObjects
  repeat' split
  all_goals rfl

theorem Frame.texts_relabel {labels : List Label} (h : ∀ l ∈ labels, l.isText = true) :
    ∀ l ∈ (F.relabel labels).labels, l.isText = true := by
  intro l hl
  unfold relabel at hl
  rw [Labels.unified_of_texts h] at hl
  obtain ⟨c, hc, rfl⟩ := Frame.mem_labels.1 hl
  dsimp only at hc
  rw [← List.map_uncurry_zip_eq_zipWith] at hc
  obtain ⟨⟨d, t⟩, hd, rfl⟩ := List.mem_map.1 hc
  exact h t (List.of_mem_zip hd).2

namespace Memory

theorem label_predictions (h : (m.predictions s F).outcome = .ok S) :
    S.column.label = m.label s := by
  unfold predictions at h
  obtain ⟨model, -, h⟩ := Logged.exists_of_bind h
  obtain ⟨features, -, h⟩ := Logged.exists_of_bind h
  obtain ⟨c, -, h⟩ := Logged.exists_of_bind h
  unfold Series.over at h
  split at h
  · rw [← Except.ok.inj h]
    exact Series.label_dissolve _
  · cases h

theorem labels_labelFrame (h : S.column.label.isText = true) :
    (labelFrame S).labels = [S.column.label] := by
  unfold labelFrame
  split
  next hnull =>
    rw [hnull] at h
    cases h
  next => rfl

/-- Where a learner that answers with probabilities has them from. -/
def probabilitiesOf (m : Memory) (l : Learner) (s : Site) : Option (Frame → Logged Frame) :=
  match l.output, (m.slot s.id).learned with
  | .probabilities, .model model => model.probabilities
  | _, _ => none

/-- The column of a class among the probabilities of a learner. -/
def classColumn (m : Memory) (s : Site) (c : Label) : Label := .text (m.name s ++ "_" ++ c.plain)

/-- A learner answers with its predictions, or with probabilities under the names of classes. -/
theorem answer_cases (h : (m.answer l s F).outcome = .ok G) :
    (m.probabilitiesOf l s = none ∧
        ∃ S, (m.predictions s F).outcome = .ok S ∧ G = labelFrame S) ∨
      ∃ f X P, m.probabilitiesOf l s = some f ∧ (f X).outcome = .ok P ∧
        G = (P.relabel (P.labels.map (m.classColumn s))).withIndex F.index := by
  unfold answer at h
  unfold probabilitiesOf
  cases hmode : l.output <;> simp only [hmode] at h ⊢
  case labels =>
    obtain ⟨S, hS, h⟩ := Logged.exists_of_bind h
    exact .inl ⟨trivial, S, hS, (Except.ok.inj h).symm⟩
  case probabilities =>
    obtain ⟨model, hmodel, h⟩ := Logged.exists_of_bind h
    unfold Memory.model at hmodel
    cases hlearned : (m.slot s.id).learned <;> simp only [hlearned] at hmodel ⊢
    case model model' =>
      obtain rfl : model' = model := Except.ok.inj hmodel
      cases hproba : model'.probabilities <;> simp only [hproba] at h
      case none =>
        obtain ⟨_, -, h⟩ := Logged.exists_of_bind h
        obtain ⟨S, hS, h⟩ := Logged.exists_of_bind h
        exact .inl ⟨rfl, S, hS, (Except.ok.inj h).symm⟩
      case some f =>
        obtain ⟨X, -, h⟩ := Logged.exists_of_bind h
        obtain ⟨P, hP, h⟩ := Logged.exists_of_bind h
        unfold namedProbabilities at h
        split at h
        · exact .inr ⟨f, X, P, rfl, hP, (Except.ok.inj h).symm⟩
        · cases h
    all_goals cases hmodel

/-- A learner with a text for a name answers under texts. -/
theorem texts_answer (hname : (m.label s).isText = true) (h : (m.answer l s F).outcome = .ok G) :
    ∀ l ∈ G.labels, l.isText = true := by
  rcases answer_cases h with ⟨-, S, hS, rfl⟩ | ⟨f, X, P, -, -, rfl⟩
  · have hlabel := label_predictions hS
    rw [labels_labelFrame (hlabel ▸ hname), hlabel]
    exact fun l hl => List.mem_singleton.1 hl ▸ hname
  · refine Frame.texts_relabel (F := P) fun l hl => ?_
    obtain ⟨c, -, rfl⟩ := List.mem_map.1 hl
    rfl

theorem texts_output (hname : (m.label s).isText = true) (values : Series) (F : Frame) :
    ∀ l ∈ (m.output s values F).labels, l.isText = true := by
  intro l hl
  rw [List.mem_singleton.1 hl]
  exact (congrArg Label.isText (Series.label_dissolve _)).trans hname

theorem texts_besides {names : List Label} (h : ∀ l ∈ names, l.isText = true)
    (members : List Series) (F : Frame) : ∀ l ∈ (besides names members F).labels, l.isText = true :=
  Frame.texts_relabel (Labels.isText_makeUnique h)

theorem besides_within (hF : F.Within F') (names : List Label) (members : List Series) :
    besides names members F' = besides names members F := by
  unfold besides
  rw [hF.index]

theorem output_within (hF : F.Within F') (s : Site) (values : Series) :
    m.output s values F' = m.output s values F := by
  unfold output
  rw [hF.index]

theorem singleColumn_within {C C' : Frame} (hF : F.Within F') (hC : C.Within C')
    (hall : ∀ l ∈ C'.labels, l ∈ C.labels) (h : (m.singleColumn s F C).outcome = .ok S) :
    (m.singleColumn s F' C').outcome = .ok S := by
  unfold singleColumn at h
  split at h
  case h_1 c hc =>
    have hlabels : C.labels = [c.label] := by
      unfold Frame.labels
      rw [hc]
      rfl
    have hmem : c.label ∈ C.labels := hlabels ▸ List.mem_singleton_self _
    have hunder := hC.under c.label hmem
    have hsame : C'.under c.label = C'.columns := by
      refine List.filter_eq_self.2 fun d hd => ?_
      have hd := hall d.label (Frame.mem_labels.2 ⟨d, hd, rfl⟩)
      rw [hlabels, List.mem_singleton] at hd
      rw [hd]
      exact Frame.finds_self _
    have hold : C.under c.label = [c] := by
      unfold Frame.under
      rw [hc]
      exact List.filter_eq_self.2 fun d hd => by
        rw [List.mem_singleton.1 hd]
        exact Frame.finds_self _
    have hcolumns : C'.columns = [c] := by rw [← hsame, hunder, hold]
    unfold singleColumn
    rw [hcolumns, hF.rows, hF.index]
    exact h
  case h_2 => cases h

theorem concatenate_ok {names : List Label} {outputs : List Frame}
    (h : (m.concatenate s names outputs F).outcome = .ok G) :
    (∀ f ∈ outputs, f.rows = F.rows) ∧ G = Frame.sideBySide outputs F := by
  have hrows : ∀ f ∈ outputs, f.rows = F.rows := by
    unfold concatenate at h
    simp only at h
    split at h
    · cases h
    · split at h
      · cases h
      · next hall => simpa using hall
  rw [concatenate_of_rows hrows] at h
  exact ⟨hrows, (Except.ok.inj h).symm⟩

end Memory

namespace Stacking

variable {codes : List (Scalar × Nat)} {c d : Column} {keep : Bool} {P A : Frame}

theorem label_coded (h : coded codes c = .ok d) : d.label = c.label := by
  unfold coded at h
  split at h
  · rw [← Except.ok.inj h]
  · repeat' split at h
    all_goals first
      | exact (congrArg Column.label (Except.ok.inj h)).symm
      | cases h

/-- What is made of the predictions and a frame goes by label like the frame. -/
theorem features_within (hP : ∀ l ∈ P.labels, l.isText = true) (hF : F.Within F')
    (hspares : keep = true → F.Spares F' A) (hA : features codes keep P F = .ok A) :
    ∃ A', features codes keep P F' = .ok A' ∧ A.Within A' ∧ (F'.Within F → A'.Within A) := by
  unfold features at hA ⊢
  obtain ⟨cs, hcs, hA⟩ := Except.exists_of_bind hA
  rw [hcs, Except.bind_ok]
  cases keep with
  | false =>
    obtain rfl := Except.ok.inj hA
    obtain ⟨cs', -, hwithin⟩ := (Frame.Within.refl hP).mapM (fun _ _ => label_coded)
      (fun c hc hnot => absurd (Frame.mem_labels.2 ⟨c, hc, rfl⟩) hnot) hcs
    exact ⟨_, rfl, .refl hwithin.texts, fun _ => .refl hwithin.texts⟩
  | true =>
    obtain rfl := Except.ok.inj hA
    have htexts : ∀ l ∈ ({ P with columns := cs } : Frame).labels.map
        fun l => (Scalar.text ("stack_" ++ l.plain) : Label), Label.isText l = true := by
      intro l hl
      obtain ⟨c, -, rfl⟩ := List.mem_map.1 hl
      rfl
    have hnew := Frame.texts_relabel (F := { P with columns := cs }) htexts
    refine ⟨_, rfl, hF.beside hnew fun l hl hl' => ?_, fun hF' =>
      hF'.beside hnew (hF.spares _)⟩
    refine hspares rfl l ?_ hl'
    exact Frame.labels_beside ▸ List.mem_append_right _ hl

end Stacking
end ColumnFlow
