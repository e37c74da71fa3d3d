import ColumnFlow.Proofs.Node.Refit

/-!
# Members that can be exchanged

An ensemble fits and copies its members, asks whether they are fitted, and takes their labels.
Members that are alike in this can be exchanged for each other, and the ensemble that has the others
in their place is alike as well, so that it may be a member itself. The one exception is a choice by
cross-validation, which scores the outputs of its candidates and not their labels.
-/
namespace ColumnFlow.Plan

/-- Two plans that are alike in all that an ensemble does with a member, fitting aside. -/
structure Lookalike (p q : Plan) : Prop where
  copy_eq : ∀ s m, p.copy s m = q.copy s m
  text_eq : ∀ m s, p.text m s = q.text m s
  isFitted_eq : ∀ m s, p.isFitted m s = q.isFitted m s
  labels_eq : ∀ (m : Memory) s X, (m.labels p s X fun _ => transform m p s X) =
    m.labels q s X fun _ => transform m q s X

/-- Two plans that are fitted alike on some data. -/
def FitAlike (env : Surroundings) (X : Frame) (y : Option Series) (p q : Plan) : Prop :=
  ∀ s, fit env p s X y = fit env q s X y

/-- Two plans that are alike in all that an ensemble does with a member. -/
structure Interchangeable (p q : Plan) : Prop extends Lookalike p q where
  fit_eq : ∀ env s X y, fit env p s X y = fit env q s X y

theorem Lookalike.refl (p : Plan) : Lookalike p p :=
  ⟨fun _ _ => rfl, fun _ _ => rfl, fun _ _ => rfl, fun _ _ _ => rfl⟩

theorem Interchangeable.refl (p : Plan) : Interchangeable p p :=
  ⟨.refl p, fun _ _ _ _ => rfl⟩

section Members

variable {env : Surroundings} {m : Memory} {ps qs : List Plan} {s : Site} {ss : List Site}
  {X : Frame} {y : Option Series}

/-! All members, and one of them. -/

theorem allFitted_congr (h : List.Forall₂ Lookalike ps qs) :
    allFitted m ps ss = allFitted m qs ss := by
  induction h generalizing ss with
  | nil => rfl
  | cons hp _ ih => cases ss <;> simp only [allFitted, hp.isFitted_eq, ih]

theorem labelsOfAll_congr (h : List.Forall₂ Lookalike ps qs) :
    labelsOfAll m ps ss X = labelsOfAll m qs ss X := by
  induction h generalizing ss with
  | nil => rfl
  | cons hp _ ih => cases ss <;> simp only [labelsOfAll, hp.labels_eq, ih]

theorem copyAll_congr (h : List.Forall₂ Lookalike ps qs) :
    copyAll ps ss m = copyAll qs ss m := by
  induction h generalizing ss m with
  | nil => rfl
  | cons hp _ ih => cases ss <;> simp only [copyAll, hp.copy_eq, ih]

theorem texts_congr (h : List.Forall₂ Lookalike ps qs) :
    texts m ps ss = texts m qs ss := by
  induction h generalizing ss with
  | nil => rfl
  | cons hp _ ih => cases ss <;> simp only [texts, hp.text_eq, ih]

theorem fitAll_congr (h : List.Forall₂ (FitAlike env X y) ps qs) :
    fitAll env ps ss X y = fitAll env qs ss X y := by
  induction h generalizing ss with
  | nil => rfl
  | @cons _ _ _ _ hp _ ih => cases ss <;> simp only [fitAll, hp _, ih]

theorem fittedAt_congr (h : List.Forall₂ Lookalike ps qs) (i : Nat) :
    fittedAt m ps ss i = fittedAt m qs ss i := by
  induction h generalizing ss i with
  | nil => rfl
  | cons hp _ ih => cases ss <;> cases i <;> simp only [fittedAt, hp.isFitted_eq, ih]

theorem labelsAt_congr (h : List.Forall₂ Lookalike ps qs) (i : Nat) :
    labelsAt m ps ss i X = labelsAt m qs ss i X := by
  induction h generalizing ss i with
  | nil => rfl
  | cons hp _ ih => cases ss <;> cases i <;> simp only [labelsAt, hp.labels_eq, ih]

theorem fitAt_congr {y : Series} (h : List.Forall₂ (FitAlike env X (some y)) ps qs) (i : Nat) :
    fitAt env ps ss i X y = fitAt env qs ss i X y := by
  induction h generalizing ss i with
  | nil => rfl
  | @cons _ _ _ _ hp _ ih => cases ss <;> cases i <;> simp only [fitAt, hp _, ih]

theorem holdoutScores_congr {y : Series} {split : Holdout} (h : List.Forall₂ Lookalike ps qs)
    (hfit : List.Forall₂
      (FitAlike env (X.takeRows split.train) (some (y.takeRows split.train))) ps qs)
    (metric : Metric) :
    holdoutScores env metric ps ss X y split = holdoutScores env metric qs ss X y split := by
  induction h generalizing ss with
  | nil => rfl
  | @cons p q _ _ hp _ ih =>
    rw [List.forall₂_cons] at hfit
    have hplaced : ∀ s, Work.placing (p.copy s) = Work.placing (q.copy s) := fun s =>
      congrArg Work.placing (funext (hp.copy_eq s))
    cases ss <;> simp only [holdoutScores, hplaced, hfit.1 _, hp.labels_eq, ih hfit.2]

theorem stackedFeatures_congr (h : List.Forall₂ Lookalike ps qs)
    (settings : StackSettings) :
    stackedFeatures ps settings s X = stackedFeatures qs settings s X := by
  simp only [stackedFeatures, labelsOfAll_congr h]

theorem fitChosen_congr {y : Series} (h : List.Forall₂ (FitAlike env X (some y)) ps qs)
    (metric : Metric) (scores : List Float) :
    fitChosen env metric ps s X y scores = fitChosen env metric qs s X y scores := by
  simp only [fitChosen, fitAt_congr h]

/-- Candidates are scored alike if they are fitted alike on any rows, whichever way scores them. -/
theorem candidateScores_congr {y : Series} {policy : SelectionPolicy}
    (h : List.Forall₂ Lookalike ps qs)
    (hfit : ∀ rows, List.Forall₂ (FitAlike env (X.takeRows rows) (some (y.takeRows rows))) ps qs)
    (hfolds : policy.strategy = .text "cv" → ∀ v owner,
      foldScores env v owner ps s.parts X y = foldScores env v owner qs s.parts X y)
    (metric : Metric) (defaults : Settings) :
    candidateScores env policy metric defaults ps s X y =
      candidateScores env policy metric defaults qs s X y := by
  unfold candidateScores
  split
  · simp only [holdoutScores_congr h (hfit _)]
  · next hcv => simp only [hfolds hcv]
  · rfl

theorem fitAlike_members (h : List.Forall₂ Interchangeable ps qs) :
    List.Forall₂ (FitAlike env X y) ps qs := h.imp fun _ _ hp s => hp.fit_eq env s X y

theorem lookalike_members (h : List.Forall₂ Interchangeable ps qs) :
    List.Forall₂ Lookalike ps qs := h.imp fun _ _ => Interchangeable.toLookalike

end Members

/-- Two ensembles that are put together in one way, of members that are related. -/
inductive Reassembled (R : Plan → Plan → Prop) : Plan → Plan → Prop
  | vote {ps qs : List Plan} (hmembers : List.Forall₂ R ps qs) :
    Reassembled R (.vote ps) (.vote qs)
  | stack {t t' : Plan} {ps qs : List Plan} {settings : StackSettings} (hstacker : R t t')
    (hmembers : List.Forall₂ R ps qs) :
    Reassembled R (.stack t ps settings) (.stack t' qs settings)
  | best {ps qs : List Plan} {policy : SelectionPolicy} (hmembers : List.Forall₂ R ps qs) :
    Reassembled R (.best ps policy) (.best qs policy)
  | bagging {t t' : Plan} {settings : BaggingSettings} (htemplate : R t t') :
    Reassembled R (.bagging t settings) (.bagging t' settings)

/-- A choice of the best by cross-validation. -/
def CrossValidates : Plan → Prop
  | .best _ policy => policy.strategy = .text "cv"
  | _ => False

namespace Reassembled

variable {R R' : Plan → Plan → Prop} {env : Surroundings} {m : Memory} {p q : Plan} {s : Site}
  {X : Frame} {y : Option Series}

theorem mono (h : Reassembled R p q) (hR : ∀ {p q}, R p q → R' p q) : Reassembled R' p q := by
  cases h with
  | vote hps => exact .vote (hps.imp fun _ _ => hR)
  | stack ht hps => exact .stack (hR ht) (hps.imp fun _ _ => hR)
  | best hps => exact .best (hps.imp fun _ _ => hR)
  | bagging ht => exact .bagging (hR ht)

theorem isFitted_eq (h : Reassembled Lookalike p q) : p.isFitted m s = q.isFitted m s := by
  cases h with
  | vote hps => simp only [isFitted, allFitted_congr hps]
  | stack ht hps => simp only [isFitted, allFitted_congr hps, ht.isFitted_eq]
  | best hps => simp only [isFitted, fittedAt_congr hps]
  | bagging ht => simp only [isFitted, ht.isFitted_eq]

theorem transform_eq (h : Reassembled Lookalike p q) :
    transform m p s X = transform m q s X := by
  have hfitted := h.isFitted_eq (m := m) (s := s)
  cases h with
  | vote hps => simp only [transform, hfitted, labelsOfAll_congr hps]
  | stack ht hps => simp only [transform, hfitted, labelsOfAll_congr hps, ht.labels_eq]
  | best hps => simp only [transform, hfitted, labelsAt_congr hps]
  | bagging ht => simp only [transform, hfitted, ht.labels_eq]

theorem copy_eq (h : Reassembled Lookalike p q) : p.copy s m = q.copy s m := by
  cases h with
  | vote hps => simp only [copy, copyAll_congr hps, copiedName, defaultName]
  | stack ht hps => simp only [copy, copyAll_congr hps, ht.copy_eq, copiedName, defaultName]
  | best hps => simp only [copy, copyAll_congr hps, copiedName, defaultName]
  | bagging ht => simp only [copy, ht.copy_eq, copiedName, defaultName]

theorem text_eq (h : Reassembled Lookalike p q) : p.text m s = q.text m s := by
  cases h with
  | vote hps => simp only [text, texts_congr hps]
  | stack ht hps => simp only [text, texts_congr hps]
  | best hps => simp only [text, texts_congr hps]
  | bagging ht => simp only [text, ht.text_eq]

theorem lookalike (h : Reassembled Lookalike p q) : Lookalike p q := by
  refine ⟨fun _ _ => h.copy_eq, fun _ _ => h.text_eq, fun _ _ => h.isFitted_eq, fun m s X => ?_⟩
  have houtput := h.transform_eq (m := m) (s := s) (X := X)
  cases h <;> simp only [Memory.labels, houtput]

theorem fit_eq (h : Reassembled Interchangeable p q) (hp : ¬ p.CrossValidates) :
    fit env p s X y = fit env q s X y := by
  cases h with
  | vote hps => simp only [fit, fitAll_congr (fitAlike_members hps)]
  | stack ht hps =>
    simp only [fit, fitAll_congr (fitAlike_members hps),
      stackedFeatures_congr (lookalike_members hps), ht.fit_eq]
  | best hps =>
    simp only [fit_best, fitChosen_congr (fitAlike_members hps), candidateScores_congr
      (lookalike_members hps) (fun _ => fitAlike_members hps) fun hcv => absurd hcv hp]
  | bagging ht => simp only [fit_bagging, ht.fit_eq]

theorem interchangeable (h : Reassembled Interchangeable p q) (hp : ¬ p.CrossValidates) :
    Interchangeable p q :=
  ⟨(h.mono Interchangeable.toLookalike).lookalike, fun _ _ _ _ => h.fit_eq hp⟩

end Reassembled
end ColumnFlow.Plan
