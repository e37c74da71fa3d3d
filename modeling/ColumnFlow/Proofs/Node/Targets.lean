import ColumnFlow.Proofs.Frame.Coercion
import ColumnFlow.Proofs.Node.Interchange
import ColumnFlow.Proofs.Node.Training

/-!
# The targets that learners are given

Every node of a tree makes a target of what it was given for its own features, and hands it on. A
target of which a target is made stays as it is, but for its row labels, so learners are given one
target at any depth. Where an ensemble chooses rows, a target is made of these rows of it.

That a learner is given a certain target shows in what the tree does: the tree does not change when
another learner is put in its place that learns the same from this target, whatever it makes of all
others.
-/
namespace ColumnFlow

/-- What the target of some rows is, when an ensemble has chosen them of a target. -/
def Column.chosen (c : Column) (rows : List Nat) : Column := Series.dissolve (c.takeRows rows)

/-- Two learners that differ in how they learn, but not from a target with a certain column. -/
structure Learner.LearnsAlike (c : Column) (l l' : Learner) : Prop where
  same : l' = { l with calculate := l'.calculate }
  calculate_eq : ∀ X : Frame, X.rows = c.cells.length →
    l.calculate X ⟨c, X.index⟩ = l'.calculate X ⟨c, X.index⟩

/-! Validators fit on rows of a target. -/

namespace Validator

variable {X : Frame} {y : Series} {u u' : Trainable}

theorem runFold_congr {fold : Fold} (hfresh : u.fresh = u'.fresh)
    (houtput : u.output = u'.output)
    (hfit : ∀ r, u.fit r (X.takeRows fold.train) (y.takeRows fold.train) =
      u'.fit r (X.takeRows fold.train) (y.takeRows fold.train)) (metric : Metric) :
    runFold u metric X y fold = runFold u' metric X y fold := by
  unfold runFold
  simp only [hfresh, houtput, hfit]

theorem runFolds_congr (hfresh : u.fresh = u'.fresh)
    (houtput : u.output = u'.output)
    (hfit : ∀ r rows, u.fit r (X.takeRows rows) (y.takeRows rows) =
      u'.fit r (X.takeRows rows) (y.takeRows rows)) (v : Validator) (total : Nat)
    (folds : List Fold) (j : Journal) :
    v.runFolds u X y total folds j = v.runFolds u' X y total folds j := by
  induction folds generalizing j with
  | nil => rfl
  | cons fold folds ih =>
    simp only [runFolds, ih, runFold_congr hfresh houtput fun r => hfit r fold.train]

/-- A validator fits on nothing but rows of the target that it makes. -/
theorem run_congr (u u' : Trainable) (htext : u.text = u'.text) (hfresh : u.fresh = u'.fresh)
    (houtput : u.output = u'.output)
    (hfit : ∀ r rows,
      u.fit r (X.takeRows rows) (Series.takeRows ⟨Series.dissolve y.column, X.index⟩ rows) =
      u'.fit r (X.takeRows rows) (Series.takeRows ⟨Series.dissolve y.column, X.index⟩ rows))
    (v : Validator) (expression : Value) (j : Journal) :
    v.run u (.frame X) (.series y) expression j = v.run u' (.frame X) (.series y) expression j := by
  unfold run
  generalize hprepared : (_ >>= _ : Except Failure (Frame × Series)) = prepared
  rcases prepared with e | ⟨frame, target⟩
  · rfl
  · obtain ⟨_, hframe, hprepared⟩ := Except.exists_of_bind hprepared
    cases hframe
    obtain ⟨made, hmade, hprepared⟩ := Except.exists_of_bind hprepared
    cases made with
    | none => cases hprepared
    | some made =>
      cases hprepared
      obtain ⟨_, hseries, -, rfl⟩ := Data.exists_series hmade
      cases hseries
      simp only [htext, Data.settle, runFolds_congr hfresh houtput hfit]

end Validator

namespace Plan

mutual

/-- Two trees that differ in their learners only, and these learn alike from a target with the
column `c`, or from rows chosen of it where they stand below an ensemble that chooses rows. The best
of some candidates learns from all rows after it was tried out on some. -/
inductive LearnsAlike : Column → Plan → Plan → Prop
  | transformer {c : Column} (t : Transformer) : LearnsAlike c (.transformer t) (.transformer t)
  | element {c : Column} (e : Element) : LearnsAlike c (.element e) (.element e)
  | learner {c : Column} {l l' : Learner} (hl : l.LearnsAlike c l') :
    LearnsAlike c (.learner l) (.learner l')
  | sequential {c : Column} {ps qs : List Plan} (hparts : LearnAllAlike c ps qs) :
    LearnsAlike c (.sequential ps) (.sequential qs)
  | parallel {c : Column} {ps qs : List Plan} (hparts : LearnAllAlike c ps qs) :
    LearnsAlike c (.parallel ps) (.parallel qs)
  | vote {c : Column} {ps qs : List Plan} (hmembers : LearnAllAlike c ps qs) :
    LearnsAlike c (.vote ps) (.vote qs)
  | stack {c : Column} {t t' : Plan} {ps qs : List Plan} (settings : StackSettings)
    (hstacker : ∀ rows, LearnsAlike (c.chosen rows) t t')
    (hmembers : ∀ rows, LearnAllAlike (c.chosen rows) ps qs) :
    LearnsAlike c (.stack t ps settings) (.stack t' qs settings)
  | best {c : Column} {ps qs : List Plan} (policy : SelectionPolicy)
    (hbest : LearnAllAlike c ps qs) (htried : ∀ rows, LearnAllAlike (c.chosen rows) ps qs) :
    LearnsAlike c (.best ps policy) (.best qs policy)
  | bagging {c : Column} {t t' : Plan} (settings : BaggingSettings)
    (htemplate : ∀ rows, LearnsAlike (c.chosen rows) t t') :
    LearnsAlike c (.bagging t settings) (.bagging t' settings)

inductive LearnAllAlike : Column → List Plan → List Plan → Prop
  | nil {c : Column} : LearnAllAlike c [] []
  | cons {c : Column} {p q : Plan} {ps qs : List Plan} (h : LearnsAlike c p q)
    (hs : LearnAllAlike c ps qs) : LearnAllAlike c (p :: ps) (q :: qs)

end

/-- Two plans that are alike in all but fitting. -/
structure SameForm (p q : Plan) : Prop extends Lookalike p q where
  transform_eq : ∀ m s X, transform m p s X = transform m q s X

variable {env : Surroundings} {m : Memory} {p q t t' : Plan} {ps qs : List Plan} {s : Site}
  {ss : List Site} {X : Frame} {y : Series} {c : Column}

theorem LearnAllAlike.imp {R : Plan → Plan → Prop} (h : LearnAllAlike c ps qs)
    (hR : ∀ p ∈ ps, ∀ q, LearnsAlike c p q → R p q) : List.Forall₂ R ps qs := by
  induction ps generalizing qs with
  | nil =>
    cases h
    exact .nil
  | cons p ps ih =>
    cases h with
    | cons hp hs =>
      exact .cons (hR p List.mem_cons_self _ hp)
        (ih hs fun p hp => hR p (List.mem_cons_of_mem _ hp))

/-! Trees that differ in how their learners learn answer alike from one memory. -/

section Form

theorem chain_congr (h : List.Forall₂ SameForm ps qs) : chain m ps ss X = chain m qs ss X := by
  induction h generalizing ss X with
  | nil => rfl
  | cons hp _ ih => cases ss <;> simp only [chain, hp.transform_eq, ih]

theorem outputs_congr (h : List.Forall₂ SameForm ps qs) :
    outputs m ps ss X = outputs m qs ss X := by
  induction h generalizing ss with
  | nil => rfl
  | cons hp _ ih => cases ss <;> simp only [outputs, hp.transform_eq, ih]

theorem lookalike_of_sameForm (h : List.Forall₂ SameForm ps qs) : List.Forall₂ Lookalike ps qs :=
  h.imp fun _ _ => SameForm.toLookalike

theorem SameForm.refl (p : Plan) : SameForm p p := ⟨.refl p, fun _ _ _ => rfl⟩

theorem SameForm.sequential (h : List.Forall₂ SameForm ps qs) :
    SameForm (.sequential ps) (.sequential qs) := by
  have hlook := lookalike_of_sameForm h
  refine ⟨⟨fun _ _ => ?_, fun _ _ => ?_, fun _ _ => ?_, fun _ _ _ => ?_⟩, fun _ _ _ => ?_⟩
  all_goals simp only [copy, copyAll_congr hlook, copiedName, defaultName, text, texts_congr hlook,
    isFitted, allFitted_congr hlook, Memory.labels, transform, chain_congr h]

theorem SameForm.parallel (h : List.Forall₂ SameForm ps qs) :
    SameForm (.parallel ps) (.parallel qs) := by
  have hlook := lookalike_of_sameForm h
  refine ⟨⟨fun _ _ => ?_, fun _ _ => ?_, fun _ _ => ?_, fun _ _ _ => ?_⟩, fun _ _ _ => ?_⟩
  all_goals simp only [copy, copyAll_congr hlook, copiedName, defaultName, text, texts_congr hlook,
    isFitted, allFitted_congr hlook, Memory.labels, transform, outputs_congr h]

theorem SameForm.ensemble (h : Reassembled SameForm p q) : SameForm p q :=
  have hlook := h.mono SameForm.toLookalike
  ⟨hlook.lookalike, fun _ _ _ => hlook.transform_eq⟩

theorem SameForm.learner {l l' : Learner} (h : l.LearnsAlike c l') :
    SameForm (.learner l) (.learner l') := by
  rw [h.same]
  refine ⟨⟨fun _ _ => ?_, fun _ _ => ?_, fun _ _ => ?_, fun _ _ _ => ?_⟩, fun _ _ _ => ?_⟩
  all_goals simp only [copy, text, isFitted, Memory.labels, transform, Memory.answer]

theorem LearnsAlike.sameForm (h : LearnsAlike c p q) : SameForm p q := by
  induction p using Plan.induction generalizing c q
  all_goals cases h
  case transformer.transformer => exact .refl _
  case element.element => exact .refl _
  case learner.learner hl => exact .learner hl
  case sequential.sequential ih _ hparts =>
    exact .sequential (hparts.imp fun p hp _ h => ih p hp h)
  case parallel.parallel ih _ hparts =>
    exact .parallel (hparts.imp fun p hp _ h => ih p hp h)
  case vote.vote ih _ hmembers => exact .ensemble (.vote (hmembers.imp fun p hp _ h => ih p hp h))
  case stack.stack iht ih _ _ hstacker hmembers =>
    exact .ensemble (.stack (iht (hstacker [])) ((hmembers []).imp fun p hp _ h => ih p hp h))
  case best.best ih _ hbest _ => exact .ensemble (.best (hbest.imp fun p hp _ h => ih p hp h))
  case bagging.bagging ih _ htemplate => exact .ensemble (.bagging (ih (htemplate [])))

end Form

/-! Learners learn alike from what the nodes above them hand on. -/

section Fits

/-- A node is fitted alike if it goes on alike with the target that it makes. -/
theorem fitting_congr {body body' : Option Series → Work Unit} (hy : Series.dissolve y.column = c)
    (h : ∀ z : Series, z.column = c → Series.dissolve z.column = c → z.index = X.index →
      X.rows = c.cells.length → body (some z) = body' (some z)) :
    Work.fitting s X (some y) body = Work.fitting s X (some y) body' := by
  subst hy
  unfold Work.fitting
  rw [alignTarget_some]
  unfold checkLengths
  split
  · next hrows =>
    have hbody := h ⟨Series.dissolve y.column, X.index⟩ rfl (Series.dissolve_dissolve _) rfl
      (hrows.trans (Series.length_dissolve y.column).symm)
    change (do Work.setInput s none; body _; Work.setInput s (some X.labels) : Work Unit) =
      (do Work.setInput s none; body' _; Work.setInput s (some X.labels) : Work Unit)
    rw [hbody]
  · rfl

theorem fitChain_congr {y : Option Series} (h : List.Forall₂ SameForm ps qs)
    (hfit : ∀ X, List.Forall₂ (FitAlike env X y) ps qs) :
    fitChain env ps ss X y = fitChain env qs ss X y := by
  induction h generalizing ss X with
  | nil => rfl
  | @cons p q ps qs hp hs ih =>
    have hfirst : ∀ X, FitAlike env X y p q := fun X => (List.forall₂_cons.1 (hfit X)).1
    have hrest : ∀ X, List.Forall₂ (FitAlike env X y) ps qs := fun X =>
      (List.forall₂_cons.1 (hfit X)).2
    cases hs with
    | nil => cases ss <;> simp only [fitChain, hfirst X _]
    | cons => cases ss <;> simp only [fitChain, hfirst X _, hp.transform_eq, ih hrest]

theorem foldScores_congr (h : List.Forall₂ SameForm ps qs)
    (hfit : ∀ rows, List.Forall₂ (FitAlike env (X.takeRows rows)
      (some (Series.takeRows ⟨Series.dissolve y.column, X.index⟩ rows))) ps qs)
    (v : Validator) (owner : Site) :
    foldScores env v owner ps ss X y = foldScores env v owner qs ss X y := by
  induction h generalizing ss with
  | nil => rfl
  | @cons p q ps qs hp hs ih =>
    cases ss with
    | nil => simp only [foldScores]
    | cons s ss =>
      have hrest : foldScores env v owner ps ss X y = foldScores env v owner qs ss X y :=
        ih fun rows => (List.forall₂_cons.1 (hfit rows)).2
      have hrun := Validator.run_congr (X := X) (Node.trainable env ⟨p, s⟩)
        (Node.trainable env ⟨q, s⟩)
        (by simp only [Node.trainable, Node.text, hp.text_eq])
        (by simp only [Node.trainable, funext (hp.copy_eq s)])
        (by simp only [Node.trainable, hp.transform_eq])
        (fun r rows => (List.forall₂_cons.1 (hfit rows)).1 r) v .null .fresh
      simp only [foldScores, hrest]
      change (v.run (Node.trainable env ⟨p, s⟩) (.frame X) (.series y) .null .fresh >>= _ :
        Work (List Float)) =
        v.run (Node.trainable env ⟨q, s⟩) (.frame X) (.series y) .null .fresh >>= _
      rw [hrun]

/-- Every tree whose learners learn like those of a tree from the target that its root makes is
fitted like it. -/
def FitsByTarget (env : Surroundings) (p : Plan) : Prop :=
  ∀ ⦃c : Column⦄ ⦃q : Plan⦄, LearnsAlike c p q → ∀ (X : Frame) (y : Series),
    Series.dissolve y.column = c → FitAlike env X (some y) p q

theorem LearnAllAlike.sameForm (h : LearnAllAlike c ps qs) : List.Forall₂ SameForm ps qs :=
  h.imp fun _ _ _ h => h.sameForm

theorem LearnAllAlike.fitAlike (ih : ∀ p ∈ ps, FitsByTarget env p) (h : LearnAllAlike c ps qs)
    (X : Frame) (hy : Series.dissolve y.column = c) :
    List.Forall₂ (FitAlike env X (some y)) ps qs :=
  h.imp fun p hp _ h => ih p hp h X y hy

theorem fitsByTarget_learner (l : Learner) : FitsByTarget env (.learner l) := by
  rintro c _ (_ | _ | hl) X y hy s
  simp only [fit]
  refine fitting_congr hy fun z hz _ hindex hrows => ?_
  obtain ⟨column, index⟩ := z
  cases hz
  cases hindex
  simp only [hl.calculate_eq X hrows]

theorem fitsByTarget_sequential (ih : ∀ p ∈ ps, FitsByTarget env p) :
    FitsByTarget env (.sequential ps) := by
  intro c q h X y hy s
  cases h with
  | sequential hparts =>
    simp only [fit]
    exact fitting_congr hy fun z _ hz _ _ =>
      fitChain_congr hparts.sameForm fun Z => hparts.fitAlike ih Z hz

theorem fitsByTarget_parallel (ih : ∀ p ∈ ps, FitsByTarget env p) :
    FitsByTarget env (.parallel ps) := by
  intro c q h X y hy s
  cases h with
  | parallel hparts =>
    simp only [fit]
    exact fitting_congr hy fun z _ hz _ _ => fitAll_congr (hparts.fitAlike ih X hz)

theorem fitsByTarget_vote (ih : ∀ p ∈ ps, FitsByTarget env p) : FitsByTarget env (.vote ps) := by
  intro c q h X y hy s
  cases h with
  | vote hmembers =>
    simp only [fit]
    exact fitting_congr hy fun z _ hz _ _ => fitAll_congr (hmembers.fitAlike ih X hz)

theorem fitsByTarget_stack {settings : StackSettings} (iht : FitsByTarget env t)
    (ih : ∀ p ∈ ps, FitsByTarget env p) : FitsByTarget env (.stack t ps settings) := by
  intro c q h X y hy s
  cases h with
  | @stack _ _ t' _ qs _ hstacker hmembers =>
    simp only [fit]
    refine fitting_congr hy fun z hz _ _ _ => ?_
    cases hz
    have hall : ∀ rows, fitAll env ps s.rest (X.takeRows rows) (some (z.takeRows rows)) =
        fitAll env qs s.rest (X.takeRows rows) (some (z.takeRows rows)) := fun rows =>
      fitAll_congr ((hmembers rows).fitAlike ih _ rfl)
    have hfirst : ∀ Z rows, fit env t s.first Z (some (z.takeRows rows)) =
        fit env t' s.first Z (some (z.takeRows rows)) := fun Z rows =>
      iht (hstacker rows) Z _ rfl s.first
    have hlook := lookalike_of_sameForm (hmembers []).sameForm
    simp only [Work.requireTarget, pure_bind, hall, stackedFeatures_congr hlook, hfirst]

theorem fitsByTarget_best {policy : SelectionPolicy} (ih : ∀ p ∈ ps, FitsByTarget env p) :
    FitsByTarget env (.best ps policy) := by
  intro c q h X y hy s
  cases h with
  | @best _ _ qs _ hbest htried =>
    rw [fit_best, fit_best]
    refine fitting_congr hy fun z hz hagain _ _ => ?_
    cases hz
    -- Candidates are tried out on rows of the target, or of what the validator makes of it.
    have htrials : ∀ u : Series, u.column = z.column → ∀ rows,
        List.Forall₂ (FitAlike env (X.takeRows rows) (some (u.takeRows rows))) ps qs :=
      fun u hu rows => (htried rows).fitAlike ih _ (congrArg (fun c : Column => c.chosen rows) hu)
    simp only [Work.requireTarget, pure_bind, fitChosen_congr (hbest.fitAlike ih X hagain),
      candidateScores_congr (lookalike_of_sameForm hbest.sameForm) (htrials z rfl) fun _ v owner =>
        foldScores_congr hbest.sameForm (htrials _ hagain) v owner]

theorem fitsByTarget_bagging {settings : BaggingSettings} (ih : FitsByTarget env t) :
    FitsByTarget env (.bagging t settings) := by
  intro c q h X y hy s
  cases h with
  | @bagging _ _ t' _ htemplate =>
    rw [fit_bagging, fit_bagging]
    refine fitting_congr hy fun z hz _ _ _ => ?_
    cases hz
    have hmember : ∀ rows r, fit env t r (X.takeRows rows) (some (z.takeRows rows)) =
        fit env t' r (X.takeRows rows) (some (z.takeRows rows)) := fun rows r =>
      ih (htemplate rows) _ _ rfl r
    simp only [Work.requireTarget, pure_bind, hmember]

theorem fitsByTarget (env : Surroundings) (p : Plan) : FitsByTarget env p := by
  induction p using Plan.induction with
  | transformer t | element e =>
    intro c q h X y hy s
    cases h
    rfl
  | learner l => exact fitsByTarget_learner l
  | sequential ps ih => exact fitsByTarget_sequential ih
  | parallel ps ih => exact fitsByTarget_parallel ih
  | vote ps ih => exact fitsByTarget_vote ih
  | stack t ps settings iht ih => exact fitsByTarget_stack iht ih
  | best ps policy ih => exact fitsByTarget_best ih
  | bagging t settings ih => exact fitsByTarget_bagging ih

end Fits

end Plan

namespace Node

open Plan

/-- A target for some features has their row labels, a value for each of their rows and the name of
the data that it is made of. Its values are those of the data in their own order, whatever row
labels the data has. Of a target the same target is made again, for any features with as many rows;
so a tree is fitted with it like with the data itself, and gives its learners this very target at
any depth of sequences, parallels and votes, and rows of it below an ensemble that chooses rows.
Only of an array of texts that has none a target of another kind is made the second time. -/
theorem target_survives_nesting (d : Data) (X : Frame) (r : Series)
    (h : d.toTarget X = .ok (some r)) :
    (r.index = X.index ∧ r.rows = X.rows ∧ ∃ c, d.Shows c ∧ r.name = c.label ∧
      ((∀ kind levels, c.dtype = .category kind levels → c.Typed) →
        List.Forall₂ c.Keeps c.cells r.cells)) ∧
    (¬ (X.rows = 0 ∧ ∃ v, d = .array v (some "str")) → ∀ Z : Frame, Z.rows = X.rows →
      (Data.series r).toTarget Z = .ok (some (r.withIndex Z.index)) ∧
      (∀ env n, Node.fit env n (.frame Z) (.series r) = Node.fit env n (.frame Z) d) ∧
      ∀ env p q s, LearnsAlike r.column p q →
        Node.fit env ⟨p, s⟩ (.frame Z) d = Node.fit env ⟨q, s⟩ (.frame Z) d) ∧
    (X.rows = 0 → (∃ v, d = .array v (some "str")) → r.column = ⟨.text "target", .text, []⟩ ∧
      ∀ Z : Frame, Z.rows = 0 → (Data.series r).toTarget Z =
        .ok (some ⟨⟨.text "target", .object, []⟩, Z.index⟩)) := by
  obtain ⟨y, hy, hrows, hr⟩ := Data.exists_series h
  obtain ⟨c, hshows, hsettles⟩ := Data.exists_shown hy
  have hlength : r.rows = X.rows := by
    rw [hrows, hr]
    exact Data.length_settle d y.column
  refine ⟨⟨by rw [hr], hlength, c, hshows, ?_, fun hc => ?_⟩, fun hne Z hZ => ?_, ?_⟩
  · rw [hr]
    exact hsettles.label_eq
  · rw [hr]
    exact hsettles.keeps hc
  · have hstands : Series.dissolve r.column = r.column := by
      rw [hr]
      refine hsettles.dissolve_eq fun htexts hnil => hne ⟨?_, htexts⟩
      rw [← hlength, hr]
      exact List.length_eq_zero_iff.2 hnil
    have hmade : Series.dissolve y.column = r.column := by
      rw [← hstands, hr]
      exact (Data.dissolve_settle d y.column).symm
    refine ⟨Data.toTarget_again (hZ.trans hlength.symm) hstands, fun env n => ?_,
      fun env p q s hpq => ?_⟩
    · rw [fit_eq (F := Z) rfl hy, fit_eq (F := Z) (t := some r) rfl rfl]
      refine fit_target ?_ n.plan n.site
      rw [alignTarget_some, alignTarget_some, hstands, hmade, hlength, hrows]
    · rw [fit_eq (F := Z) rfl hy, fit_eq (F := Z) rfl hy]
      exact fitsByTarget env p hpq Z y hmade s
  · rintro hnone ⟨v, rfl⟩
    obtain ⟨hcolumn, hagain⟩ := Data.toTarget_no_texts h hnone
    refine ⟨hcolumn, fun Z hZ => ?_⟩
    change alignTarget (some r) Z = _
    rw [alignTarget_some, hagain, checkLengths, if_pos (hZ.trans (hlength.trans hnone).symm)]
    rfl

/-- Texts, one of them missing, under row labels that repeat. -/
def verdicts : Series :=
  ⟨⟨.text "verdict", .object, [.text "b", .null, .text "a"]⟩, [.text "x", .text "x", .int 7]⟩

def verdictsMade (index : List Label) : Series :=
  ⟨⟨.text "verdict", .text, [.text "b", .scalar .absent, .text "a"]⟩, index⟩

def counted (index : List Label) : Frame :=
  ⟨index, [⟨.text "n", .int64, index.map fun _ => .int 1⟩]⟩

/-- Learns the first text; of anything else it learns nothing, or refuses to. -/
def scribe (strict : Bool) : Learner :=
  ⟨"Scribe", [], .labels, "classification", fun _ y =>
    match y.dtype with
    | .text =>
      pure (some ⟨fun Z => pure ⟨.null, .text, Z.index.map fun _ => y.cells.headD .null⟩, none⟩)
    | _ => if strict then Logged.fail .value else pure none⟩

/-- Scribes at different depths. -/
def scribes (strict : Bool) : Plan :=
  .sequential [.parallel [.vote [.learner (scribe strict)]], .learner (scribe strict)]

def scribesSite : Site := .mk 4 [.mk 2 [.mk 1 [.mk 0 []]], .mk 3 []]

def scribesSpace : Workspace :=
  ⟨⟨#[.fresh (.text "a"), .fresh (.text "b"), .fresh (.text "c"), .fresh (.text "d"),
    .fresh (.text "e")]⟩, [], false⟩

theorem target_survives_nesting_texts :
    (Data.series verdicts).toTarget (counted [.int 0, .int 0, .int 1]) =
        .ok (some (verdictsMade [.int 0, .int 0, .int 1])) ∧
      (Data.series (verdictsMade [.int 0, .int 0, .int 1])).toTarget (counted (rangeIndex 3)) =
        .ok (some (verdictsMade (rangeIndex 3))) ∧
      Node.fit ⟨.ok .standard, .builtin⟩ ⟨scribes true, scribesSite⟩
          (.frame (counted (rangeIndex 3))) (.series verdicts) =
        Node.fit ⟨.ok .standard, .builtin⟩ ⟨scribes false, scribesSite⟩
          (.frame (counted (rangeIndex 3))) (.series verdicts) ∧
      (Node.fit ⟨.ok .standard, .builtin⟩ ⟨scribes true, scribesSite⟩
        (.frame (counted (rangeIndex 3))) (.series verdicts) scribesSpace).1.isOk = true := by
  have hmade : (Data.series verdicts).toTarget (counted [.int 0, .int 0, .int 1]) =
      .ok (some (verdictsMade [.int 0, .int 0, .int 1])) := rfl
  have hscribe : (scribe true).LearnsAlike (verdictsMade []).column (scribe false) :=
    ⟨rfl, fun _ _ => rfl⟩
  have halike : LearnsAlike (verdictsMade []).column (scribes true) (scribes false) :=
    .sequential (.cons (.parallel (.cons (.vote (.cons (.learner hscribe) .nil)) .nil))
      (.cons (.learner hscribe) .nil))
  obtain ⟨-, hstable, -⟩ := target_survives_nesting _ _ _ hmade
  obtain ⟨hagain, -, hfit⟩ := hstable (fun hnone => absurd hnone.1 (by decide))
    (counted (rangeIndex 3)) rfl
  exact ⟨hmade, hagain, hfit _ _ _ _ halike, by decide +kernel⟩

/-- Nothing tells the kind of no values, whole numbers of a category with missing values can be too
great for a binary number, and rows of objects can be all texts. -/
theorem target_changes_with_nesting :
    ¬ (∀ (d : Data) (X Z : Frame) (r : Series), d.toTarget X = .ok (some r) → Z.rows = X.rows →
        ∃ r', (Data.series r).toTarget Z = .ok (some r') ∧ r'.dtype.name = r.dtype.name) ∧
      ¬ (∀ (y : Series) (X : Frame) (r : Series), y.column.Typed →
        (Data.series y).toTarget X = .ok (some r) → ∀ (i : Nat) (n : Int) (x : Float),
          y.cells[i]? = some (.int n) → r.cells[i]? = some (.float x) →
            Value.equals (.float x) (.int n) = true) ∧
      ¬ ∀ (y : Series) (X : Frame) (r r' : Series) (rows : List Nat),
        (Data.series y).toTarget X = .ok (some r) →
          (Data.series (r.takeRows rows)).toTarget (X.takeRows rows) = .ok (some r') →
            r'.dtype.name = r.dtype.name := by
  refine ⟨fun h => ?_, fun h => ?_, fun h => ?_⟩
  · obtain ⟨r', hr', hkind⟩ := h (.array (.list []) (some "str")) (counted []) (counted [])
      ⟨⟨.text "target", .text, []⟩, []⟩ rfl rfl
    cases hr'
    exact absurd hkind (by decide)
  · have hequal := h ⟨⟨.null, .category .int64 [.int 9007199254740993],
      [.int 9007199254740993, .scalar .absent]⟩, rangeIndex 2⟩ (counted (rangeIndex 2)) _
      (by decide) rfl 0 9007199254740993 _ rfl rfl
    revert hequal
    decide +kernel
  · have hkind := h ⟨⟨.null, .object, [.int 1, .text "a"]⟩, rangeIndex 2⟩ (counted (rangeIndex 2))
      ⟨⟨.null, .object, [.int 1, .text "a"]⟩, rangeIndex 2⟩
      ⟨⟨.null, .text, [.text "a"]⟩, [.int 1]⟩ [1] rfl rfl
    exact absurd hkind (by decide)

end Node
end ColumnFlow
