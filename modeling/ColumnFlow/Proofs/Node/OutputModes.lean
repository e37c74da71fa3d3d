import ColumnFlow.Proofs.CrossValidation.Independence
import ColumnFlow.Proofs.Node.Interchange
import ColumnFlow.Proofs.Node.Teaching
import ColumnFlow.Proofs.Node.Trainer

/-!
# Output modes of members

An ensemble takes the labels of a learner in every mode. The mode shows only where candidates are
compared by cross-validation, and there only if the learner comes to models that give
probabilities; without them the outputs are labels again.
-/
namespace ColumnFlow

/-- A learner without probabilities. -/
def Learner.LabelsOnly (l : Learner) : Prop :=
  ∀ X y model, (l.calculate X y).outcome = .ok (some model) → model.probabilities = none

/-- Not a model that gives probabilities. -/
def Learned.LabelsOnly : Learned → Prop
  | .model learned => learned.probabilities = none
  | _ => True

structure Memory.LabelsOnly (s : Site) (m : Memory) : Prop where
  taken : s.id < m.next
  learned : (m.learned s).LabelsOnly

namespace Plan

variable {P : Learner → Prop} {env : Surroundings} {m : Memory} {l : Learner} {mode : OutputMode}
  {p q : Plan} {ps qs : List Plan} {s : Site} {ss : List Site} {w w' : Workspace} {X : Frame}
  {y : Option Series}

/-- One plan with some learners in other modes, by itself or in ensembles that take labels. -/
inductive Switched (P : Learner → Prop) : Plan → Plan → Prop
  | same (p : Plan) : Switched P p p
  | learner {l : Learner} (mode : OutputMode) (hl : P l) :
    Switched P (.learner l) (.learner { l with output := mode })
  | ensemble {p q : Plan} (hp : ¬ p.CrossValidates) (h : Reassembled (Switched P) p q) :
    Switched P p q

theorem interchangeable_learner (l : Learner) (mode : OutputMode) :
    Interchangeable (.learner l) (.learner { l with output := mode }) := by
  refine ⟨⟨fun _ _ => ?_, fun _ _ => ?_, fun _ _ => ?_, fun _ _ _ => ?_⟩, fun _ _ _ _ => ?_⟩
  all_goals simp only [fit, copy, text, isFitted, Memory.labels]

theorem Switched.induction {motive : Plan → Plan → Prop} (same : ∀ p, motive p p)
    (learner : ∀ l mode, P l → motive (.learner l) (.learner { l with output := mode }))
    (ensemble : ∀ p q, ¬ p.CrossValidates → Reassembled motive p q → motive p q)
    (h : Switched P p q) : motive p q :=
  @Switched.rec P (fun p q _ => motive p q) (fun p q _ => Reassembled motive p q)
    (fun ps qs _ => List.Forall₂ motive ps qs)
    same (fun mode hl => learner _ mode hl) (fun hp _ h => ensemble _ _ hp h)
    (fun _ h => .vote h) (fun _ _ ht h => .stack ht h) (fun _ h => .best h) (fun _ h => .bagging h)
    .nil (fun _ _ h hs => .cons h hs) p q h

theorem Switched.interchangeable (h : Switched P p q) : Interchangeable p q := by
  refine h.induction Interchangeable.refl (fun l mode _ => interchangeable_learner l mode) ?_
  exact fun p q hp h => h.interchangeable hp

/-! Trials of learners. -/

/-- Without probabilities a learner answers with labels in every mode. -/
theorem answer_labelsOnly (h : Memory.LabelsOnly s m) (l : Learner) (X : Frame) :
    (m.answer l s X).outcome = (do return Memory.labelFrame (← m.predictions s X) :
      Logged Frame).outcome := by
  have hlearned := h.learned
  unfold Memory.learned at hlearned
  unfold Memory.answer
  cases l.output with
  | labels => rfl
  | probabilities =>
    dsimp only
    unfold Memory.predictions Memory.model
    cases hslot : (m.slot s.id).learned with
    | model learned =>
      rw [hslot] at hlearned
      have hnone : learned.probabilities = none := hlearned
      have hmodel : (pure learned : Logged Model).outcome = .ok learned := rfl
      simp only [Logged.outcome_bind, hmodel, Except.bind_ok, hnone]
      rfl
    | _ => rfl

theorem transform_labelsOnly (h : Memory.LabelsOnly s m) (l : Learner) (mode : OutputMode)
    (X : Frame) : (transform m (.learner l) s X).outcome =
      (transform m (.learner { l with output := mode }) s X).outcome := by
  simp only [transform, isFitted]
  unfold Memory.guarded
  split
  · rfl
  · split
    · rw [answer_labelsOnly h, answer_labelsOnly h]
    · rfl

theorem fit_labelsOnly (env : Surroundings) (hl : l.LabelsOnly) (s : Site) (X : Frame)
    (y : Option Series) : Work.Keeps (Memory.LabelsOnly s) (fit env (.learner l) s X y) := by
  have hset : ∀ learned : Learned, learned.LabelsOnly →
      Work.Keeps (Memory.LabelsOnly s) (Work.setLearned s learned) := fun learned h w hw => by
    rw [Work.run_setLearned]
    refine ⟨(Memory.next_update _ _ _).symm ▸ hw.taken, ?_⟩
    rw [Memory.learned_withLearned hw.taken]
    exact h
  simp only [fit]
  refine .fitting (fun columns w hw => ?_) fun target => ?_
  · rw [Work.run_setInput]
    refine ⟨(Memory.next_update _ _ _).symm ▸ hw.taken, ?_⟩
    unfold Memory.learned
    rw [Memory.slot_withInput_self hw.taken]
    exact hw.learned
  · cases target with
    | none => exact fun w hw => hw
    | some target =>
      intro w hw
      dsimp only
      rcases hlearned : l.calculate X target with ⟨notices, e | _ | model⟩
      · exact hw
      · exact hset .nothing trivial _ hw
      · exact hset (.model model) (hl X target model (by rw [hlearned])) _ hw

theorem copy_labelsOnly (l : Learner) (s : Site) (m : Memory) :
    Memory.LabelsOnly ((Plan.learner l).copy s m).1 ((Plan.learner l).copy s m).2 := by
  simp only [copy, Memory.place]
  refine ⟨?_, ?_⟩
  · simp [Site.id, Memory.next, Memory.alloc]
  · unfold Memory.learned
    rw [Site.id, Memory.slot_alloc_next]
    trivial

theorem run_logged (x : Logged Frame) (w : Workspace) :
    ((liftM x : Work Frame) w).1 = x.outcome := by
  rcases x with ⟨notices, _ | _⟩ <;> rfl

/-- The mode does not show in what a trial comes to. -/
theorem trial_labelsOnly (env : Surroundings) (hl : l.LabelsOnly) (mode : OutputMode) (s : Site)
    (X : Frame) (y : Series) (Z : Frame) (w : Workspace) :
    ((Node.trainable env ⟨.learner l, s⟩).trial X y Z w).1 =
      ((Node.trainable env ⟨.learner { l with output := mode }, s⟩).trial X y Z w).1 := by
  have halike := interchangeable_learner l mode
  have hfit := fit_labelsOnly env hl ((Plan.learner l).copy s w.memory).1 X (some y)
    { w with memory := ((Plan.learner l).copy s w.memory).2 } (copy_labelsOnly l s w.memory)
  rw [Node.run_trial, Node.run_trial, Work.run_bind, Work.run_bind]
  dsimp only
  rw [← halike.copy_eq, ← halike.fit_eq]
  rcases hrun : fit env (.learner l) ((Plan.learner l).copy s w.memory).1 X (some y)
    { w with memory := ((Plan.learner l).copy s w.memory).2 } with ⟨e | _, v⟩
  · rfl
  · rw [hrun] at hfit
    dsimp only
    rw [Work.run_memory_bind, Work.run_memory_bind, run_logged, run_logged]
    exact transform_labelsOnly hfit l mode Z

/-- Candidates without probabilities do not differ in what a trial comes to. -/
theorem Switched.trial_eq (hP : ∀ l, P l → l.LabelsOnly) (h : Switched P p q) (env : Surroundings)
    (s : Site) (X : Frame) (y : Series) (Z : Frame) (w : Workspace) :
    ((Node.trainable env ⟨p, s⟩).trial X y Z w).1 =
      ((Node.trainable env ⟨q, s⟩).trial X y Z w).1 := by
  have halike := h.interchangeable
  cases h with
  | same => rfl
  | learner mode hl => exact trial_labelsOnly env (hP _ hl) mode s X y Z w
  | ensemble _ h =>
    have htransform : ∀ m s X, transform m p s X = transform m q s X := fun _ _ _ =>
      (h.mono fun h => h.interchangeable.toLookalike).transform_eq
    rw [Node.run_trial, Node.run_trial]
    simp only [halike.copy_eq, halike.fit_eq, htransform]

end Plan

/-- What comes of a validation hangs on the text of a node and on trials. -/
theorem Node.validated_congr {env : Surroundings} {n n' : Node} {w w' : Workspace}
    (htext : n.text w.memory = n'.text w'.memory)
    (htrial : ∀ X y Z, ((n.trainable env).trial X y Z w).1 = ((n'.trainable env).trial X y Z w').1)
    (v : Validator) (X y : Data) (expression : Value) :
    validated env n v X y expression w = validated env n' v X y expression w' := by
  simp only [validated, foldRecord, Validator.foldTrial, htext, htrial]

namespace Plan

/-! One tree in two memories that hold the same for it. -/

section Same

variable {m m' : Memory} {s : Site} (p : Plan)

theorem text_same (h : m.Renamed id s.ids m') : p.text m s = p.text m' s := by
  have hrenamed := text_rename (p := p) h
  rwa [Site.rename_eq_self (f := id) fun _ => rfl] at hrenamed

theorem namesakes_same (h : m.Renamed id s.ids m') : Namesakes m m' p s s := by
  have hrenamed : Namesakes m m' p s (s.rename id) :=
    namesakes_rename p fun i hi => congrArg Slot.name (h i hi)
  rwa [Site.rename_eq_self (f := id) fun _ => rfl] at hrenamed

end Same

/-! Choices by cross-validation. -/

section Choices

variable {P : Learner → Prop} {env : Surroundings} {p q : Plan} {ps qs : List Plan} {s : Site}
  {ss : List Site} {S : List Nat} {m₀ m₀' : Memory} {w w' : Workspace} {X : Frame}
  {y : Option Series}

variable (hP : ∀ l, P l → l.LabelsOnly)
include hP

theorem run_switched (h : Switched P p q) (hs : s.ids ⊆ S) (v : Validator) (X y : Data)
    (expression : Value) (j : Journal) (hw : Memory.Tracks id S m₀ m₀' w.memory w'.memory) :
    Work.Matched (fun a b m m' => a.2 = b.2 ∧ Memory.Tracks id S m₀ m₀' m m')
      (Memory.Tracks id S m₀ m₀') (v.run (Node.trainable env ⟨p, s⟩) X y expression j w)
      (v.run (Node.trainable env ⟨q, s⟩) X y expression j w') := by
  have hslots := hw.renamed hs
  have hn : Node.InUse w.memory ⟨p, s⟩ := fun i hi => hw.mirrors.taken i (hs hi)
  have hn' : Node.InUse w'.memory ⟨q, s⟩ := fun i hi => hw.mirrors.taken' i (hs hi)
  have hext := Node.run_extends env hn v X y expression j
  have hext' := Node.run_extends env hn' v X y expression j
  obtain ⟨j₁, u, hrun⟩ := Node.run_validated env hn v X y expression j
  obtain ⟨j₁', u', hrun'⟩ := Node.run_validated env hn' v X y expression j
  rw [hrun] at hext
  rw [hrun'] at hext'
  rw [hrun, hrun']
  -- From one memory to the other with one plan, then from one plan to the other.
  refine ⟨Node.validated_congr ?_ (fun X y Z => ?_) v X y expression,
    hw.keep ⟨hext, hext'⟩ (by simp) (by simp)⟩
  · exact (text_same p hslots).trans (h.interchangeable.text_eq _ _)
  · rw [← h.trial_eq hP env s X y Z w']
    exact Node.trial_eq ⟨rfl, namesakes_same p hslots⟩ hn hn' X y Z

theorem foldScores_switched (h : List.Forall₂ (Switched P) ps qs) (hss : Site.idsOf ss ⊆ S)
    (v : Validator) (owner : Site) (y : Series) :
    Work.Alongside (Memory.Tracks id S m₀ m₀') (foldScores env v owner ps ss X y)
      (foldScores env v owner qs ss X y) := by
  induction h generalizing ss with
  | nil =>
    simp only [foldScores]
    exact .steady (.pure _)
  | @cons p q ps qs hp _ ih =>
    cases ss with
    | nil =>
      simp only [foldScores]
      exact .steady (.pure _)
    | cons s ss =>
      rw [Site.idsOf, List.append_subset] at hss
      have hrest : ∀ score : Float, Work.Alongside (Memory.Tracks id S m₀ m₀')
          (do return score :: (← foldScores env v owner ps ss X y))
          (do return score :: (← foldScores env v owner qs ss X y)) := fun score =>
        (ih hss.2).bind fun _ => .steady (.pure _)
      intro w w' hw
      simp only [foldScores]
      refine .bind (run_switched hP hp hss.1 v _ _ _ _ hw) (fun _ _ h => h) ?_
      rintro ⟨j, outcome⟩ ⟨j', outcome'⟩ u u' ⟨houtcome, hu⟩
      obtain rfl : outcome = outcome' := houtcome
      rcases outcome with e | result
      · cases e with
        | allFoldsFailed records =>
          exact hrest _ { u with notices := _ } { u' with notices := _ } hu
        | _ => exact .throw _ hu
      · exact hrest _ u u' hu

theorem fit_best_switched {policy : SelectionPolicy} (h : List.Forall₂ (Switched P) ps qs)
    (hpolicy : policy.strategy = .text "cv") (hs : s.ids ⊆ S) :
    Work.Alongside (Memory.Tracks id S m₀ m₀') (fit env (.best ps policy) s X y)
      (fit env (.best qs policy) s X y) := by
  have hparts : Site.idsOf s.parts ⊆ S := fun _ hid => hs (Site.mem_ids_of_mem_idsOf_parts hid)
  suffices hrenamed : Work.Alongside (Memory.Tracks id S m₀ m₀') (fit env (.best ps policy) s X y)
      (fit env (.best qs policy) (s.rename id) X y) by
    rwa [Site.rename_eq_self (f := id) fun _ => rfl] at hrenamed
  rw [fit_best, fit_best]
  refine fitting_follows hs fun y => (requireTarget_follows hs _).bind fun y => ?_
  refine .bind (.steady (.settings env)) fun defaults => ?_
  refine .bind (.steady (.except _)) fun metric => .bind ?_ fun scores => ?_
  · rw [Site.rename_eq_self (f := id) fun _ => rfl]
    simp only [candidateScores, hpolicy]
    exact .bind (.steady (steady_create env _)) fun v => foldScores_switched hP h hparts v s y
  · rw [← fitChosen_congr (fitAlike_members (h.imp fun _ _ => Switched.interchangeable))]
    exact fitChosen_follows (fun p _ => follows env p) hs

theorem fit_switched (h : Reassembled (Switched P) p q) (hs : s.ids ⊆ S) :
    Work.Alongside (Memory.Tracks id S m₀ m₀') (fit env p s X y) (fit env q s X y) := by
  by_cases hp : p.CrossValidates
  · cases h with
    | best h => exact fit_best_switched hP h hp hs
    | _ => exact hp.elim
  · rw [← (h.mono Switched.interchangeable).fit_eq hp]
    exact fit_follows env p X y hs

end Choices

end Plan

namespace Node

open Plan

/-- An ensemble combines labels in whatever mode its learners answer. If some of them are switched to
another mode, it answers as before, and unless it chooses by cross-validation, it is fitted as
before. It also is with a choice by cross-validation if the learners that are switched do not come to
probabilities; only its notices may then differ. -/
theorem labels_in_every_mode (P : Learner → Prop) (p q : Plan) (h : Reassembled (Switched P) p q)
    (s : Site) :
    (∀ m Z, Node.transform ⟨p, s⟩ m Z = Node.transform ⟨q, s⟩ m Z) ∧
    (¬ p.CrossValidates → ∀ env X y, Node.fit env ⟨p, s⟩ X y = Node.fit env ⟨q, s⟩ X y) ∧
    ((∀ l, P l → l.LabelsOnly) → ∀ env X y (w : Workspace), InUse w.memory ⟨p, s⟩ →
      (Node.fit env ⟨p, s⟩ X y w).1 = (Node.fit env ⟨q, s⟩ X y w).1 ∧
      (∀ i < w.memory.next, (Node.fit env ⟨p, s⟩ X y w).2.memory.slot i =
        (Node.fit env ⟨q, s⟩ X y w).2.memory.slot i) ∧
      ∀ Z, Node.transform ⟨p, s⟩ (Node.fit env ⟨p, s⟩ X y w).2.memory Z =
        Node.transform ⟨q, s⟩ (Node.fit env ⟨q, s⟩ X y w).2.memory Z) := by
  have halike := h.mono Switched.interchangeable
  have htransform : ∀ m Z, Node.transform ⟨p, s⟩ m Z = Node.transform ⟨q, s⟩ m Z := fun m Z => by
    have hlook := halike.mono Interchangeable.toLookalike
    have hfitted : isFitted ⟨p, s⟩ m = isFitted ⟨q, s⟩ m := hlook.isFitted_eq
    unfold transform
    rw [hfitted]
    simp only [hlook.transform_eq]
    rfl
  refine ⟨htransform, fun hp env X y => ?_, fun hP env X y w hn => ?_⟩
  · simp only [fit, halike.fit_eq hp]
  · have hw : Memory.Mirrors id (List.range w.memory.next) w.memory w.memory :=
      ⟨fun _ _ => rfl, fun _ _ _ _ h => h, fun _ => List.mem_range.1, fun _ => List.mem_range.1⟩
    have hfit : Work.Alongside (Memory.Tracks id (List.range w.memory.next) w.memory w.memory)
        (Node.fit env ⟨p, s⟩ X y) (Node.fit env ⟨q, s⟩ X y) :=
      .bind (.steady (.except _)) fun frame => .bind (.steady (.except _)) fun target =>
        fit_switched hP h fun i hi => List.mem_range.2 (hn i hi)
    obtain ⟨houtcome, htracks⟩ := (hfit w w hw.tracks).ends_alike
    refine ⟨houtcome, fun i hi => htracks.mirrors.renamed i (List.mem_range.2 hi), fun Z => ?_⟩
    rw [← htransform]
    exact ((seen_same (htracks.renamed fun i hi => List.mem_range.2 (hn i hi))).2 Z).symm

/-- Predicts the first label that it was taught, and may give its probability. -/
def guesser (certain : Bool) (mode : OutputMode) : Learner :=
  ⟨"Guesser", [], mode, "classification", fun _ y => pure (some
    ⟨fun X => pure ⟨.null, y.dtype, X.index.map fun _ => y.cells.headD .null⟩,
      if certain then
        some fun X => pure ⟨X.index, [⟨.text "a", .float64, X.index.map fun _ => .float 1.0⟩]⟩
      else none⟩)⟩

/-- A choice between two guessers. -/
def guesses (strategy : String) (certain : Bool) (mode : OutputMode) : Plan :=
  .best [.learner (guesser certain mode), .learner (guesser certain mode)]
    ⟨.text "accuracy", .text strategy, .int 1, .int 2, .bool false, .bool false, .null⟩

def guessesSite : Site := .mk 2 [.mk 0 [], .mk 1 []]

def guessesSpace : Workspace :=
  ⟨⟨#[.fresh (.text "first"), .fresh (.text "second"), .fresh (.text "best")]⟩, [], false⟩

/-- The outcome of a choice between guessers. -/
def chosen (strategy : String) (certain : Bool) (mode : OutputMode) : Except Failure Unit :=
  (fit ⟨.ok .standard, .builtin⟩ ⟨guesses strategy certain mode, guessesSite⟩
    (.frame Validator.two)
    (.series ⟨⟨.text "y", .text, [.text "a", .text "a"]⟩, rangeIndex 2⟩) guessesSpace).1

theorem guesses_switched {P : Learner → Prop} (strategy : String) (certain : Bool)
    (h : P (guesser certain .labels)) :
    Reassembled (Switched P) (guesses strategy certain .labels)
      (guesses strategy certain .probabilities) :=
  .best (.cons (.learner .probabilities h) (.cons (.learner .probabilities h) .nil))

theorem labels_in_every_mode_guesses :
    (guesser false .labels).LabelsOnly ∧ (chosen "holdout" true .probabilities).isOk = true ∧
      (chosen "cv" false .probabilities).isOk = true := by
  have hplain : (guesser false .labels).LabelsOnly := fun X y model h => by
    cases h
    rfl
  obtain ⟨-, hfit, -⟩ := labels_in_every_mode (fun _ => True) _ _
    (guesses_switched "holdout" true trivial) guessesSite
  obtain ⟨-, -, hrun⟩ := labels_in_every_mode (· = guesser false .labels) _ _
    (guesses_switched "cv" false rfl) guessesSite
  refine ⟨hplain, ?_, ?_⟩
  · unfold chosen
    rw [← hfit (by simp [guesses, CrossValidates])]
    decide +kernel
  · unfold chosen
    rw [← (hrun (fun _ h => h ▸ hplain) _ _ _ guessesSpace (by decide)).1]
    decide +kernel

theorem modes_differ_in_cross_validation : ¬ ∀ (p q : Plan) (s : Site) (env : Surroundings)
    (X y : Data) (w : Workspace), Reassembled (Switched fun _ => True) p q →
    InUse w.memory ⟨p, s⟩ →
    (fit env ⟨p, s⟩ X y w).1.isOk = (fit env ⟨q, s⟩ X y w).1.isOk := by
  intro h
  have hsame : (chosen "cv" true .labels).isOk = (chosen "cv" true .probabilities).isOk :=
    h _ _ _ _ _ _ _ (guesses_switched "cv" true trivial) (by decide)
  revert hsame
  decide +kernel

end Node
end ColumnFlow
