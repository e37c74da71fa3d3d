import ColumnFlow.Proofs.Node.Locality

/-!
# What a fit keeps

Invariants of the memory that a computation keeps whether it succeeds or fails. Candidates are
tried out on copies, whose identities are new, so comparing them keeps whatever does not speak of
new identities. What the fits of all parts keep, and what a node writes about itself keeps, is kept
by everything that a fit of the node does between forgetting its columns and remembering them.
-/
namespace ColumnFlow

namespace Work

variable {α β : Type} {I J : Memory → Prop}

/-- Whatever becomes of the computation, `I` still holds afterwards. -/
def Keeps (I : Memory → Prop) (x : Work α) : Prop := ∀ w, I w.memory → I (x w).2.memory

namespace Keeps

theorem steady {x : Work α} (hx : Steady x) : Keeps I x := by
  intro w h
  rw [(hx w w).2]
  exact h

theorem bind {x : Work α} {f : α → Work β} (hx : Keeps I x) (hf : ∀ a, Keeps I (f a)) :
    Keeps I (x >>= f) := by
  intro w h
  have hfirst := hx w h
  rw [run_bind]
  rcases hrun : x w with ⟨e | a, v⟩ <;> rw [hrun] at hfirst
  · exact hfirst
  · exact hf a v hfirst

theorem reading {f : Memory → Work α} (hf : ∀ m, Keeps I (f m)) : Keeps I (memory >>= f) := by
  intro w h
  rw [run_memory_bind]
  exact hf _ w h

theorem attempt {x : Work α} (hx : Keeps I x) : Keeps I (Work.attempt x) := fun w h => hx w h

end Keeps

theorem run_attempt_bind (x : Work α) (f : Except Failure α → Work β) (w : Workspace) :
    (attempt x >>= f) w = f (x w).1 (x w).2 := rfl

end Work

/-- What does not speak of identities that are new. -/
def Memory.Lasting (I : Memory → Prop) : Prop := ∀ m m', Memory.Extends [] m m' → I m → I m'

namespace Node

/-- The parts of a tree: its children, and before them the stacker if there is one. -/
def parts (n : Node) : List Node :=
  match n.plan with
  | .stack t _ _ => ⟨t, n.site.first⟩ :: n.children
  | _ => n.children

theorem ids_of_mem_zipParts {ps : List Plan} {ss : List Site} {q : Node} (hq : q ∈ zipParts ps ss)
    {i : Nat} (hi : i ∈ q.site.ids) : i ∈ Site.idsOf ss := by
  induction ps generalizing ss with
  | nil => cases hq
  | cons p ps ih =>
    cases ss with
    | nil => cases hq
    | cons s ss =>
      rw [Site.idsOf, List.mem_append]
      rcases List.mem_cons.1 hq with rfl | hq
      · exact .inl hi
      · exact .inr (ih hq)

theorem ids_of_mem_parts {n q : Node} (hq : q ∈ n.parts) {i : Nat} (hi : i ∈ q.site.ids) :
    i ∈ n.site.ids := by
  obtain ⟨p, s⟩ := n
  cases p with
  | transformer | learner | element => cases hq
  | sequential | parallel | vote | best =>
    exact Site.mem_ids_of_mem_idsOf_parts (ids_of_mem_zipParts hq hi)
  | stack t ps settings =>
    rcases List.mem_cons.1 hq with rfl | hq
    · exact Site.mem_ids_of_mem_first hi
    · exact Site.mem_ids_of_mem_idsOf_rest (ids_of_mem_zipParts hq hi)
  | bagging t settings =>
    obtain ⟨r, hr, rfl⟩ := List.mem_map.1 hq
    exact Site.mem_ids_of_mem_idsOf_rest (Site.mem_idsOf.2 ⟨r, hr, hi⟩)

end Node

namespace Plan

variable {I : Memory → Prop} {env : Surroundings} {p t : Plan} {ps : List Plan} {s : Site}
  {ss : List Site} {X : Frame} {y : Option Series}

/-! Candidates. -/

theorem copy_new {m : Memory} (p : Plan) (hs : ∀ i ∈ s.ids, i < m.next) :
    Memory.Extends [] m (p.copy s m).2 ∧
      ∀ i ∈ (p.copy s m).1.ids, m.next ≤ i ∧ i < (p.copy s m).2.next := by
  have hcopying : Memory.Copying id s.ids m.next m.next m m :=
    ⟨fun _ _ => rfl, hs, hs, .start m m⟩
  have hcopied := copy_rename m.next m.next p id s m m hcopying
  have hids : Site.idsOf [(p.copy s m).1] = (p.copy s m).1.ids := by
    simp only [Site.idsOf, List.append_nil]
  have hnew := hcopied.new
  have htaken := hcopied.taken
  rw [hids] at hnew htaken
  exact ⟨hcopied.extend, fun i hi => ⟨hnew i hi, htaken i hi⟩⟩

/-- Fitting a copy of a tree leaves everything alone that was there before. -/
theorem fit_copy {w : Workspace} (env : Surroundings) (p : Plan) (X : Frame) (y : Option Series)
    (hs : ∀ i ∈ s.ids, i < w.memory.next) :
    Memory.Extends [] w.memory (fit env p (p.copy s w.memory).1 X y
      { w with memory := (p.copy s w.memory).2 }).2.memory := by
  obtain ⟨hcopy, hids⟩ := copy_new p hs
  have hfit := fit_extends env p X y (s := (p.copy s w.memory).1)
    (w := { w with memory := (p.copy s w.memory).2 }) fun i hi => (hids i hi).2
  exact hcopy.trans hfit fun i hi => .inr (hids i hi).1

section Candidates

variable (hI : Memory.Lasting I)
include hI

theorem holdoutScores_keeps {metric : Metric} {y : Series} {split : Holdout}
    (hss : ∀ m, I m → ∀ i ∈ Site.idsOf ss, i < m.next) :
    Work.Keeps I (holdoutScores env metric ps ss X y split) := by
  induction ps generalizing ss with
  | nil =>
    simp only [holdoutScores]
    exact .steady (.pure _)
  | cons p ps ih =>
    cases ss with
    | nil =>
      simp only [holdoutScores]
      exact .steady (.pure _)
    | cons s ss =>
      intro w hw
      simp only [holdoutScores, Work.run_placing_bind]
      have hs : ∀ i ∈ s.ids, i < w.memory.next := fun i hi =>
        hss w.memory hw i (by rw [Site.idsOf, List.mem_append]; exact .inl hi)
      have hfit := hI _ _ (fit_copy env p (X.takeRows split.train)
        (some (y.takeRows split.train)) hs) hw
      have hlater : ∀ m, I m → ∀ i ∈ Site.idsOf ss, i < m.next := fun m hm i hi =>
        hss m hm i (by rw [Site.idsOf, List.mem_append]; exact .inr hi)
      have hrest := ih hlater
      rw [Work.run_bind]
      rcases hrun : fit env p (p.copy s w.memory).1 (X.takeRows split.train)
        (some (y.takeRows split.train)) { w with memory := (p.copy s w.memory).2 } with
        ⟨e | _, v⟩ <;> rw [hrun] at hfit
      · exact hfit
      · refine Work.Keeps.reading (fun m => ?_) v hfit
        refine .bind (.steady (.logged _)) fun guess => ?_
        refine .bind (.steady (.except _)) fun score => ?_
        exact hrest.bind fun _ => .steady (.pure _)

theorem runFold_keeps {metric : Metric} {y : Series} {fold : Fold}
    (hs : ∀ m, I m → ∀ i ∈ s.ids, i < m.next) :
    Work.Keeps I (Validator.runFold (Node.trainable env ⟨p, s⟩) metric X y fold) := by
  have hfailed : ∀ e stages, Work.Keeps I (Validator.failedFold fold e stages) :=
    fun e stages => .steady ((Work.Steady.note _).bind fun _ => .pure _)
  intro w hw
  -- Not a bind of steps that keep `I`: the fit is compared with the memory before the copy.
  have hfit := hI _ _ (fit_copy env p (X.takeRows fold.train)
    (some (y.takeRows fold.train)) (hs w.memory hw)) hw
  unfold Validator.runFold
  rw [Work.run_attempt_bind]
  change I ((Work.attempt (fit env p (p.copy s w.memory).1 (X.takeRows fold.train)
    (some (y.takeRows fold.train))) >>= _) { w with memory := (p.copy s w.memory).2 }).2.memory
  rw [Work.run_attempt_bind]
  rcases hrun : fit env p (p.copy s w.memory).1 (X.takeRows fold.train)
    (some (y.takeRows fold.train)) { w with memory := (p.copy s w.memory).2 } with ⟨e | _, v⟩ <;>
    rw [hrun] at hfit
  · exact hfailed e _ v hfit
  · have houtput : Work.Keeps I ((Node.trainable env ⟨p, s⟩).output (p.copy s w.memory).1
        (X.takeRows fold.test)) := .reading fun m => .steady (.logged _)
    refine Work.Keeps.bind houtput.attempt (fun output => ?_) v hfit
    cases output with
    | error e => exact hfailed e _
    | ok output =>
      dsimp only
      cases Validator.scoreOf metric (y.takeRows fold.test) output with
      | error e => exact hfailed e _
      | ok score => exact .steady (.pure _)

theorem runFolds_keeps {validator : Validator} {y : Series} {total : Nat} {folds : List Fold}
    {j : Journal} (hs : ∀ m, I m → ∀ i ∈ s.ids, i < m.next) :
    Work.Keeps I (validator.runFolds (Node.trainable env ⟨p, s⟩) X y total folds j) := by
  induction folds generalizing j with
  | nil => exact .steady (.pure _)
  | cons fold folds ih =>
    simp only [Validator.runFolds]
    exact .bind (runFold_keeps hI hs) fun _ => ih.bind fun _ => .steady (.pure _)

theorem run_keeps {validator : Validator} {X y : Data} {expression : Value} {j : Journal}
    (hs : ∀ m, I m → ∀ i ∈ s.ids, i < m.next) :
    Work.Keeps I (validator.run (Node.trainable env ⟨p, s⟩) X y expression j) := by
  unfold Validator.run
  generalize (X.toFrame >>= _ : Except Failure (Frame × Series)) = prepared
  rcases prepared with e | ⟨frame, target⟩
  · exact .steady (.pure _)
  · dsimp only
    rcases validator.split frame target with e | folds
    · exact .steady (.pure _)
    · have htext : Work.Keeps I (do
          let _ ← (Node.trainable env ⟨p, s⟩).text
          validator.checkJobs : Work Unit) :=
        .bind (.reading fun m => .steady (.except _)) fun _ => .steady (.except _)
      refine .bind htext.attempt fun checked => ?_
      cases checked with
      | error e => exact .steady (.pure _)
      | ok _ => exact .bind (runFolds_keeps hI hs) fun _ => .steady (.pure _)

theorem foldScores_keeps {validator : Validator} {owner : Site} {y : Series}
    (hss : ∀ m, I m → ∀ i ∈ Site.idsOf ss, i < m.next) :
    Work.Keeps I (foldScores env validator owner ps ss X y) := by
  induction ps generalizing ss with
  | nil =>
    simp only [foldScores]
    exact .steady (.pure _)
  | cons p ps ih =>
    cases ss with
    | nil =>
      simp only [foldScores]
      exact .steady (.pure _)
    | cons s ss =>
      simp only [foldScores]
      have hlater : ∀ m, I m → ∀ i ∈ Site.idsOf ss, i < m.next := fun m hm i hi =>
        hss m hm i (by rw [Site.idsOf, List.mem_append]; exact .inr hi)
      have hrest := ih hlater
      refine .bind (run_keeps hI fun m hm i hi =>
        hss m hm i (by rw [Site.idsOf, List.mem_append]; exact .inl hi)) fun result => ?_
      rcases result with ⟨_, e | result⟩
      · cases e with
        | allFoldsFailed records =>
          refine .reading fun m => .bind (.steady (.note _)) fun _ => ?_
          exact hrest.bind fun _ => .steady (.pure _)
        | _ => exact .steady (.throw _)
      · exact hrest.bind fun _ => .steady (.pure _)

theorem candidateScores_keeps {policy : SelectionPolicy} {metric : Metric} {defaults : Settings}
    {y : Series} (hs : ∀ m, I m → ∀ i ∈ s.ids, i < m.next) :
    Work.Keeps I (candidateScores env policy metric defaults ps s X y) := by
  have hparts : ∀ m, I m → ∀ i ∈ Site.idsOf s.parts, i < m.next := fun m hm i hi =>
    hs m hm i (Site.mem_ids_of_mem_idsOf_parts hi)
  unfold candidateScores
  split
  · exact .bind (.steady (.except _)) fun split => holdoutScores_keeps hI hparts
  · exact .bind (.steady (steady_create env _)) fun validator => foldScores_keeps hI hparts
  · exact .steady (.throw _)

end Candidates

/-! Parts that are fitted one after another. -/

section Parts

variable (h : ∀ q ∈ Node.zipParts ps ss, ∀ X y, Work.Keeps I (fit env q.plan q.site X y))
include h

theorem fitAll_keeps : Work.Keeps I (fitAll env ps ss X y) := by
  induction ps generalizing ss with
  | nil =>
    simp only [fitAll]
    exact .steady (.pure _)
  | cons p ps ih =>
    cases ss with
    | nil =>
      simp only [fitAll]
      exact .steady (.pure _)
    | cons s ss =>
      simp only [fitAll]
      refine .bind (h ⟨p, s⟩ List.mem_cons_self X y) fun _ => ?_
      exact ih fun q hq => h q (List.mem_cons_of_mem _ hq)

theorem fitAt_keeps {i : Nat} {y : Series} : Work.Keeps I (fitAt env ps ss i X y) := by
  induction ps generalizing ss i with
  | nil =>
    simp only [fitAt]
    exact .steady (.pure _)
  | cons p ps ih =>
    cases ss with
    | nil =>
      simp only [fitAt]
      exact .steady (.pure _)
    | cons s ss =>
      cases i with
      | zero =>
        simp only [fitAt]
        exact h ⟨p, s⟩ List.mem_cons_self X (some y)
      | succ i =>
        simp only [fitAt]
        exact ih fun q hq => h q (List.mem_cons_of_mem _ hq)

theorem fitChain_keeps : Work.Keeps I (fitChain env ps ss X y) := by
  induction ps generalizing ss X with
  | nil =>
    simp only [fitChain]
    exact .steady (.pure _)
  | cons p ps ih =>
    cases ss with
    | nil => cases ps <;> simp only [fitChain] <;> exact .steady (.pure _)
    | cons s ss =>
      have hfirst := h ⟨p, s⟩ List.mem_cons_self X y
      cases ps with
      | nil =>
        simp only [fitChain]
        exact hfirst
      | cons q ps =>
        simp only [fitChain]
        refine hfirst.bind fun _ => .reading fun m => .bind (.steady (.logged _)) fun Z => ?_
        exact ih fun r hr => h r (List.mem_cons_of_mem _ hr)

end Parts

theorem fitMembers_keeps {y : Series} {size : Nat} {source : Draw.Twister}
    (h : ∀ s ∈ ss, ∀ X y, Work.Keeps I (fit env t s X y)) :
    Work.Keeps I (ss.foldlM (fun source member => do
      let (rows, source) := Draw.Twister.sample X.rows size source
      fit env t member (X.takeRows rows) (some (y.takeRows rows))
      return source) source : Work Draw.Twister) := by
  induction ss generalizing source with
  | nil => exact .steady (.pure _)
  | cons s ss ih =>
    simp only [List.foldlM_cons]
    rcases Draw.Twister.sample X.rows size source with ⟨rows, source⟩
    refine .bind ((h s List.mem_cons_self _ _).bind fun _ => .steady (.pure _)) fun _ => ?_
    exact ih fun r hr => h r (List.mem_cons_of_mem _ hr)

theorem requireTarget_keeps (ensemble : String) :
    Work.Keeps I (Work.requireTarget ensemble s y) := by
  unfold Work.requireTarget
  cases y with
  | none => exact .bind (.reading fun m => .steady (.pure _)) fun _ => .steady (.throw _)
  | some y => exact .steady (.pure y)

/-- A fit of a node keeps what the fits of its parts keep, while the node has forgotten its
columns and does not remember the new ones yet. -/
theorem exists_body_keeps (hI : Memory.Lasting I) (env : Surroundings) (p : Plan) (s : Site)
    (X : Frame) (hs : ∀ m, I m → ∀ i ∈ s.ids, i < m.next)
    (hown : ∀ l, Work.Keeps I (Work.setLearned s l))
    (hparts : ∀ q ∈ (Node.mk p s).parts, ∀ X y, Work.Keeps I (fit env q.plan q.site X y)) :
    ∃ body, (∀ y, fit env p s X y = Work.fitting s X y body) ∧ ∀ y, Work.Keeps I (body y) := by
  have hlabel : Work.Keeps I (Work.labelOf s) := .reading fun m => .steady (.pure _)
  cases p with
  | transformer t =>
    refine ⟨_, fun y => by rw [fit], fun _ => .bind (.steady (.logged _)) fun fitted => hown _⟩
  | learner l =>
    refine ⟨_, fun y => by rw [fit], fun y => ?_⟩
    cases y with
    | none => exact hlabel.bind fun _ => .steady (.throw _)
    | some y => exact .bind (.steady (.logged _)) fun model => hown _
  | element e =>
    exact ⟨_, fun y => by rw [fit], fun _ => hlabel.bind fun _ => .steady (.logged _)⟩
  | sequential ps => exact ⟨_, fun y => by rw [fit], fun y => fitChain_keeps hparts⟩
  | parallel ps => exact ⟨_, fun y => by rw [fit], fun y => fitAll_keeps hparts⟩
  | vote ps => exact ⟨_, fun y => by rw [fit], fun y => fitAll_keeps hparts⟩
  | stack t ps settings =>
    refine ⟨_, fun y => by rw [fit], fun y => ?_⟩
    refine .bind (requireTarget_keeps _) fun y => .bind (.steady (.settings env)) fun defaults => ?_
    refine .bind (.steady (.except _)) fun split => .bind (.steady (.except _)) fun codes => ?_
    refine .bind (hown _) fun _ => ?_
    refine .bind (fitAll_keeps fun q hq => hparts q (List.mem_cons_of_mem _ hq)) fun _ => ?_
    refine .bind (.reading fun m => .bind (.steady (.logged _)) fun _ => .steady (.except _))
      fun stacked => ?_
    exact hparts ⟨t, s.first⟩ List.mem_cons_self _ _
  | best ps policy =>
    refine ⟨_, fun y => fit_best policy s, fun y => ?_⟩
    refine .bind (requireTarget_keeps _) fun y => .bind (.steady (.settings env)) fun defaults => ?_
    refine .bind (.steady (.except _)) fun metric => ?_
    refine .bind (candidateScores_keeps hI hs) fun scores => ?_
    unfold fitChosen
    refine .reading fun m => ?_
    dsimp only
    cases bestIndex metric scores with
    | none => exact (hown _).bind fun _ => .steady (.throw _)
    | some i => exact (hown _).bind fun _ => fitAt_keeps hparts
  | bagging t settings =>
    refine ⟨_, fun y => fit_bagging settings s, fun y => ?_⟩
    refine .bind (requireTarget_keeps _) fun y => ?_
    refine .bind (.steady (steady_seedValue env settings)) fun asked => ?_
    refine .bind (.steady (.except _)) fun source => ?_
    refine .bind (fitMembers_keeps fun r hr X y => ?_) fun _ => .steady (.pure _)
    exact hparts ⟨t, r⟩ (List.mem_map_of_mem hr) X y

end Plan
end ColumnFlow
