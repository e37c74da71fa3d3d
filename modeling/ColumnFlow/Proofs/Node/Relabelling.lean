import ColumnFlow.Proofs.Node.Locality
import ColumnFlow.Proofs.Node.RowLabels

/-!
# Fits and row labels

A tree is fitted alike on data that differs in row labels alone: both fits have one outcome and
leave one memory. Rows are chosen by position everywhere, in samples, holdout splits and folds, and
targets are paired with features by position, so labels that repeat or stand in another order do not
show.
-/
namespace ColumnFlow

/-! What splits and scores see of a target. -/

namespace Series.Reindexed

variable {y y' : Series} {X X' : Frame}

theorem keys (h : y.Reindexed y') : Classes.keys y' = Classes.keys y := by
  unfold Classes.keys Classes.checkObjects Classes.anyKeys
  rw [h.dtype, h.cells]

theorem classKeys (h : y.Reindexed y') : Classes.classKeys y' = Classes.classKeys y := by
  unfold Classes.classKeys
  rw [h.keys, h.dtype]
  unfold Classes.checkObjects
  rw [h.cells]

theorem holdout (h : y.Reindexed y') (rows : Nat) (asked : Value) (seed : Option Value)
    (isStratified : Bool) :
    Holdout.split rows asked seed (if isStratified then some y' else none) =
      Holdout.split rows asked seed (if isStratified then some y else none) := by
  cases isStratified with
  | false => rfl
  | true =>
    have hstratified : ∀ count t,
        Holdout.stratified rows count y' t = Holdout.stratified rows count y t := by
      intro count t
      unfold Holdout.stratified
      rw [h.keys]
    unfold Holdout.split
    cases seed <;> simp only [if_true, Option.map_some, Option.map_none, hstratified]

theorem rows_eq (h : y.Reindexed y') : y'.rows = y.rows := by
  unfold Series.rows
  rw [h.column]

theorem folds (h : y.Reindexed y') (p : FoldPlan) : p.folds y' = p.folds y := by
  unfold FoldPlan.folds FoldPlan.stratifiedFolds
  rw [h.classKeys, h.rows_eq]

theorem split (h : y.Reindexed y') (hX : X.Reindexed X') (v : Validator) :
    v.split X' y' = v.split X y := by
  unfold Validator.split
  rw [hX.rows, h.rows_eq]
  simp only [h.folds]

theorem codes (h : y.Reindexed y') : Stacking.codes y' = Stacking.codes y := by
  unfold Stacking.codes
  rw [h.cells]

theorem sample (h : y.Reindexed y') : Sample.ofSeries y' = Sample.ofSeries y := by
  unfold Sample.ofSeries
  rw [h.column]

theorem score (h : y.Reindexed y') {out out' : Frame} (hout : out.Reindexed out')
    (metric : Metric) : Validator.scoreOf metric y' out' = Validator.scoreOf metric y out := by
  unfold Validator.scoreOf Sample.ofFrame
  rw [h.sample, hout.columns]

end Series.Reindexed

namespace Memory

theorem RowBlind.update {m : Memory} (hm : m.RowBlind) (id : Nat) {change : Slot → Slot}
    (hchange : ∀ s : Slot, s.learned.RowBlind → (change s).learned.RowBlind) :
    (m.update id change).RowBlind := by
  intro i
  by_cases hi : i = id
  · subst hi
    by_cases hlt : i < m.next
    · rw [slot_update_self hlt]
      exact hchange _ (hm i)
    · unfold Memory.update
      rw [Array.getElem?_eq_none (Nat.not_lt.1 hlt)]
      exact hm i
  · rw [slot_update_of_ne hi]
    exact hm i

theorem RowBlind.alloc {m : Memory} (hm : m.RowBlind) (name : Label) :
    (m.alloc (.fresh name)).RowBlind := by
  intro i
  by_cases hlt : i < m.next
  · rw [slot_alloc_of_lt hlt]
    exact hm i
  · by_cases hi : i = m.next
    · rw [hi, slot_alloc_next]
      trivial
    · have hnone : (m.alloc (.fresh name)).slots[i]? = none := by
        refine Array.getElem?_eq_none ?_
        have hnext : m.slots.size = m.next := rfl
        simp only [Memory.alloc, Array.size_push]
        omega
      unfold slot
      rw [hnone]
      trivial

/-- One memory for two runs, in which all that was learned sees values only. -/
def Shared (m m' : Memory) : Prop := m' = m ∧ m.RowBlind

end Memory

namespace Plan

/-- What new nodes keep is kept by copying trees. -/
theorem copy_keeps {I : Memory → Prop} (hI : ∀ m name, I m → I (m.alloc (.fresh name))) (p : Plan)
    (s : Site) {m : Memory} (hm : I m) : I (p.copy s m).2 := by
  have hall : ∀ ps : List Plan, (∀ p ∈ ps, ∀ s m, I m → I (p.copy s m).2) →
      ∀ ss m, I m → I (copyAll ps ss m).2 := by
    intro ps ih
    induction ps with
    | nil =>
      intro ss m hm
      simpa only [copyAll] using hm
    | cons p ps ihs =>
      intro ss m hm
      cases ss with
      | nil => simpa only [copyAll] using hm
      | cons s ss =>
        simp only [copyAll]
        exact ihs (fun q hq => ih q (List.mem_cons_of_mem _ hq)) ss _
          (ih p List.mem_cons_self s m hm)
  induction p using Plan.induction generalizing s m with
  | transformer | learner | element =>
    simp only [copy, Memory.place]
    exact hI _ _ hm
  | sequential ps ih | parallel ps ih | vote ps ih | best ps policy ih =>
    simp only [copy, Memory.place]
    exact hI _ _ (hall ps (fun p hp s m hm => ih p hp s hm) _ _ hm)
  | stack t ps settings iht ih =>
    simp only [copy, Memory.place]
    exact hI _ _ (iht _ (hall ps (fun p hp s m hm => ih p hp s hm) _ _ hm))
  | bagging t settings ih =>
    have htimes : ∀ (c : Site) k m, I m → I (Memory.times (fun m => t.copy c m) k m).2 := by
      intro c k
      induction k with
      | zero => exact fun m hm => hm
      | succ k ihk => exact fun m hm => ihk _ (ih c hm)
    simp only [copy, Memory.place]
    exact hI _ _ (htimes _ _ _ (ih _ hm))

end Plan

namespace Work

variable {α β γ : Type} {R : α → β → Prop} {P : Memory → Memory → Prop}

/-- Two ways to go on from results that `R` relates. -/
theorem Alongside.except {x : Except Failure α} {x' : Except Failure β} {f : α → Work γ}
    {f' : β → Work γ} (h : Except.Alike R x x')
    (hf : ∀ a b, R a b → Alongside P (f a) (f' b)) :
    Alongside P (liftM x >>= f) (liftM x' >>= f') := by
  intro w w' hw
  cases h with
  | ok h => exact hf _ _ h w w' hw
  | error e => exact ⟨rfl, hw⟩

theorem logged_matched {x : Logged α} {x' : Logged β} {w w' : Workspace}
    (h : Except.Alike R x.outcome x'.outcome) (hw : P w.memory w'.memory) :
    Matched (fun a b m m' => R a b ∧ P m m') P ((liftM x : Work α) w) ((liftM x' : Work β) w') := by
  rcases x with ⟨notices, o⟩
  rcases x' with ⟨notices', o'⟩
  cases h with
  | ok h => exact ⟨h, hw⟩
  | error e => exact ⟨rfl, hw⟩

theorem Alongside.logged {x : Logged α} {x' : Logged β} {f : α → Work γ} {f' : β → Work γ}
    (h : Except.Alike R x.outcome x'.outcome)
    (hf : ∀ a b, R a b → Alongside P (f a) (f' b)) :
    Alongside P (liftM x >>= f) (liftM x' >>= f') := by
  intro w w' hw
  exact .bind (logged_matched h hw) (fun _ _ h => h) fun a b v v' hv => hf a b hv.1 v v' hv.2

theorem updateSlot_shared (id : Nat) {change : Slot → Slot}
    (hchange : ∀ s : Slot, s.learned.RowBlind → (change s).learned.RowBlind) :
    Alongside Memory.Shared (updateSlot id change) (updateSlot id change) := by
  intro w w' hw
  refine ⟨rfl, ?_, hw.2.update id hchange⟩
  exact congrArg (Memory.update · id change) hw.1

theorem setInput_shared (s : Site) (columns : Option (List Label)) :
    Alongside Memory.Shared (setInput s columns) (setInput s columns) :=
  updateSlot_shared _ fun _ h => h

theorem setLearned_shared (s : Site) {l : Learned} (hl : l.RowBlind) :
    Alongside Memory.Shared (setLearned s l) (setLearned s l) :=
  updateSlot_shared _ fun _ _ => hl

/-- Two computations that first look at the memory that they share. -/
theorem Alongside.sharing {f f' : Memory → Work α}
    (hf : ∀ m, m.RowBlind → Alongside Memory.Shared (f m) (f' m)) :
    Alongside Memory.Shared (memory >>= f) (memory >>= f') := by
  refine .reading fun m m' h => ?_
  obtain ⟨rfl, hm⟩ := h
  exact hf _ hm

end Work

namespace Plan

open Data.Reindexed (Target)

variable {p t : Plan} {ps : List Plan} {s : Site} {ss : List Site} {env : Surroundings}
  {X X' : Frame} {y y' : Option Series}

/-- Under any row labels a tree is fitted alike. -/
def FitsAlike (env : Surroundings) (p : Plan) : Prop :=
  ∀ s X X' y y', X.Reindexed X' → Target y y' →
    Work.Alongside Memory.Shared (fit env p s X y) (fit env p s X' y')

/-! What a node does by itself. -/

theorem labelOf_shared (s : Site) :
    Work.Alongside Memory.Shared (Work.labelOf s) (Work.labelOf s) :=
  .sharing fun _ _ => .steady (.pure _)

theorem fitting_shared (hX : X.Reindexed X') (hy : Target y y')
    {body body' : Option Series → Work Unit}
    (hbody : ∀ y y', Target y y' → Work.Alongside Memory.Shared (body y) (body' y')) :
    Work.Alongside Memory.Shared (Work.fitting s X y body) (Work.fitting s X' y' body') := by
  have haligned : Except.Alike Target (alignTarget y X) (alignTarget y' X') := by
    cases hy with
    | none => exact .ok .none
    | some hS => exact (hS.align hX).map fun _ _ => .some
  unfold Work.fitting
  rw [hX.labels]
  refine .except haligned fun y y' hy => ?_
  refine (Work.setInput_shared s none).bind fun _ => ?_
  exact (hbody y y' hy).bind fun _ => Work.setInput_shared s _

/-- What an ensemble goes on with when it has its target. -/
theorem requireTarget_shared (hy : Target y y') (ensemble : String) {f f' : Series → Work Unit}
    (hf : ∀ S S', S.Reindexed S' → Work.Alongside Memory.Shared (f S) (f' S')) :
    Work.Alongside Memory.Shared (Work.requireTarget ensemble s y >>= f)
      (Work.requireTarget ensemble s y' >>= f') := by
  cases hy with
  | none =>
    intro w w' hw
    refine .bind (Q := fun _ _ _ _ => False) ?_ (fun _ _ (h : Memory.Shared _ _) => h)
      fun _ _ _ _ h => h.elim
    unfold Work.requireTarget
    dsimp only
    rw [Work.run_labelOf_bind, Work.run_labelOf_bind, hw.1]
    exact .throw _ hw
  | some hS => exact hf _ _ hS

/-! Parts that are fitted one after another. -/

section Parts

variable (ih : ∀ p ∈ ps, FitsAlike env p)
include ih

theorem fitAll_shared (hX : X.Reindexed X') (hy : Target y y') :
    Work.Alongside Memory.Shared (fitAll env ps ss X y) (fitAll env ps ss X' y') := by
  induction ps generalizing ss with
  | nil =>
    simp only [fitAll]
    exact .steady (.pure _)
  | cons p ps ihs =>
    cases ss with
    | nil =>
      simp only [fitAll]
      exact .steady (.pure _)
    | cons s ss =>
      simp only [fitAll]
      exact (ih p List.mem_cons_self s X X' y y' hX hy).bind fun _ =>
        ihs fun q hq => ih q (List.mem_cons_of_mem _ hq)

theorem fitAt_shared {i : Nat} {S S' : Series} (hX : X.Reindexed X') (hS : S.Reindexed S') :
    Work.Alongside Memory.Shared (fitAt env ps ss i X S) (fitAt env ps ss i X' S') := by
  induction ps generalizing ss i with
  | nil =>
    simp only [fitAt]
    exact .steady (.pure _)
  | cons p ps ihs =>
    cases ss with
    | nil =>
      simp only [fitAt]
      exact .steady (.pure _)
    | cons s ss =>
      cases i with
      | zero =>
        simp only [fitAt]
        exact ih p List.mem_cons_self s X X' _ _ hX (.some hS)
      | succ i =>
        simp only [fitAt]
        exact ihs fun q hq => ih q (List.mem_cons_of_mem _ hq)

/-- Every part of a sequence is fitted on what the part before it answers. -/
theorem fitChain_shared (hps : ∀ p ∈ ps, p.RowBlind) (hX : X.Reindexed X') (hy : Target y y') :
    Work.Alongside Memory.Shared (fitChain env ps ss X y) (fitChain env ps ss X' y') := by
  induction ps generalizing ss X X' with
  | nil =>
    simp only [fitChain]
    exact .steady (.pure _)
  | cons p ps ihs =>
    cases ss with
    | nil =>
      cases ps <;> simp only [fitChain] <;> exact .steady (.pure _)
    | cons s ss =>
      have hfirst := ih p List.mem_cons_self s X X' y y' hX hy
      cases ps with
      | nil =>
        simp only [fitChain]
        exact hfirst
      | cons q ps =>
        simp only [fitChain]
        refine hfirst.bind fun _ => .sharing fun m hm => ?_
        refine .logged (Node.reply_alike (n := ⟨p, s⟩) (hps p List.mem_cons_self) hm hX)
          fun Z Z' hZ => ?_
        exact ihs (fun r hr => ih r (List.mem_cons_of_mem _ hr))
          (fun r hr => hps r (List.mem_cons_of_mem _ hr)) hZ

end Parts

/-- Every member of a bagging ensemble is fitted on rows that are drawn by position. -/
theorem fitMembers_shared (ih : FitsAlike env t) {S S' : Series} {size : Nat}
    {source : Draw.Twister} (hX : X.Reindexed X') (hS : S.Reindexed S') :
    Work.Alongside Memory.Shared
      (ss.foldlM (fun source member => do
        let (rows, source) := Draw.Twister.sample X.rows size source
        fit env t member (X.takeRows rows) (some (S.takeRows rows))
        return source) source : Work Draw.Twister)
      (ss.foldlM (fun source member => do
        let (rows, source) := Draw.Twister.sample X.rows size source
        fit env t member (X'.takeRows rows) (some (S'.takeRows rows))
        return source) source : Work Draw.Twister) := by
  induction ss generalizing source with
  | nil => exact .steady (.pure _)
  | cons s ss ihs =>
    simp only [List.foldlM_cons]
    rcases Draw.Twister.sample X.rows size source with ⟨rows, source⟩
    refine .bind ((ih s _ _ _ _ (hX.takeRows rows) (.some (hS.takeRows rows))).bind fun _ =>
      .steady (.pure _)) fun _ => ihs

/-! Candidates that are tried out on copies. -/

theorem placing_shared (p : Plan) (s : Site) {α : Type} {f f' : Site → Work α}
    (hf : ∀ c, Work.Alongside Memory.Shared (f c) (f' c)) :
    Work.Alongside Memory.Shared (Work.placing (p.copy s) >>= f)
      (Work.placing (p.copy s) >>= f') := by
  intro w w' hw
  rw [Work.run_placing_bind, Work.run_placing_bind, hw.1]
  exact hf _ _ _ ⟨rfl, copy_keeps (fun m name hm => hm.alloc name) p s hw.2⟩

theorem holdoutScores_shared (ih : ∀ p ∈ ps, FitsAlike env p) (hps : ∀ p ∈ ps, p.RowBlind)
    {metric : Metric} {S S' : Series} {split : Holdout} (hX : X.Reindexed X')
    (hS : S.Reindexed S') :
    Work.Alongside Memory.Shared (holdoutScores env metric ps ss X S split)
      (holdoutScores env metric ps ss X' S' split) := by
  induction ps generalizing ss with
  | nil =>
    simp only [holdoutScores]
    exact .steady (.pure _)
  | cons p ps ihs =>
    cases ss with
    | nil =>
      simp only [holdoutScores]
      exact .steady (.pure _)
    | cons s ss =>
      have hrest := @ihs ss (fun q hq => ih q (List.mem_cons_of_mem _ hq))
        fun q hq => hps q (List.mem_cons_of_mem _ hq)
      simp only [holdoutScores]
      refine placing_shared p s fun c => ?_
      refine (ih p List.mem_cons_self c _ _ _ _ (hX.takeRows split.train)
        (.some (hS.takeRows split.train))).bind fun _ => .sharing fun m hm => ?_
      have hreply := Node.reply_alike (n := ⟨p, c⟩) (hps p List.mem_cons_self) hm
        (hX.takeRows split.test)
      refine .logged (Node.labels_alike (n := ⟨p, c⟩) hm (hX.takeRows split.test) hreply)
        fun guess guess' hguess => ?_
      rw [hguess.sample, (hS.takeRows split.test).sample]
      refine .bind (.steady (.except _)) fun score => ?_
      exact hrest.bind fun scores => .steady (.pure _)

theorem output_shared (hp : p.RowBlind) (hX : X.Reindexed X') (w w' : Workspace)
    (hw : Memory.Shared w.memory w'.memory) :
    Work.Matched (fun a b m m' => a.Reindexed b ∧ Memory.Shared m m') Memory.Shared
      ((do transform (← Work.memory) p s X : Work Frame) w)
      ((do transform (← Work.memory) p s X' : Work Frame) w') := by
  rw [Work.run_memory_bind, Work.run_memory_bind, hw.1]
  exact Work.logged_matched (Node.reply_alike (n := ⟨p, s⟩) hp hw.2 hX) hw

theorem runFold_shared (ih : FitsAlike env p) (hp : p.RowBlind) {metric : Metric} {S S' : Series}
    {fold : Fold} (hX : X.Reindexed X') (hS : S.Reindexed S') :
    Work.Alongside Memory.Shared (Validator.runFold (Node.trainable env ⟨p, s⟩) metric X S fold)
      (Validator.runFold (Node.trainable env ⟨p, s⟩) metric X' S' fold) := by
  have hfailed : ∀ e stages, Work.Alongside Memory.Shared (Validator.failedFold fold e stages)
      (Validator.failedFold fold e stages) :=
    fun e stages => .steady ((Work.Steady.note _).bind fun _ => .pure _)
  intro w w' hw
  unfold Validator.runFold Node.trainable
  refine .attempt (E := fun _ _ => False) (Q := fun c c' m m' => c' = c ∧ Memory.Shared m m')
    ⟨?_, ?_, ?_⟩ (fun _ _ _ h => h.elim) fun c c' u u' hu => ?_
  · exact congrArg (fun m => (p.copy s m).1) hw.1
  · exact congrArg (fun m => (p.copy s m).2) hw.1
  · exact copy_keeps (fun m name hm => hm.alloc name) p s hw.2
  obtain ⟨rfl, hu⟩ := hu
  refine .attempt (ih c' _ _ _ _ (hX.takeRows fold.train) (.some (hS.takeRows fold.train)) u u' hu)
    (fun e v v' hv => hfailed e _ v v' hv) fun _ _ v v' hv => ?_
  refine .attempt (output_shared hp (hX.takeRows fold.test) v v' hv.2)
    (fun e u u' hu => hfailed e _ u u' hu) fun out out' u u' hu => ?_
  dsimp only
  rw [(hS.takeRows fold.test).score hu.1]
  cases Validator.scoreOf metric (S.takeRows fold.test) out with
  | error e => exact hfailed e _ u u' hu.2
  | ok score => exact .pure ⟨rfl, hu.2⟩

theorem runFolds_shared (ih : FitsAlike env p) (hp : p.RowBlind) {validator : Validator}
    {S S' : Series} {total : Nat} {folds : List Fold} {j : Journal} (hX : X.Reindexed X')
    (hS : S.Reindexed S') :
    Work.Alongside Memory.Shared
      (validator.runFolds (Node.trainable env ⟨p, s⟩) X S total folds j)
      (validator.runFolds (Node.trainable env ⟨p, s⟩) X' S' total folds j) := by
  induction folds generalizing j with
  | nil => exact .steady (.pure _)
  | cons fold folds ihs =>
    simp only [Validator.runFolds]
    exact (runFold_shared ih hp hX hS).bind fun _ => ihs.bind fun _ => .steady (.pure _)

theorem run_shared (ih : FitsAlike env p) (hp : p.RowBlind) {validator : Validator}
    {S S' : Series} {expression : Value} {j : Journal} (hX : X.Reindexed X')
    (hS : S.Reindexed S') :
    Work.Alongside Memory.Shared
      (validator.run (Node.trainable env ⟨p, s⟩) (.frame X) (.series S) expression j)
      (validator.run (Node.trainable env ⟨p, s⟩) (.frame X') (.series S') expression j) := by
  unfold Validator.run
  generalize hleft : (Data.toFrame (.frame X) >>= _ : Except Failure (Frame × Series)) = prepared
  generalize hright : (Data.toFrame (.frame X') >>= _ : Except Failure (Frame × Series)) = prepared'
  have hprepared : Except.Alike (fun a b => a.1.Reindexed b.1 ∧ a.2.Reindexed b.2)
      prepared prepared' := by
    rw [← hleft, ← hright]
    refine Except.Alike.bind (R := Frame.Reindexed) (.ok hX) fun F F' hF => ?_
    refine Except.Alike.bind (R := Target) ?_ fun y y' hy => ?_
    · exact ((hS.align hF).map fun _ _ => .some)
    · cases hy with
      | none =>
        rw [hF.rows]
        exact .error _
      | some hS => exact .ok ⟨hF, hS⟩
  cases hprepared with
  | error e => exact .steady (.pure _)
  | @ok prepared prepared' h =>
  obtain ⟨frame, target⟩ := prepared
  obtain ⟨frame', target'⟩ := prepared'
  obtain ⟨hframe, htarget⟩ := h
  dsimp only at hframe htarget ⊢
  rw [htarget.split hframe]
  cases validator.split frame target with
  | error e => exact .steady (.pure _)
  | ok folds =>
    have hchecked : Work.Alongside Memory.Shared
        (do let _ ← (Node.trainable env ⟨p, s⟩).text; validator.checkJobs : Work Unit)
        (do let _ ← (Node.trainable env ⟨p, s⟩).text; validator.checkJobs : Work Unit) :=
      .bind (.sharing fun m _ => .steady (.except _)) fun _ => .steady (.except _)
    refine hchecked.attempt.bind fun checked => ?_
    cases checked with
    | error e => exact .steady (.pure _)
    | ok _ => exact (runFolds_shared ih hp hframe htarget).bind fun _ => .steady (.pure _)

theorem foldScores_shared (ih : ∀ p ∈ ps, FitsAlike env p) (hps : ∀ p ∈ ps, p.RowBlind)
    {validator : Validator} {owner : Site} {S S' : Series} (hX : X.Reindexed X')
    (hS : S.Reindexed S') :
    Work.Alongside Memory.Shared (foldScores env validator owner ps ss X S)
      (foldScores env validator owner ps ss X' S') := by
  induction ps generalizing ss with
  | nil =>
    simp only [foldScores]
    exact .steady (.pure _)
  | cons p ps ihs =>
    cases ss with
    | nil =>
      simp only [foldScores]
      exact .steady (.pure _)
    | cons s ss =>
      simp only [foldScores]
      have hrest : ∀ score : Float, Work.Alongside Memory.Shared
          (do return score :: (← foldScores env validator owner ps ss X S))
          (do return score :: (← foldScores env validator owner ps ss X' S')) := fun score =>
        (ihs (fun q hq => ih q (List.mem_cons_of_mem _ hq))
          fun q hq => hps q (List.mem_cons_of_mem _ hq)).bind fun _ => .steady (.pure _)
      refine (run_shared (ih p List.mem_cons_self) (hps p List.mem_cons_self) hX hS).bind
        fun result => ?_
      rcases result with ⟨_, e | result⟩
      · cases e with
        | allFoldsFailed records =>
          exact .sharing fun m _ => .bind (.steady (.note _)) fun _ => hrest _
        | _ => exact .steady (.throw _)
      · exact hrest _

/-! Ensembles that learn something of their own. -/

theorem candidateScores_shared (ih : ∀ p ∈ ps, FitsAlike env p) (hps : ∀ p ∈ ps, p.RowBlind)
    {policy : SelectionPolicy} {metric : Metric} {defaults : Settings} {S S' : Series}
    (hX : X.Reindexed X') (hS : S.Reindexed S') :
    Work.Alongside Memory.Shared (candidateScores env policy metric defaults ps s X S)
      (candidateScores env policy metric defaults ps s X' S') := by
  unfold candidateScores SelectionPolicy.holdout
  split
  · simp only [hX.rows, hS.holdout]
    exact .bind (.steady (.except _)) fun split => holdoutScores_shared ih hps hX hS
  · exact .bind (.steady (steady_create env _)) fun validator => foldScores_shared ih hps hX hS
  · exact .steady (.throw _)

theorem fitChosen_shared (ih : ∀ p ∈ ps, FitsAlike env p) {metric : Metric} {scores : List Float}
    {S S' : Series} (hX : X.Reindexed X') (hS : S.Reindexed S') :
    Work.Alongside Memory.Shared (fitChosen env metric ps s X S scores)
      (fitChosen env metric ps s X' S' scores) := by
  unfold fitChosen
  refine .sharing fun m _ => ?_
  cases bestIndex metric scores with
  | none =>
    exact (Work.setLearned_shared s (l := .choice _ _) trivial).bind fun _ => .steady (.throw _)
  | some i =>
    exact (Work.setLearned_shared s (l := .choice _ _) trivial).bind fun _ => fitAt_shared ih hX hS

theorem stackedFeatures_shared (hps : ∀ p ∈ ps, p.RowBlind) {settings : StackSettings}
    (hX : X.Reindexed X') {f f' : Frame → Work Unit}
    (hf : ∀ Z Z', Z.Reindexed Z' → Work.Alongside Memory.Shared (f Z) (f' Z')) :
    Work.Alongside Memory.Shared (stackedFeatures ps settings s X >>= f)
      (stackedFeatures ps settings s X' >>= f') := by
  unfold stackedFeatures
  simp only [bind_assoc]
  refine .sharing fun m hm => ?_
  refine .logged (R := List.Forall₂ Series.Reindexed) ?_ fun Ss Ss' hSs => ?_
  · rw [labelsOfAll_outcome, labelsOfAll_outcome]
    refine .mapM fun q hq => ?_
    have hq := hps q.plan (Node.of_mem_zipParts hq).1
    exact Node.labels_alike hm hX (Node.reply_alike hq hm hX)
  · exact .except ((Memory.besides_reindexed hX hSs _).stacked hX) hf

/-- By induction over the plan. -/
theorem fitsAlike (env : Surroundings) (hp : p.RowBlind) : FitsAlike env p := by
  induction p using Plan.induction
  all_goals intro s X X' y y' hX hy
  case transformer t =>
    cases hp with
    | transformer ht =>
    obtain ⟨hcalculate, hblind⟩ := ht.rowBlind X X' hX
    simp only [fit]
    refine fitting_shared hX hy fun _ _ _ => ?_
    have hlearned : ∀ fitted, (t.calculate X).outcome = .ok fitted →
        (fitted.elim Learned.nothing .fitted).RowBlind :=
      fun fitted h => .elim fun f hf => hblind f (hf ▸ h)
    refine .logged ((Except.Alike.of_eq hcalculate.symm).and hlearned fun _ _ => trivial)
      fun fitted _ h => ?_
    obtain ⟨rfl, h, -⟩ := h
    exact Work.setLearned_shared s h
  case learner l =>
    cases hp with
    | learner hl =>
    simp only [fit]
    refine fitting_shared hX hy fun y y' hy => ?_
    cases hy with
    | none =>
      rw [hX.rows]
      exact (labelOf_shared s).bind fun _ => .steady (.throw _)
    | @some S S' hS =>
      obtain ⟨hcalculate, hblind⟩ := hl X X' S S' hX hS
      have hlearned : ∀ model, (l.calculate X S).outcome = .ok model →
          (model.elim Learned.nothing .model).RowBlind :=
        fun model h => .elim fun f hf => hblind f (hf ▸ h)
      refine .logged ((Except.Alike.of_eq hcalculate.symm).and hlearned fun _ _ => trivial)
        fun model _ h => ?_
      obtain ⟨rfl, h, -⟩ := h
      exact Work.setLearned_shared s h
  case element e => cases hp
  case sequential ps ih =>
    cases hp with
    | sequential hps =>
    simp only [fit]
    exact fitting_shared hX hy fun y y' hy =>
      fitChain_shared (fun p hp => ih p hp (hps p hp)) hps hX hy
  case parallel ps ih =>
    cases hp with
    | parallel hps =>
    simp only [fit]
    exact fitting_shared hX hy fun y y' hy => fitAll_shared (fun p hp => ih p hp (hps p hp)) hX hy
  case vote ps ih =>
    cases hp with
    | vote hps =>
    simp only [fit]
    exact fitting_shared hX hy fun y y' hy => fitAll_shared (fun p hp => ih p hp (hps p hp)) hX hy
  case stack t ps settings iht ih =>
    cases hp with
    | stack ht hps =>
    simp only [fit]
    refine fitting_shared hX hy fun y y' hy => requireTarget_shared hy _ fun S S' hS => ?_
    refine .bind (.steady (.settings env)) fun defaults => ?_
    rw [hX.rows, hS.holdout]
    refine .bind (.steady (.except _)) fun split => ?_
    rw [hS.codes]
    refine .bind (.steady (.except _)) fun codes => ?_
    refine (Work.setLearned_shared s (l := .codes codes) trivial).bind fun _ => ?_
    refine (fitAll_shared (fun p hp => ih p hp (hps p hp)) (hX.takeRows split.train)
      (.some (hS.takeRows split.train))).bind fun _ => ?_
    refine stackedFeatures_shared hps (hX.takeRows split.test) fun Z Z' hZ => ?_
    exact iht ht s.first Z Z' _ _ hZ (.some (hS.takeRows split.test))
  case best ps policy ih =>
    cases hp with
    | best hps =>
    rw [fit_best, fit_best]
    refine fitting_shared hX hy fun y y' hy => requireTarget_shared hy _ fun S S' hS => ?_
    refine .bind (.steady (.settings env)) fun defaults => ?_
    refine .bind (.steady (.except _)) fun metric => ?_
    have ih : ∀ p ∈ ps, FitsAlike env p := fun p hp => ih p hp (hps p hp)
    exact (candidateScores_shared ih hps hX hS).bind fun scores => fitChosen_shared ih hX hS
  case bagging t settings ih =>
    cases hp with
    | bagging ht =>
    rw [fit_bagging, fit_bagging]
    refine fitting_shared hX hy fun y y' hy => requireTarget_shared hy _ fun S S' hS => ?_
    refine .bind (.steady (steady_seedValue env settings)) fun asked => ?_
    have hsource : sampleSource X' asked = sampleSource X asked := by
      unfold sampleSource
      rw [hX.rows]
    rw [hsource, hX.rows]
    refine .bind (.steady (.except _)) fun source => ?_
    exact (fitMembers_shared (ih ht) hX hS).bind fun _ => .steady (.pure _)

end Plan
end ColumnFlow
