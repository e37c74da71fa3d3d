import ColumnFlow.Proofs.Node.Refit
import ColumnFlow.Proofs.Node.Namesakes

/-!
# Fitting is local

A fit reads and changes the slots of its own tree and nothing else, and it does not matter which
identities these are. So a tree can be fitted in two memories side by side, under two sets of
identities, whenever both memories hold the same for it. Both fits end in the same way and leave the
same slots. Nothing is asked of the shape of the tree or of its names, and positions may share an
identity.
-/
namespace ColumnFlow

namespace Memory

/-- Two memories that hold the same for some identities, which are in use and stay apart. -/
structure Mirrors (f : Nat → Nat) (S : List Nat) (m m' : Memory) : Prop where
  renamed : m.Renamed f S m'
  apart : ∀ i ∈ S, ∀ j ∈ S, f i = f j → i = j
  taken : ∀ i ∈ S, i < m.next
  taken' : ∀ i ∈ S, f i < m'.next

/-- What a change leaves alone is the same before and after. -/
theorem Extends.mirrors {S T : List Nat} {m m' : Memory} (h : Extends S m m')
    (hT : ∀ i ∈ T, i < m.next) (hS : ∀ i ∈ T, i ∉ S) : Mirrors id T m m' where
  renamed i hi := (h.slot_eq i (hT i hi) (hS i hi)).symm
  apart _ _ _ _ h := h
  taken := hT
  taken' i hi := Nat.lt_of_lt_of_le (hT i hi) h.next_le

/-- The same of two memories that came of two others, by changes to these identities alone. -/
structure Tracks (f : Nat → Nat) (S : List Nat) (m₀ m₀' m m' : Memory) : Prop where
  mirrors : Mirrors f S m m'
  kept : Kept S (S.map f) m₀ m₀' m m'

variable {f g : Nat → Nat} {S T T' ids : List Nat} {m₀ m₀' m m' n n' : Memory}

theorem Mirrors.tracks (h : Mirrors f S m m') : Tracks f S m m' m m' := ⟨h, .refl _ _ _ _⟩

/-- Changes outside of what is mirrored do not matter. -/
theorem Mirrors.keep (h : Mirrors f S m m') (hk : Kept T T' m m' n n') (hT : ∀ i ∈ S, i ∉ T)
    (hT' : ∀ i ∈ S, f i ∉ T') : Mirrors f S n n' where
  renamed i hi := by
    rw [hk.1.slot_eq i (h.taken i hi) (hT i hi), hk.2.slot_eq (f i) (h.taken' i hi) (hT' i hi)]
    exact h.renamed i hi
  apart := h.apart
  taken i hi := Nat.lt_of_lt_of_le (h.taken i hi) hk.1.next_le
  taken' i hi := Nat.lt_of_lt_of_le (h.taken' i hi) hk.2.next_le

namespace Tracks

theorem renamed (h : Tracks f S m₀ m₀' m m') (hids : ids ⊆ S) : m.Renamed f ids m' :=
  h.mirrors.renamed.mono hids

theorem update (h : Tracks f S m₀ m₀' m m') {id : Nat} (hid : id ∈ S) {change : Slot → Slot}
    (hname : ∀ s, (change s).name = s.name) :
    Tracks f S m₀ m₀' (m.update id change) (m'.update (f id) change) := by
  refine ⟨⟨fun i hi => ?_, h.mirrors.apart, ?_, ?_⟩,
    h.kept.self ⟨.update hid hname m, .update (List.mem_map_of_mem hid) hname m'⟩⟩
  · have hold := h.mirrors.renamed i hi
    by_cases heq : i = id
    · rw [heq] at hold ⊢
      rw [slot_update_self (h.mirrors.taken id hid), slot_update_self (h.mirrors.taken' id hid),
        hold]
    · have hne : f i ≠ f id := fun hf => heq (h.mirrors.apart i hi id hid hf)
      rw [slot_update_of_ne heq, slot_update_of_ne hne, hold]
  · simpa only [next_update] using h.mirrors.taken
  · simpa only [next_update] using h.mirrors.taken'

/-- What happens to identities that are new does not show. -/
theorem keep (h : Tracks f S m₀ m₀' m m') (hk : Kept T T' m m' n n') (hT : ∀ i ∈ T, m.next ≤ i)
    (hT' : ∀ i ∈ T', m'.next ≤ i) : Tracks f S m₀ m₀' n n' := by
  refine ⟨h.mirrors.keep hk (fun i hi hin => ?_) fun i hi hin => ?_,
    h.kept.trans hk (fun i hi => .inr ?_) fun i hi => .inr ?_⟩
  · exact Nat.not_lt.2 (hT i hin) (h.mirrors.taken i hi)
  · exact Nat.not_lt.2 (hT' _ hin) (h.mirrors.taken' i hi)
  · exact Nat.le_trans h.kept.1.next_le (hT i hi)
  · exact Nat.le_trans h.kept.2.next_le (hT' i hi)

end Tracks

/-- Two memories in which copies are being tried out, since `P` held. -/
def Tried (P : Memory → Memory → Prop) (g : Nat → Nat) (ids : List Nat) (m m' : Memory) : Prop :=
  ∃ m₁ m₁', P m₁ m₁' ∧ Tracks g ids m₁ m₁' m m' ∧ ∀ i ∈ ids, m₁.next ≤ i ∧ m₁'.next ≤ g i

theorem Tried.renamed {P : Memory → Memory → Prop} (h : Tried P g ids m m') :
    m.Renamed g ids m' := by
  obtain ⟨_, _, _, hcopies, _⟩ := h
  exact hcopies.mirrors.renamed

/-- Copies that were tried out leave no trace. -/
theorem Tried.over (h : Tried (Tracks f S m₀ m₀') g ids m m') : Tracks f S m₀ m₀' m m' := by
  obtain ⟨m₁, m₁', hbefore, hcopies, hnew⟩ := h
  refine hbefore.keep hcopies.kept (fun i hi => (hnew i hi).1) fun i hi => ?_
  obtain ⟨j, hj, rfl⟩ := List.mem_map.1 hi
  exact (hnew j hj).2

/-- What was copied side by side is the same on both sides. -/
theorem Copied.mirrors {c c' : Site} {v v' : Memory}
    (h : Copied m.next m'.next m m' [c] [c'] v v') :
    Mirrors (shift m.next m'.next) c.ids v v' := by
  have hids : Site.idsOf [c] = c.ids := by
    simp only [Site.idsOf, List.append_nil]
  have hagain := h.copying (Nat.le_refl _)
  have hnew := h.new
  rw [hids] at hagain hnew
  refine ⟨hagain.renamed, fun i hi j hj hij => ?_, hagain.taken, hagain.taken'⟩
  have hi := hnew i hi
  have hj := hnew j hj
  unfold shift at hij
  omega

theorem Copied.shift_new {c c' : Site} {v v' : Memory}
    (h : Copied m.next m'.next m m' [c] [c'] v v') {i : Nat} (hi : i ∈ c.ids) :
    m.next ≤ i ∧ m'.next ≤ shift m.next m'.next i := by
  have hnew := h.new i (Site.mem_idsOf.2 ⟨c, List.mem_cons_self, hi⟩)
  refine ⟨hnew, ?_⟩
  unfold shift
  omega

theorem Tracks.copied (h : Tracks f S m₀ m₀' m m') (p : Plan) {s : Site} (hs : s.ids ⊆ S) :
    ∃ g, (p.copy (s.rename f) m').1 = (p.copy s m).1.rename g ∧
      Tried (Tracks f S m₀ m₀') g (p.copy s m).1.ids (p.copy s m).2
        (p.copy (s.rename f) m').2 := by
  have hcopying : Copying f s.ids m.next m'.next m m' :=
    ⟨h.renamed hs, fun i hi => h.mirrors.taken i (hs hi), fun i hi => h.mirrors.taken' i (hs hi),
      .start m m'⟩
  have hcopied := Plan.copy_rename m.next m'.next p f s m m' hcopying
  refine ⟨shift m.next m'.next, List.singleton_inj.1 hcopied.sites, m, m', h,
    ⟨hcopied.mirrors, ?_⟩, fun i hi => hcopied.shift_new hi⟩
  exact ⟨hcopied.extend.mono (by simp), hcopied.extend'.mono (by simp)⟩

end Memory

namespace Work

variable {α β : Type} {P : Memory → Memory → Prop}

/-- Two computations with one outcome that keep what holds of their memories. -/
def Alongside (P : Memory → Memory → Prop) (x x' : Work α) : Prop :=
  ∀ w w', P w.memory w'.memory → Matched (fun a b m m' => a = b ∧ P m m') P (x w) (x' w')

namespace Alongside

theorem steady {x : Work α} (hx : Steady x) : Alongside P x x := fun _ _ h => hx.ends h

theorem bind {x x' : Work α} {f f' : α → Work β} (hx : Alongside P x x')
    (hf : ∀ a, Alongside P (f a) (f' a)) : Alongside P (x >>= f) (x' >>= f') := by
  intro w w' h
  refine .bind (hx w w' h) (fun _ _ h => h) fun a b v v' hv => ?_
  obtain ⟨rfl, hv⟩ := hv
  exact hf a v v' hv

/-- Two computations that first look at the memory. -/
theorem reading {f f' : Memory → Work α}
    (hf : ∀ m m', P m m' → Alongside P (f m) (f' m')) :
    Alongside P (memory >>= f) (memory >>= f') := by
  intro w w' h
  rw [run_memory_bind, run_memory_bind]
  exact hf _ _ h w w' h

theorem attempt {x x' : Work α} (hx : Alongside P x x') :
    Alongside P (Work.attempt x) (Work.attempt x') := by
  intro w w' h
  have hrun := hx w w' h
  unfold Work.attempt
  rcases hx : x w with ⟨_ | _, v⟩ <;> rcases hx' : x' w' with ⟨_ | _, v'⟩ <;>
    rw [hx, hx'] at hrun <;> simp only [Matched] at hrun ⊢
  · exact ⟨by rw [hrun.1], hrun.2⟩
  · exact ⟨by rw [hrun.1], hrun.2⟩

/-- A computation beside itself changes nothing but what it may. -/
theorem extend {x : Work α} {S : List Nat} {w : Workspace}
    (hx : Alongside (Memory.Tracks id S w.memory w.memory) x x)
    (hS : ∀ i ∈ S, i < w.memory.next) : Memory.Extends S w.memory (x w).2.memory := by
  have hmirrors : Memory.Mirrors id S w.memory w.memory :=
    ⟨fun _ _ => rfl, fun _ _ _ _ h => h, hS, hS⟩
  have hrun := hx w w hmirrors.tracks
  rcases hxw : x w with ⟨_ | _, v⟩ <;> rw [hxw] at hrun
  · exact hrun.2.kept.1
  · exact hrun.2.kept.1

end Alongside
end Work

namespace Plan

variable {f : Nat → Nat} {S : List Nat} {m₀ m₀' : Memory} {p t : Plan} {ps : List Plan} {s : Site}
  {ss : List Site} {env : Surroundings} {X : Frame} {y : Option Series}

/-- Trees of one plan under two sets of identities are fitted side by side. -/
def Follows (env : Surroundings) (p : Plan) : Prop :=
  ∀ f S m₀ m₀' s X y, s.ids ⊆ S →
    Work.Alongside (Memory.Tracks f S m₀ m₀') (fit env p s X y) (fit env p (s.rename f) X y)

/-! What a node does by itself. -/

theorem setInput_follows (hs : s.ids ⊆ S) (columns : Option (List Label)) :
    Work.Alongside (Memory.Tracks f S m₀ m₀') (Work.setInput s columns)
      (Work.setInput (s.rename f) columns) := by
  intro w w' h
  rw [Work.run_setInput, Work.run_setInput]
  refine ⟨rfl, ?_⟩
  unfold Memory.withInput
  rw [Site.id_rename]
  exact h.update (hs s.id_mem_ids) fun _ => rfl

theorem setLearned_follows (hs : s.ids ⊆ S) (l : Learned) :
    Work.Alongside (Memory.Tracks f S m₀ m₀') (Work.setLearned s l)
      (Work.setLearned (s.rename f) l) := by
  intro w w' h
  rw [Work.run_setLearned, Work.run_setLearned]
  refine ⟨rfl, ?_⟩
  unfold Memory.withLearned
  rw [Site.id_rename]
  exact h.update (hs s.id_mem_ids) fun _ => rfl

theorem labelOf_follows (hs : s.ids ⊆ S) :
    Work.Alongside (Memory.Tracks f S m₀ m₀') (Work.labelOf s) (Work.labelOf (s.rename f)) := by
  unfold Work.labelOf
  refine .reading fun m m' h => ?_
  rw [(h.renamed hs).head.1]
  exact .steady (.pure _)

theorem requireTarget_follows (hs : s.ids ⊆ S) (ensemble : String) :
    Work.Alongside (Memory.Tracks f S m₀ m₀') (Work.requireTarget ensemble s y)
      (Work.requireTarget ensemble (s.rename f) y) := by
  unfold Work.requireTarget
  cases y with
  | none => exact (labelOf_follows hs).bind fun _ => .steady (.throw _)
  | some y => exact .steady (.pure y)

theorem fitting_follows (hs : s.ids ⊆ S) {body body' : Option Series → Work Unit}
    (hbody : ∀ y, Work.Alongside (Memory.Tracks f S m₀ m₀') (body y) (body' y)) :
    Work.Alongside (Memory.Tracks f S m₀ m₀') (Work.fitting s X y body)
      (Work.fitting (s.rename f) X y body') := by
  unfold Work.fitting
  refine .bind (.steady (.except _)) fun y => ?_
  refine (setInput_follows hs none).bind fun _ => ?_
  exact (hbody y).bind fun _ => setInput_follows hs _

/-! Parts that are fitted one after another. -/

section Parts

variable (ih : ∀ p ∈ ps, Follows env p)
include ih

theorem fitAll_follows (hss : Site.idsOf ss ⊆ S) :
    Work.Alongside (Memory.Tracks f S m₀ m₀') (fitAll env ps ss X y)
      (fitAll env ps (ss.map (Site.rename f)) X y) := by
  induction ps generalizing ss with
  | nil =>
    simp only [fitAll]
    exact .steady (.pure _)
  | cons p ps ihs =>
    cases ss with
    | nil =>
      simp only [fitAll, List.map_nil]
      exact .steady (.pure _)
    | cons s ss =>
      rw [Site.idsOf, List.append_subset] at hss
      simp only [fitAll, List.map_cons]
      refine (ih p (by simp) f S m₀ m₀' s X y hss.1).bind fun _ => ?_
      exact ihs (fun q hq => ih q (by simp [hq])) hss.2

theorem fitAt_follows {i : Nat} {y : Series} (hss : Site.idsOf ss ⊆ S) :
    Work.Alongside (Memory.Tracks f S m₀ m₀') (fitAt env ps ss i X y)
      (fitAt env ps (ss.map (Site.rename f)) i X y) := by
  induction ps generalizing ss i with
  | nil =>
    simp only [fitAt]
    exact .steady (.pure _)
  | cons p ps ihs =>
    cases ss with
    | nil =>
      simp only [fitAt, List.map_nil]
      exact .steady (.pure _)
    | cons s ss =>
      rw [Site.idsOf, List.append_subset] at hss
      cases i with
      | zero =>
        simp only [fitAt, List.map_cons]
        exact ih p (by simp) f S m₀ m₀' s X y hss.1
      | succ i =>
        simp only [fitAt, List.map_cons]
        exact ihs (fun q hq => ih q (by simp [hq])) hss.2

theorem fitChain_follows (hss : Site.idsOf ss ⊆ S) :
    Work.Alongside (Memory.Tracks f S m₀ m₀') (fitChain env ps ss X y)
      (fitChain env ps (ss.map (Site.rename f)) X y) := by
  induction ps generalizing ss X with
  | nil =>
    simp only [fitChain]
    exact .steady (.pure _)
  | cons p ps ihs =>
    cases ss with
    | nil =>
      cases ps <;> simp only [fitChain, List.map_nil] <;> exact .steady (.pure _)
    | cons s ss =>
      rw [Site.idsOf, List.append_subset] at hss
      have hfirst := ih p (by simp) f S m₀ m₀' s X y hss.1
      cases ps with
      | nil =>
        simp only [fitChain, List.map_cons]
        exact hfirst
      | cons q ps =>
        simp only [fitChain, List.map_cons]
        refine hfirst.bind fun _ => .reading fun m m' h => ?_
        rw [transform_rename (h.renamed hss.1)]
        refine .bind (.steady (.logged _)) fun Z => ?_
        exact ihs (fun r hr => ih r (by simp [hr])) hss.2

end Parts

/-! Candidates that are tried out on copies. -/

/-- A copy is fitted like any other tree, whatever else is going on. -/
theorem fit_tried (ih : Follows env p) {P : Memory → Memory → Prop} {g : Nat → Nat} {c : Site} :
    Work.Alongside (Memory.Tried P g c.ids) (fit env p c X y) (fit env p (c.rename g) X y) := by
  intro w w' h
  obtain ⟨m₁, m₁', hbefore, hcopies, hnew⟩ := h
  refine (ih g c.ids m₁ m₁' c X y (List.Subset.refl _) w w' hcopies).mono ?_ ?_
  · intro _ _ m m' h
    exact ⟨h.1, m₁, m₁', hbefore, h.2, hnew⟩
  · intro m m' h
    exact ⟨m₁, m₁', hbefore, h, hnew⟩

theorem holdoutScores_follows (ih : ∀ p ∈ ps, Follows env p) {metric : Metric} {y : Series}
    {split : Holdout} (hss : Site.idsOf ss ⊆ S) :
    Work.Alongside (Memory.Tracks f S m₀ m₀') (holdoutScores env metric ps ss X y split)
      (holdoutScores env metric ps (ss.map (Site.rename f)) X y split) := by
  induction ps generalizing ss with
  | nil =>
    simp only [holdoutScores]
    exact .steady (.pure _)
  | cons p ps ihs =>
    cases ss with
    | nil =>
      simp only [holdoutScores, List.map_nil]
      exact .steady (.pure _)
    | cons s ss =>
      rw [Site.idsOf, List.append_subset] at hss
      intro w w' h
      simp only [holdoutScores, List.map_cons, Work.run_placing_bind]
      obtain ⟨g, hsite, htried⟩ := h.copied p hss.1
      rw [hsite]
      refine .bind (fit_tried (ih p (by simp)) _ _ htried) (fun _ _ h => h.over)
        fun _ _ v v' hv => ?_
      have hrest := ihs (fun q hq => ih q (by simp [hq])) hss.2
      rw [Work.run_memory_bind, Work.run_memory_bind, labels_rename hv.2.renamed]
      refine (Work.Alongside.bind (.steady (.logged _)) fun guess => ?_) v v' hv.2.over
      refine .bind (.steady (.except _)) fun score => ?_
      exact hrest.bind fun scores => .steady (.pure _)

theorem runFold_follows (ih : Follows env p) {metric : Metric} {y : Series} {fold : Fold}
    (hs : s.ids ⊆ S) :
    Work.Alongside (Memory.Tracks f S m₀ m₀')
      (Validator.runFold (Node.trainable env ⟨p, s⟩) metric X y fold)
      (Validator.runFold (Node.trainable env ⟨p, s.rename f⟩) metric X y fold) := by
  have hfailed : ∀ e stages, Work.Alongside (Memory.Tracks f S m₀ m₀')
      (Validator.failedFold fold e stages) (Validator.failedFold fold e stages) :=
    fun e stages => .steady ((Work.Steady.note _).bind fun _ => .pure _)
  intro w w' h
  obtain ⟨g, hsite, htried⟩ := h.copied p hs
  unfold Validator.runFold Node.trainable
  refine .attempt (E := fun _ _ => False)
    (Q := fun c c' m m' => c' = c.rename g ∧ Memory.Tried (Memory.Tracks f S m₀ m₀') g c.ids m m')
    ⟨hsite, htried⟩ (fun _ _ _ h => h.elim) fun c c' u u' hu => ?_
  obtain ⟨rfl, hu⟩ := hu
  refine .attempt (fit_tried ih u u' hu) (fun e v v' hv => hfailed e _ v v' hv.over)
    fun _ _ v v' hv => ?_
  have hanswer : Work.Alongside (Memory.Tried (Memory.Tracks f S m₀ m₀') g c.ids)
      (do transform (← Work.memory) p c (X.takeRows fold.test))
      (do transform (← Work.memory) p (c.rename g) (X.takeRows fold.test)) := by
    refine .reading fun m m' h => ?_
    rw [transform_rename h.renamed]
    exact .steady (.logged _)
  refine .attempt (hanswer v v' hv.2) (fun e u u' hu => hfailed e _ u u' hu.over)
    fun out out' u u' hu => ?_
  obtain ⟨rfl, hu⟩ := hu
  dsimp only
  cases Validator.scoreOf metric (y.takeRows fold.test) out with
  | error e => exact hfailed e _ u u' hu.over
  | ok score => exact .pure ⟨rfl, hu.over⟩

theorem runFolds_follows (ih : Follows env p) {validator : Validator} {y : Series} {total : Nat}
    {folds : List Fold} {j : Journal} (hs : s.ids ⊆ S) :
    Work.Alongside (Memory.Tracks f S m₀ m₀')
      (validator.runFolds (Node.trainable env ⟨p, s⟩) X y total folds j)
      (validator.runFolds (Node.trainable env ⟨p, s.rename f⟩) X y total folds j) := by
  induction folds generalizing j with
  | nil => exact .steady (.pure _)
  | cons fold folds ihs =>
    simp only [Validator.runFolds]
    exact (runFold_follows ih hs).bind fun _ => ihs.bind fun _ => .steady (.pure _)

theorem run_follows (ih : Follows env p) {validator : Validator} {X y : Data} {expression : Value}
    {j : Journal} (hs : s.ids ⊆ S) :
    Work.Alongside (Memory.Tracks f S m₀ m₀')
      (validator.run (Node.trainable env ⟨p, s⟩) X y expression j)
      (validator.run (Node.trainable env ⟨p, s.rename f⟩) X y expression j) := by
  unfold Validator.run
  generalize (X.toFrame >>= _ : Except Failure (Frame × Series)) = prepared
  rcases prepared with e | ⟨frame, target⟩
  · exact .steady (.pure _)
  · dsimp only
    rcases validator.split frame target with e | folds
    · exact .steady (.pure _)
    · dsimp only
      have htext : Work.Alongside (Memory.Tracks f S m₀ m₀')
          (do let _ ← (Node.trainable env ⟨p, s⟩).text; validator.checkJobs : Work Unit)
          (do let _ ← (Node.trainable env ⟨p, s.rename f⟩).text; validator.checkJobs :
            Work Unit) := by
        refine .bind (.reading fun m m' h => ?_) fun _ => .steady (.except _)
        unfold Node.text
        rw [text_rename (h.renamed hs)]
        exact .steady (.except _)
      refine htext.attempt.bind fun checked => ?_
      cases checked with
      | error e => exact .steady (.pure _)
      | ok _ => exact (runFolds_follows ih hs).bind fun _ => .steady (.pure _)

theorem foldScores_follows (ih : ∀ p ∈ ps, Follows env p) {validator : Validator} {owner : Site}
    {y : Series} (howner : owner.ids ⊆ S) (hss : Site.idsOf ss ⊆ S) :
    Work.Alongside (Memory.Tracks f S m₀ m₀') (foldScores env validator owner ps ss X y)
      (foldScores env validator (owner.rename f) ps (ss.map (Site.rename f)) X y) := by
  induction ps generalizing ss with
  | nil =>
    simp only [foldScores]
    exact .steady (.pure _)
  | cons p ps ihs =>
    cases ss with
    | nil =>
      simp only [foldScores, List.map_nil]
      exact .steady (.pure _)
    | cons s ss =>
      rw [Site.idsOf, List.append_subset] at hss
      simp only [foldScores, List.map_cons]
      have hrest : ∀ score : Float, Work.Alongside (Memory.Tracks f S m₀ m₀')
          (do return score :: (← foldScores env validator owner ps ss X y))
          (do return score :: (← foldScores env validator (owner.rename f) ps
            (ss.map (Site.rename f)) X y)) := fun score =>
        (ihs (fun q hq => ih q (by simp [hq])) hss.2).bind fun _ => .steady (.pure _)
      refine (run_follows (ih p (by simp)) hss.1).bind fun result => ?_
      rcases result with ⟨_, e | result⟩
      · cases e with
        | allFoldsFailed records =>
          dsimp only
          refine .reading fun m m' h => ?_
          rw [(h.renamed howner).head.name_eq, (h.renamed hss.1).head.name_eq]
          exact .bind (.steady (.note _)) fun _ => hrest _
        | _ => exact .steady (.throw _)
      · exact hrest _

/-! Ensembles that learn something of their own. -/

theorem stackedFeatures_follows {settings : StackSettings} (hs : s.ids ⊆ S) :
    Work.Alongside (Memory.Tracks f S m₀ m₀') (stackedFeatures ps settings s X)
      (stackedFeatures ps settings (s.rename f) X) := by
  unfold stackedFeatures
  refine .reading fun m m' h => ?_
  have hslots := h.renamed hs
  rw [Site.rest_rename, ← labelsOfAll_rename (fun p _ => unnamed f m m' p) hslots.rest,
    ← hslots.rest.labelsOf_eq, ← Stacking.stored_eq (congrArg Slot.learned hslots.slot_eq)]
  exact .steady ((Work.Steady.logged _).bind fun _ => .except _)

theorem candidateScores_follows (ih : ∀ p ∈ ps, Follows env p) {policy : SelectionPolicy}
    {metric : Metric} {defaults : Settings} {y : Series} (hs : s.ids ⊆ S) :
    Work.Alongside (Memory.Tracks f S m₀ m₀')
      (candidateScores env policy metric defaults ps s X y)
      (candidateScores env policy metric defaults ps (s.rename f) X y) := by
  have hparts : Site.idsOf s.parts ⊆ S := fun _ hid => hs (Site.mem_ids_of_mem_idsOf_parts hid)
  unfold candidateScores
  rw [Site.parts_rename]
  split
  · exact .bind (.steady (.except _)) fun split => holdoutScores_follows ih hparts
  · exact .bind (.steady (steady_create env _)) fun validator => foldScores_follows ih hs hparts
  · exact .steady (.throw _)

theorem fitChosen_follows (ih : ∀ p ∈ ps, Follows env p) {metric : Metric} {scores : List Float}
    {y : Series} (hs : s.ids ⊆ S) :
    Work.Alongside (Memory.Tracks f S m₀ m₀') (fitChosen env metric ps s X y scores)
      (fitChosen env metric ps (s.rename f) X y scores) := by
  unfold fitChosen
  refine .reading fun m m' h => ?_
  have hslots := h.renamed hs
  rw [Site.parts_rename, ← hslots.parts.labelsOf_eq, ← hslots.head.1,
    ← Memory.winner_eq hslots.slot_eq]
  cases bestIndex metric scores with
  | none => exact (setLearned_follows hs _).bind fun _ => .steady (.throw _)
  | some i =>
    refine (setLearned_follows hs _).bind fun _ => fitAt_follows ih fun _ hid => ?_
    exact hs (Site.mem_ids_of_mem_idsOf_parts hid)

theorem fitMembers_follows (ih : Follows env t) {y : Series} {size : Nat} {source : Draw.Twister}
    (hss : Site.idsOf ss ⊆ S) :
    Work.Alongside (Memory.Tracks f S m₀ m₀')
      (ss.foldlM (fun source member => do
        let (rows, source) := Draw.Twister.sample X.rows size source
        fit env t member (X.takeRows rows) (some (y.takeRows rows))
        return source) source : Work Draw.Twister)
      ((ss.map (Site.rename f)).foldlM (fun source member => do
        let (rows, source) := Draw.Twister.sample X.rows size source
        fit env t member (X.takeRows rows) (some (y.takeRows rows))
        return source) source : Work Draw.Twister) := by
  induction ss generalizing source with
  | nil => exact .steady (.pure _)
  | cons s ss ihs =>
    rw [Site.idsOf, List.append_subset] at hss
    simp only [List.foldlM_cons, List.map_cons]
    rcases Draw.Twister.sample X.rows size source with ⟨rows, source⟩
    refine .bind ((ih f S m₀ m₀' s _ _ hss.1).bind fun _ => .steady (.pure _)) fun _ => ?_
    exact ihs hss.2

theorem steady_seedValue (env : Surroundings) (settings : BaggingSettings) :
    Work.Steady (seedValue env settings) := by
  unfold seedValue
  split
  · exact .bind (.settings env) fun _ => .pure _
  · exact .pure _

theorem follows (env : Surroundings) (p : Plan) : Follows env p := by
  induction p using Plan.induction
  all_goals
    intro f S m₀ m₀' s X y hs
    have hparts : Site.idsOf s.parts ⊆ S := fun _ hid => hs (Site.mem_ids_of_mem_idsOf_parts hid)
    have hfirst : s.first.ids ⊆ S := fun _ hid => hs (Site.mem_ids_of_mem_first hid)
    have hrest : Site.idsOf s.rest ⊆ S := fun _ hid => hs (Site.mem_ids_of_mem_idsOf_rest hid)
  case transformer t =>
    simp only [fit]
    refine fitting_follows hs fun _ => .bind (.steady (.logged _)) fun fitted => ?_
    exact setLearned_follows hs _
  case learner l =>
    simp only [fit]
    refine fitting_follows hs fun y => ?_
    cases y with
    | none => exact (labelOf_follows hs).bind fun _ => .steady (.throw _)
    | some y => exact .bind (.steady (.logged _)) fun model => setLearned_follows hs _
  case element e =>
    simp only [fit]
    exact fitting_follows hs fun _ => (labelOf_follows hs).bind fun name => .steady (.logged _)
  case sequential ps ih =>
    simp only [fit, Site.parts_rename]
    exact fitting_follows hs fun y => fitChain_follows ih hparts
  case parallel ps ih | vote ps ih =>
    simp only [fit, Site.parts_rename]
    exact fitting_follows hs fun y => fitAll_follows ih hparts
  case stack t ps settings iht ih =>
    simp only [fit, Site.first_rename, Site.rest_rename]
    refine fitting_follows hs fun y => (requireTarget_follows hs _).bind fun y => ?_
    refine .bind (.steady (.settings env)) fun defaults => ?_
    refine .bind (.steady (.except _)) fun split => ?_
    refine .bind (.steady (.except _)) fun codes => ?_
    refine (setLearned_follows hs _).bind fun _ => ?_
    refine (fitAll_follows ih hrest).bind fun _ => ?_
    refine (stackedFeatures_follows hs).bind fun stacked => ?_
    exact iht f S m₀ m₀' s.first stacked _ hfirst
  case best ps policy ih =>
    rw [fit_best, fit_best]
    refine fitting_follows hs fun y => (requireTarget_follows hs _).bind fun y => ?_
    refine .bind (.steady (.settings env)) fun defaults => ?_
    refine .bind (.steady (.except _)) fun metric => ?_
    exact (candidateScores_follows ih hs).bind fun scores => fitChosen_follows ih hs
  case bagging t settings ih =>
    rw [fit_bagging, fit_bagging, Site.rest_rename]
    refine fitting_follows hs fun y => (requireTarget_follows hs _).bind fun y => ?_
    refine .bind (.steady (steady_seedValue env settings)) fun asked => ?_
    refine .bind (.steady (.except _)) fun source => ?_
    exact (fitMembers_follows ih hrest).bind fun _ => .steady (.pure _)

/-! One tree in two memories that hold the same for it. -/

section Same

variable (env : Surroundings) (p : Plan) (ps : List Plan) (X : Frame) (y : Option Series)

theorem fit_follows (hs : s.ids ⊆ S) :
    Work.Alongside (Memory.Tracks id S m₀ m₀') (fit env p s X y) (fit env p s X y) := by
  have h := follows env p id S m₀ m₀' s X y hs
  rwa [Site.rename_eq_self (f := id) fun _ => rfl] at h

theorem fit_extends {w : Workspace} (hs : ∀ i ∈ s.ids, i < w.memory.next) :
    Memory.Extends s.ids w.memory (fit env p s X y w).2.memory :=
  Work.Alongside.extend (fit_follows env p X y (List.Subset.refl _)) hs

theorem fitChain_extends {w : Workspace} (hss : ∀ i ∈ Site.idsOf ss, i < w.memory.next) :
    Memory.Extends (Site.idsOf ss) w.memory (fitChain env ps ss X y w).2.memory := by
  refine Work.Alongside.extend ?_ hss
  have h : Work.Alongside (Memory.Tracks id (Site.idsOf ss) w.memory w.memory)
      (fitChain env ps ss X y) (fitChain env ps (ss.map (Site.rename id)) X y) :=
    fitChain_follows (fun p _ => follows env p) (List.Subset.refl _)
  rwa [Site.map_rename_eq_self (f := id) fun _ => rfl] at h

theorem fitAll_alongside (hss : Site.idsOf ss ⊆ S) :
    Work.Alongside (Memory.Tracks id S m₀ m₀') (fitAll env ps ss X y) (fitAll env ps ss X y) := by
  have h : Work.Alongside (Memory.Tracks id S m₀ m₀') (fitAll env ps ss X y)
      (fitAll env ps (ss.map (Site.rename id)) X y) :=
    fitAll_follows (fun p _ => follows env p) hss
  rwa [Site.map_rename_eq_self (f := id) fun _ => rfl] at h

theorem fitAll_extends {w : Workspace} (hss : ∀ i ∈ Site.idsOf ss, i < w.memory.next) :
    Memory.Extends (Site.idsOf ss) w.memory (fitAll env ps ss X y w).2.memory :=
  Work.Alongside.extend (fitAll_alongside env ps X y (List.Subset.refl _)) hss

theorem transform_same (h : m₀.Renamed id s.ids m₀') :
    transform m₀ p s X = transform m₀' p s X := by
  have hrenamed := transform_rename (p := p) h X
  rwa [Site.rename_eq_self (f := id) fun _ => rfl] at hrenamed

theorem labels_same (h : m₀.Renamed id s.ids m₀') :
    (m₀.labels p s X fun _ => transform m₀ p s X) =
      m₀'.labels p s X fun _ => transform m₀' p s X := by
  have hrenamed := labels_rename (p := p) h X
  rwa [Site.rename_eq_self (f := id) fun _ => rfl] at hrenamed

theorem isFitted_same (h : m₀.Renamed id s.ids m₀') : isFitted m₀ p s = isFitted m₀' p s := by
  have hrenamed := isFitted_rename (p := p) h
  rwa [Site.rename_eq_self (f := id) fun _ => rfl] at hrenamed

end Same

end Plan
end ColumnFlow
