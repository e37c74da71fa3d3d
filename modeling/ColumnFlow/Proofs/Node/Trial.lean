import ColumnFlow.Proofs.Node.Copying
import ColumnFlow.Proofs.Node.Fitting

/-!
# Trials on copies

Candidates of a choice are tried out on copies, by a holdout or by cross-validation. A trial leaves
every tree that was there before as it is, and its outcome does not depend on what the candidates
have learned.
-/
namespace ColumnFlow

namespace Plan

variable {m m' v v' n n' : Memory} {p : Plan} {ps : List Plan} {s s' c c' : Site}
  {ss ss' : List Site} {env : Surroundings}

/-- Copies of two trees that are ready are ready, and stand apart from all that was there. -/
structure Ready.Copied (m m' : Memory) (p : Plan) (c c' : Site) (v v' : Memory) : Prop where
  kept : Memory.Kept [] [] m m' v v'
  ready : Ready v v' p c c'
  new : ∀ id ∈ c.ids, m.next ≤ id
  new' : ∀ id ∈ c'.ids, m'.next ≤ id

theorem Ready.copied (h : Ready m m' p s s') (hc : p.copy s m = (c, v))
    (hc' : p.copy s' m' = (c', v')) : Ready.Copied m m' p c c' v v' := by
  have hleft := copy_copies (h.alike.trans h.alike.symm) h.left.taken hc
  have hright := copy_copies (h.alike.symm.trans h.alike) h.right.taken hc'
  have hkept : Memory.Kept [] [] m m' v v' := ⟨hleft.lays.extend, hright.lays.extend⟩
  refine ⟨hkept, ⟨?_, hleft.lays.holds, hright.lays.holds⟩, hleft.lays.new, hright.lays.new⟩
  exact (hleft.alike.symm.trans (h.keep hkept).alike).trans hright.alike

/-- What happens to copies does not show in what was there before. -/
theorem Ready.Copied.within (h : Ready.Copied m m' p c c' v v')
    (hk : Memory.Kept c.ids c'.ids v v' n n') : Memory.Kept [] [] m m' n n' :=
  h.kept.trans hk (fun id hid => .inr (h.new id hid)) fun id hid => .inr (h.new' id hid)

theorem holdoutScores_matched (ih : ∀ p ∈ ps, Refits env p) {metric : Metric} {X : Frame}
    {y : Series} {split : Holdout} {w w' : Workspace}
    (h : ReadyAll w.memory w'.memory ps ss ss') :
    Work.Matched (fun a b m m' => a = b ∧ Memory.Kept [] [] w.memory w'.memory m m')
      (Memory.Kept [] [] w.memory w'.memory) (holdoutScores env metric ps ss X y split w)
      (holdoutScores env metric ps ss' X y split w') := by
  induction ps generalizing ss ss' w w' with
  | nil =>
    cases h.alike
    simp only [holdoutScores]
    exact ⟨rfl, .refl _ _ _ _⟩
  | cons p ps ihs =>
    cases h.alike with
    | @cons _ _ s s' ss ss' _ _ =>
      simp only [holdoutScores, Work.run_placing_bind]
      rcases hc : p.copy s w.memory with ⟨c, v⟩
      rcases hc' : p.copy s' w'.memory with ⟨c', v'⟩
      have hcopy := h.head.copied hc hc'
      refine .bind (ih p (by simp) c c' _ _ _ _ hcopy.ready) (fun _ _ hu => hcopy.within hu)
        fun _ _ u u' hu => ?_
      rw [Work.run_memory_bind, Work.run_memory_bind, hu.2.labels_eq]
      refine .keep (.logged _) (hcopy.within hu.1) fun guess u u' hk => ?_
      refine .keep (.except _) hk fun score u u' hk => ?_
      have hrest := ihs (fun q hq => ih q (by simp [hq])) (h.tail.keep hk)
      refine .bind hrest (fun _ _ hn => hk.after hn) fun a b u u' hu => ?_
      exact .pure ⟨by rw [hu.1], hk.after hu.2⟩

theorem runFold_matched (ih : Refits env p) {metric : Metric} {X : Frame} {y : Series}
    {fold : Fold} {w w' : Workspace} (h : Ready w.memory w'.memory p s s') :
    Work.Matched (fun a b m m' => a = b ∧ Memory.Kept [] [] w.memory w'.memory m m')
      (Memory.Kept [] [] w.memory w'.memory)
      (Validator.runFold (Node.trainable env ⟨p, s⟩) metric X y fold w)
      (Validator.runFold (Node.trainable env ⟨p, s'⟩) metric X y fold w') := by
  have hfailed : ∀ e stages, Work.Steady (Validator.failedFold fold e stages) := fun e stages =>
    (Work.Steady.note _).bind fun _ => .pure _
  rcases hc : p.copy s w.memory with ⟨c, v⟩
  rcases hc' : p.copy s' w'.memory with ⟨c', v'⟩
  have hcopy := h.copied hc hc'
  unfold Validator.runFold Node.trainable
  refine .attempt (Q := fun a b m m' => a = c ∧ b = c' ∧ m = v ∧ m' = v')
    (E := fun _ _ => False) ?_ (fun _ _ _ h => h.elim) fun a b u u' hu => ?_
  · change Work.Matched _ _ (.ok (p.copy s w.memory).1, { w with memory := (p.copy s w.memory).2 })
      (.ok (p.copy s' w'.memory).1, { w' with memory := (p.copy s' w'.memory).2 })
    rw [hc, hc']
    exact ⟨rfl, rfl, rfl, rfl⟩
  obtain ⟨rfl, rfl, hv, hv'⟩ := hu
  rw [← hv, ← hv'] at hcopy
  refine .attempt (ih a b _ _ u u' hcopy.ready)
    (fun e z z' hz => (hfailed e _).ends (hcopy.within hz)) fun _ _ z z' hz => ?_
  refine .attempt (Q := fun a b m m' => a = b ∧ Memory.Kept [] [] w.memory w'.memory m m')
    (E := Memory.Kept [] [] w.memory w'.memory) ?_
    (fun e z z' hz => (hfailed e _).ends hz) fun out out' z z' hz => ?_
  · dsimp only
    rw [Work.run_memory_bind, Work.run_memory_bind, hz.2.transform_eq]
    exact (Work.Steady.logged _).ends (hcopy.within hz.1)
  obtain ⟨rfl, hk⟩ := hz
  dsimp only
  cases Validator.scoreOf metric (y.takeRows fold.test) out with
  | error e => exact (hfailed e _).ends hk
  | ok score => exact .pure ⟨rfl, hk⟩

theorem runFolds_matched (ih : Refits env p) {validator : Validator} {X : Frame} {y : Series}
    {total : Nat} {folds : List Fold} {j : Journal} {w w' : Workspace}
    (h : Ready w.memory w'.memory p s s') :
    Work.Matched (fun a b m m' => a = b ∧ Memory.Kept [] [] w.memory w'.memory m m')
      (Memory.Kept [] [] w.memory w'.memory)
      (validator.runFolds (Node.trainable env ⟨p, s⟩) X y total folds j w)
      (validator.runFolds (Node.trainable env ⟨p, s'⟩) X y total folds j w') := by
  induction folds generalizing j w w' with
  | nil => exact ⟨rfl, .refl _ _ _ _⟩
  | cons fold folds ihs =>
    simp only [Validator.runFolds]
    refine .bind (runFold_matched ih h) (fun _ _ hk => hk) fun a b v v' hv => ?_
    obtain ⟨rfl, hk⟩ := hv
    refine .bind (ihs (h.keep hk)) (fun _ _ hn => hk.after hn) fun a b u u' hu => ?_
    obtain ⟨rfl, hu⟩ := hu
    exact .pure ⟨rfl, hk.after hu⟩

theorem run_matched (ih : Refits env p) {validator : Validator} {X y : Data} {expression : Value}
    {j : Journal} {w w' : Workspace} (h : Ready w.memory w'.memory p s s') :
    Work.Matched (fun a b m m' => a = b ∧ Memory.Kept [] [] w.memory w'.memory m m')
      (Memory.Kept [] [] w.memory w'.memory)
      (validator.run (Node.trainable env ⟨p, s⟩) X y expression j w)
      (validator.run (Node.trainable env ⟨p, s'⟩) X y expression j w') := by
  have hrefl := Memory.Kept.refl [] [] w.memory w'.memory
  unfold Validator.run
  generalize (X.toFrame >>= _ : Except Failure (Frame × Series)) = prepared
  rcases prepared with e | ⟨frame, target⟩
  · exact .pure ⟨rfl, hrefl⟩
  · dsimp only
    rcases validator.split frame target with e | folds
    · exact .pure ⟨rfl, hrefl⟩
    · dsimp only
      have htext : Work.Matched
          (fun a b m m' => a = b ∧ Memory.Kept [] [] w.memory w'.memory m m')
          (Memory.Kept [] [] w.memory w'.memory)
          ((do let _ ← (Node.trainable env ⟨p, s⟩).text; validator.checkJobs : Work Unit) w)
          ((do let _ ← (Node.trainable env ⟨p, s'⟩).text; validator.checkJobs : Work Unit) w') := by
        unfold Node.trainable
        dsimp only
        have htext : Node.text ⟨p, s⟩ w.memory = Node.text ⟨p, s'⟩ w'.memory := h.alike.text_eq
        refine .bind (Q := fun a b m m' => a = b ∧ Memory.Kept [] [] w.memory w'.memory m m') ?_
          (fun _ _ hk => hk) fun _ _ v v' hv => (Work.Steady.except _).ends hv.2
        rw [Work.run_memory_bind, Work.run_memory_bind, htext]
        exact (Work.Steady.except _).ends hrefl
      refine .attempt htext (fun e v v' hv => .pure ⟨rfl, hv⟩) fun _ _ v v' hv => ?_
      refine .bind (runFolds_matched ih (h.keep hv.2)) (fun _ _ hn => hv.2.after hn)
        fun a b u u' hu => ?_
      obtain ⟨rfl, hu⟩ := hu
      exact .pure ⟨rfl, hv.2.after hu⟩

theorem foldScores_matched (ih : ∀ p ∈ ps, Refits env p) {validator : Validator}
    {owner owner' : Site} {X : Frame} {y : Series} {w w' : Workspace}
    (h : ReadyAll w.memory w'.memory ps ss ss')
    (howner : ∀ m m', Memory.Kept [] [] w.memory w'.memory m m' →
      m.label owner = m'.label owner') :
    Work.Matched (fun a b m m' => a = b ∧ Memory.Kept [] [] w.memory w'.memory m m')
      (Memory.Kept [] [] w.memory w'.memory) (foldScores env validator owner ps ss X y w)
      (foldScores env validator owner' ps ss' X y w') := by
  induction ps generalizing ss ss' w w' with
  | nil =>
    cases h.alike
    simp only [foldScores]
    exact ⟨rfl, .refl _ _ _ _⟩
  | cons p ps ihs =>
    cases h.alike with
    | @cons _ _ s s' ss ss' _ _ =>
      simp only [foldScores]
      have hrest : ∀ score : Float, ∀ v v' : Workspace,
          Memory.Kept [] [] w.memory w'.memory v.memory v'.memory →
          Work.Matched (fun a b m m' => a = b ∧ Memory.Kept [] [] w.memory w'.memory m m')
            (Memory.Kept [] [] w.memory w'.memory)
            ((do return score :: (← foldScores env validator owner ps ss X y) :
              Work (List Float)) v)
            ((do return score :: (← foldScores env validator owner' ps ss' X y) :
              Work (List Float)) v') := by
        intro score v v' hk
        have htail := ihs (fun q hq => ih q (by simp [hq])) (h.tail.keep hk) fun m m' hm =>
          howner m m' (hk.after hm)
        refine .bind htail (fun _ _ hn => hk.after hn) fun a b u u' hu => ?_
        exact .pure ⟨by rw [hu.1], hk.after hu.2⟩
      refine .bind (run_matched (ih p (by simp)) h.head) (fun _ _ hk => hk) fun a b v v' hv => ?_
      obtain ⟨rfl, hk⟩ := hv
      rcases a with ⟨_, e | result⟩
      · cases e with
        | allFoldsFailed records =>
          have hname := howner _ _ hk
          have hname' := (h.head.keep hk).alike.label_eq
          dsimp only
          rw [Work.run_memory_bind, Work.run_memory_bind]
          unfold Memory.name
          rw [hname, hname']
          exact .keep (.note _) hk fun _ u u' hu => hrest _ u u' hu
        | _ => exact ⟨rfl, hk⟩
      · exact hrest _ v v' hk

end Plan
end ColumnFlow
