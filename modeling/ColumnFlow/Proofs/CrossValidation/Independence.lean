import ColumnFlow.Proofs.CrossValidation.Records
import ColumnFlow.Proofs.Node.Keeping

/-!
# Independent folds

The folds of a cross-validation begin with copies of one node and change nothing but these copies.
So the record of a fold depends on the plan and the names of the node and on the slices of the fold,
and not on what the node has learned or on what happened in other folds. Folds may be run in any
order, and a run leaves every node as it was.
-/
namespace ColumnFlow

/-- Two runs that match, with one result and in one relation of their memories, end in one way. -/
theorem Work.Matched.ends_alike {α : Type} {R : Memory → Memory → Prop}
    {o o' : Except Failure α × Workspace} (h : Matched (fun a b m m' => a = b ∧ R m m') R o o') :
    o.1 = o'.1 ∧ R o.2.memory o'.2.memory := by
  rcases o with ⟨_ | _, v⟩ <;> rcases o' with ⟨_ | _, v'⟩ <;> simp only [Matched] at h
  · exact ⟨congrArg Except.error h.1, h.2⟩
  · exact ⟨congrArg Except.ok h.1, h.2⟩

/-- Folds of different data with one number and equal slices. -/
structure Fold.SameSlices (X : Frame) (y : Series) (fold : Fold) (X' : Frame) (y' : Series)
    (fold' : Fold) : Prop where
  blank : Validator.blank fold = Validator.blank fold'
  train : X.takeRows fold.train = X'.takeRows fold'.train
  target : y.takeRows fold.train = y'.takeRows fold'.train
  test : X.takeRows fold.test = X'.takeRows fold'.test
  truth : y.takeRows fold.test = y'.takeRows fold'.test

theorem Validator.conclude_journal (v : Validator) (expression : Value)
    (records : List ScoreRecord) (j j' : Journal) :
    (v.conclude expression records j).2 = (v.conclude expression records j').2 := by
  unfold conclude
  split <;> rfl

namespace Node

variable {env : Surroundings} {n n' : Node} {m m' : Memory} {w w' : Workspace} {X X' Z : Frame}
  {y y' : Series} {fold fold' : Fold} {folds : List Fold} {metric : Metric} {v : Validator}

def InUse (m : Memory) (n : Node) : Prop := ∀ i ∈ n.site.ids, i < m.next

instance (m : Memory) (n : Node) : Decidable (n.InUse m) :=
  inferInstanceAs (Decidable (∀ i ∈ n.site.ids, i < m.next))

theorem InUse.extend {S : List Nat} (hn : n.InUse m) (h : Memory.Extends S m m') : n.InUse m' :=
  fun i hi => Nat.lt_of_lt_of_le (hn i hi) h.next_le

/-- Nodes with one plan and the same names in the same positions. -/
def SameConfiguration (m m' : Memory) (n n' : Node) : Prop :=
  n'.plan = n.plan ∧ n.plan.Namesakes m m' n.site n'.site

theorem InUse.sameConfiguration {S : List Nat} (hn : n.InUse m) (h : Memory.Extends S m m') :
    SameConfiguration m m' n n :=
  ⟨rfl, Plan.namesakes_extend n.plan h hn⟩

/-! Trials. -/

/-- A copy is fitted and asked, where it was made. -/
theorem run_trial (env : Surroundings) (n : Node) (X : Frame) (y : Series) (Z : Frame)
    (w : Workspace) :
    (n.trainable env).trial X y Z w = (do
      n.plan.fit env (n.plan.copy n.site w.memory).1 X (some y)
      n.plan.transform (← Work.memory) (n.plan.copy n.site w.memory).1 Z : Work Frame)
      { w with memory := (n.plan.copy n.site w.memory).2 } := rfl

theorem trial_eq (h : SameConfiguration w.memory w'.memory n n') (hn : n.InUse w.memory)
    (hn' : n'.InUse w'.memory) (X : Frame) (y : Series) (Z : Frame) :
    ((n.trainable env).trial X y Z w).1 = ((n'.trainable env).trial X y Z w').1 := by
  obtain ⟨p, s⟩ := n
  obtain ⟨p', s'⟩ := n'
  obtain ⟨hplan, h⟩ := h
  cases hplan
  -- The copies are one tree under shifted identities, and stay so while they are fitted.
  have hcopied := Plan.copy_byName w.memory.next w'.memory.next p s s' _ _ h
    ⟨hn, hn', .start _ _⟩
  have hsite : (p.copy s' w'.memory).1 = (p.copy s w.memory).1.rename _ :=
    List.singleton_inj.1 hcopied.sites
  rw [run_trial, run_trial]
  dsimp only
  rw [hsite]
  refine (Work.Matched.ends_alike (R := fun _ _ => True) (.bind (Plan.follows env p _ _ _ _ _ X
    (some y) (List.Subset.refl _) _ _ hcopied.mirrors.tracks) (fun _ _ _ => trivial)
    fun _ _ v v' hv => ?_)).1
  rw [Work.run_memory_bind, Work.run_memory_bind, Plan.transform_rename hv.2.mirrors.renamed]
  exact (Work.Steady.logged _).ends trivial

theorem trial_extends (env : Surroundings) (hn : n.InUse w.memory) (X : Frame) (y : Series)
    (Z : Frame) : Memory.Extends [] w.memory ((n.trainable env).trial X y Z w).2.memory := by
  have hfit := Plan.fit_copy env n.plan X (some y) hn
  rw [run_trial, Work.run_bind]
  rcases hrun : n.plan.fit env (n.plan.copy n.site w.memory).1 X (some y)
    { w with memory := (n.plan.copy n.site w.memory).2 } with ⟨e | _, v⟩ <;> rw [hrun] at hfit
  · exact hfit
  · exact Work.Keeps.reading (I := Memory.Extends [] w.memory)
      (fun m => .steady (.logged _)) v hfit

/-! Folds. -/

/-- The record of a fold that is run from some workspace on. -/
def foldRecord (env : Surroundings) (n : Node) (metric : Metric) (X : Frame) (y : Series)
    (fold : Fold) (w : Workspace) : ScoreRecord :=
  Validator.judged metric fold (y.takeRows fold.test)
    (Validator.foldTrial (n.trainable env) X y fold w).1

theorem foldRecord_eq (h : SameConfiguration w.memory w'.memory n n') (hn : n.InUse w.memory)
    (hn' : n'.InUse w'.memory) (hslices : Fold.SameSlices X y fold X' y' fold') :
    foldRecord env n metric X y fold w = foldRecord env n' metric X' y' fold' w' := by
  unfold foldRecord Validator.foldTrial Validator.judged
  rw [hslices.blank, hslices.train, hslices.target, hslices.test, hslices.truth,
    trial_eq h hn hn']

/-- What happened since does not show in the record of a fold. -/
theorem foldRecord_later {S : List Nat} (hn : n.InUse w.memory)
    (h : Memory.Extends S w.memory w'.memory) (metric : Metric) (X : Frame) (y : Series)
    (fold : Fold) :
    foldRecord env n metric X y fold w' = foldRecord env n metric X y fold w :=
  (foldRecord_eq (hn.sameConfiguration h) hn (hn.extend h) ⟨rfl, rfl, rfl, rfl, rfl⟩).symm

theorem runFold_record (env : Surroundings) (hn : n.InUse w.memory) (metric : Metric) (X : Frame)
    (y : Series) (fold : Fold) : ∃ stages w',
      Validator.runFold (n.trainable env) metric X y fold w =
        (.ok (foldRecord env n metric X y fold w, stages), w') ∧
      Memory.Extends [] w.memory w'.memory := by
  obtain ⟨stages, w', hrun, hmemory⟩ :=
    Validator.runFold_judged (n.trainable env) metric X y fold w
  refine ⟨stages, w', hrun, ?_⟩
  rw [hmemory]
  exact trial_extends env hn _ _ _

theorem runFolds_records (env : Surroundings) (hn : n.InUse w.memory) (v : Validator) (X : Frame)
    (y : Series) (total : Nat) (folds : List Fold) (j : Journal) : ∃ j' w',
      v.runFolds (n.trainable env) X y total folds j w =
        (.ok (folds.map fun fold => foldRecord env n v.metric X y fold w, j'), w') ∧
      Memory.Extends [] w.memory w'.memory := by
  induction folds generalizing j w with
  | nil => exact ⟨j, w, rfl, .refl _ _⟩
  | cons fold folds ih =>
    obtain ⟨stages, w₁, hfold, hext⟩ := runFold_record env hn v.metric X y fold
    obtain ⟨j', w', hrest, hext'⟩ := ih (hn.extend hext)
      (if v.isSequential then (j.tell (fold.index + 1) total).enterAll stages else j)
    refine ⟨j', w', ?_, hext.trans hext' (by simp)⟩
    rw [Validator.runFolds, Work.run_bind, hfold]
    dsimp only
    rw [Work.run_bind, hrest]
    simp only [foldRecord_later hn hext]
    rfl

/-! Workers. -/

/-- Workers take the folds in some order, and every record goes to the place of its fold. -/
def runWorkers (env : Surroundings) (n : Node) (metric : Metric) (X : Frame) (y : Series)
    (folds : List Fold) : List Nat → List (Option ScoreRecord) →
      Work (List (Option ScoreRecord))
  | [], records => return records
  | i :: order, records =>
    match folds[i]? with
    | none => runWorkers env n metric X y folds order records
    | some fold => do
      let (record, _) ← Validator.runFold (n.trainable env) metric X y fold
      runWorkers env n metric X y folds order (records.set i (some record))

theorem runWorkers_records (env : Surroundings) (hn : n.InUse w.memory) (metric : Metric)
    (X : Frame) (y : Series) (folds : List Fold) (order : List Nat)
    (records : List (Option ScoreRecord)) (hlength : records.length = folds.length) :
    ∃ records' w',
      runWorkers env n metric X y folds order records w = (.ok records', w') ∧
      records'.length = folds.length ∧
      ∀ i fold, folds[i]? = some fold → records'[i]? =
        if i ∈ order then some (some (foldRecord env n metric X y fold w)) else records[i]? := by
  induction order generalizing records w with
  | nil => exact ⟨records, w, rfl, hlength, fun _ _ _ => rfl⟩
  | cons i order ih =>
    rw [runWorkers]
    cases hi : folds[i]? with
    | none =>
      obtain ⟨records', w', hrun, hlength', hplaces⟩ := ih hn records hlength
      refine ⟨records', w', hrun, hlength', fun k fold hk => ?_⟩
      have hne : k ≠ i := fun h => by simp [h, hi] at hk
      simpa [hne] using hplaces k fold hk
    | some first =>
      obtain ⟨stages, w₁, hfold, hext⟩ := runFold_record env hn metric X y first
      obtain ⟨records', w', hrun, hlength', hplaces⟩ := ih (hn.extend hext)
        (records.set i (some (foldRecord env n metric X y first w))) (by simpa using hlength)
      refine ⟨records', w', ?_, hlength', fun k fold hk => ?_⟩
      · dsimp only
        rw [Work.run_bind, hfold]
        exact hrun
      · rw [hplaces k fold hk, foldRecord_later hn hext]
        -- If the fold comes once more, it comes to the record that is already in its place.
        by_cases hki : k = i
        · obtain rfl : first = fold := Option.some.inj (hi.symm.trans (hki ▸ hk))
          have hplace : k < records.length := hlength ▸ (List.getElem?_eq_some_iff.1 hk).1
          rw [← hki, List.getElem?_set_self hplace, if_pos List.mem_cons_self, ite_self]
        · rw [List.getElem?_set_ne (Ne.symm hki)]
          simp only [List.mem_cons, hki, false_or]

/-- The records are the same in whatever order the folds were taken. -/
theorem runWorkers_eq (env : Surroundings) (hn : n.InUse w.memory) (metric : Metric) (X : Frame)
    (y : Series) (folds : List Fold) {order : List Nat} (horder : ∀ i < folds.length, i ∈ order) :
    ∃ w', runWorkers env n metric X y folds order (List.replicate folds.length none) w =
      (.ok (folds.map fun fold => some (foldRecord env n metric X y fold w)), w') := by
  obtain ⟨records, w', hrun, hlength, hplaces⟩ := runWorkers_records env hn metric X y folds order
    (List.replicate folds.length none) List.length_replicate
  refine ⟨w', ?_⟩
  rw [hrun]
  congr 2
  refine List.ext_getElem (by rw [hlength, List.length_map]) fun i hi hi' => ?_
  have hfold : i < folds.length := hlength ▸ hi
  have hplace := hplaces i folds[i] (List.getElem?_eq_getElem hfold)
  rw [if_pos (horder i hfold), List.getElem?_eq_getElem hi] at hplace
  rw [List.getElem_map]
  exact Option.some.inj hplace

/-! Whole runs. -/

theorem run_extends (env : Surroundings) (hn : n.InUse w.memory) (v : Validator) (X y : Data)
    (expression : Value) (j : Journal) :
    Memory.Extends [] w.memory (v.run (n.trainable env) X y expression j w).2.memory := by
  have hlasting : Memory.Lasting (Memory.Extends [] w.memory) := fun m m' h hm =>
    hm.trans h (by simp)
  exact Plan.run_keeps hlasting (fun m hm => hn.extend hm) w (.refl _ _)

/-- What is seen of a node in two memories that hold the same for it. -/
theorem seen_same {q : Node} (h : m.Renamed id q.site.ids m') :
    q.isFitted m' = q.isFitted m ∧ ∀ Z, q.transform m' Z = q.transform m Z := by
  have hfitted : q.isFitted m' = q.isFitted m := (Plan.isFitted_same _ h).symm
  have hlabel : q.label m' = q.label m := (congrArg Slot.name (h _ q.site.id_mem_ids)).symm
  refine ⟨hfitted, fun Z => ?_⟩
  unfold transform
  simp only [hfitted, hlabel, Plan.transform_same _ _ h]

theorem seen_extend {q : Node} (hq : q.InUse m) (h : Memory.Extends [] m m') :
    q.isFitted m' = q.isFitted m ∧ ∀ Z, q.transform m' Z = q.transform m Z :=
  seen_same (h.mirrors hq (by simp)).renamed

/-- What comes of a run: the records of all folds, each as if its fold were run alone. -/
def validated (env : Surroundings) (n : Node) (v : Validator) (X y : Data) (expression : Value)
    (w : Workspace) : Except Failure ValidationResult := do
  let frame ← X.toFrame
  match ← y.toTarget frame with
  | none => throw (.mismatch (.validationTarget frame.rows))
  | some target =>
    let folds ← v.split frame target
    let _ ← (do let _ ← n.text w.memory; v.checkJobs : Except Failure Unit)
    (v.conclude expression (folds.map fun fold => foldRecord env n v.metric frame target fold w)
      .fresh).2

/-- What is asked before the first fold. -/
theorem run_checks (env : Surroundings) (n : Node) (v : Validator) (w : Workspace) :
    (do let _ ← (n.trainable env).text; v.checkJobs : Work Unit) w =
      ((do let _ ← n.text w.memory; v.checkJobs : Except Failure Unit), w) := by
  have htext : (n.trainable env).text w = (liftM (n.text w.memory) : Work String) w := rfl
  rw [Work.run_bind, htext]
  rcases n.text w.memory with e | text
  · rfl
  · cases v.checkJobs <;> rfl

theorem run_validated (env : Surroundings) (hn : n.InUse w.memory) (v : Validator) (X y : Data)
    (expression : Value) (j : Journal) : ∃ j' w',
      v.run (n.trainable env) X y expression j w =
        (.ok (j', validated env n v X y expression w), w') := by
  unfold validated
  rcases hframe : X.toFrame with e | frame
  · simp only [Validator.run, hframe]
    exact ⟨_, _, rfl⟩
  rw [Except.bind_ok]
  rcases htarget : y.toTarget frame with e | _ | target
  · simp only [Validator.run, hframe, Except.bind_ok, htarget]
    exact ⟨_, _, rfl⟩
  · simp only [Validator.run, hframe, Except.bind_ok, htarget]
    exact ⟨_, _, rfl⟩
  rw [Except.bind_ok]
  dsimp only
  rcases hsplit : v.split frame target with e | folds
  · exact ⟨_, _, Validator.run_unsplit ⟨hframe, htarget⟩ hsplit⟩
  have hchecks := run_checks env n v w
  rcases hchecked : (do let _ ← n.text w.memory; v.checkJobs : Except Failure Unit) with e | _
  all_goals rw [hchecked] at hchecks
  · exact ⟨_, w, Validator.run_refused ⟨hframe, htarget⟩ hsplit hchecks⟩
  · obtain ⟨j', w', hrun, -⟩ := runFolds_records env hn v frame target folds.length folds
      (j.restart.enter .splitting)
    have hrun := Validator.run_completed expression ⟨hframe, htarget⟩ hsplit hchecks hrun
    rw [Except.bind_ok, Except.bind_ok, Validator.conclude_journal _ _ _ .fresh j']
    exact ⟨_, w', hrun⟩

/-- How many workers there are does not matter, if they are accepted. -/
theorem validated_jobs {jobs : Value} (hjobs : v.checkJobs = .ok ())
    (hjobs' : ({ v with jobs } : Validator).checkJobs = .ok ()) (X y : Data) (expression : Value)
    (w : Workspace) :
    validated env n { v with jobs } X y expression w = validated env n v X y expression w := by
  unfold validated
  rw [hjobs, hjobs']
  rfl

theorem validated_of_starts {X y : Data} {frame : Frame} {target : Series}
    (h : v.Starts (n.trainable env) X y w frame target folds w) (expression : Value) :
    validated env n v X y expression w = (v.conclude expression
      (folds.map (foldRecord env n v.metric frame target · w)) .fresh).2 := by
  have hchecked : (do let _ ← n.text w.memory; v.checkJobs : Except Failure Unit) = .ok () :=
    congrArg Prod.fst ((run_checks env n v w).symm.trans h.accepted)
  unfold validated
  rw [h.prepared.1, Except.bind_ok, h.prepared.2, Except.bind_ok]
  dsimp only
  rw [h.split, Except.bind_ok, hchecked, Except.bind_ok]

/-- The folds of a validation are independent. The record of each depends on the plan and the names
of the node and on the slices of the fold, and not on what other folds came to. So the records are
the same in whatever order workers take the folds, and a run comes to the same with any number of
workers. Afterwards all nodes that were there before are as they were. -/
theorem folds_independent (env : Surroundings) (v : Validator) (n : Node) (w : Workspace)
    (hn : n.InUse w.memory) :
    (∀ (n' : Node) (w' : Workspace) (X X' : Frame) (y y' : Series) (fold fold' : Fold),
      SameConfiguration w.memory w'.memory n n' → n'.InUse w'.memory →
      Fold.SameSlices X y fold X' y' fold' →
      foldRecord env n v.metric X y fold w = foldRecord env n' v.metric X' y' fold' w') ∧
    (∀ (X X' : Frame) (y y' : Series) (fold : Fold) (v' : Validator) (total : Nat)
      (others : List Fold) (j : Journal),
      foldRecord env n v.metric X y fold
          (v'.runFolds (n.trainable env) X' y' total others j w).2 =
        foldRecord env n v.metric X y fold w) ∧
    (∀ (X : Frame) (y : Series) (folds : List Fold) (order : List Nat) (total : Nat) (j : Journal),
      (∀ i < folds.length, i ∈ order) → ∃ records,
        records = folds.map (foldRecord env n v.metric X y · w) ∧
        (∃ j' w', v.runFolds (n.trainable env) X y total folds j w = (.ok (records, j'), w')) ∧
        (∃ w', runWorkers env n v.metric X y folds order (List.replicate folds.length none) w =
          (.ok (records.map some), w')) ∧
        ∀ (X' y' : Data) (expression : Value),
          v.Starts (n.trainable env) X' y' w X y folds w → ∃ j' w',
            v.run (n.trainable env) X' y' expression j w =
              (.ok (j', (v.conclude expression records .fresh).2), w')) ∧
    (∀ (X y : Data) (expression jobs : Value) (j j' : Journal), v.checkJobs = .ok () →
      ({ v with jobs } : Validator).checkJobs = .ok () →
      (v.run (n.trainable env) X y expression j w).1.map Prod.snd =
        (({ v with jobs } : Validator).run (n.trainable env) X y expression j' w).1.map Prod.snd) ∧
    ∀ (X y : Data) (expression : Value) (j : Journal) (q : Node), q.InUse w.memory →
      q.isFitted (v.run (n.trainable env) X y expression j w).2.memory = q.isFitted w.memory ∧
      ∀ Z, q.transform (v.run (n.trainable env) X y expression j w).2.memory Z =
        q.transform w.memory Z := by
  refine ⟨fun n' w' X X' y y' fold fold' h hn' hslices => foldRecord_eq h hn hn' hslices,
    fun X X' y y' fold v' total others j => ?_, fun X y folds order total j horder => ?_,
    fun X y expression jobs j j' hjobs hjobs' => ?_, fun X y expression j q hq => ?_⟩
  · obtain ⟨j', w', hrun, hext⟩ := runFolds_records env hn v' X' y' total others j
    rw [hrun]
    exact foldRecord_later hn hext v.metric X y fold
  · obtain ⟨j', w', hrun, -⟩ := runFolds_records env hn v X y total folds j
    refine ⟨_, rfl, ⟨j', w', hrun⟩, ?_, fun X' y' expression hstarts => ?_⟩
    · rw [List.map_map]
      exact runWorkers_eq env hn v.metric X y folds horder
    · rw [← validated_of_starts hstarts expression]
      exact run_validated env hn v X' y' expression j
  · obtain ⟨_, _, hrun⟩ := run_validated env hn v X y expression j
    obtain ⟨_, _, hrun'⟩ := run_validated env hn { v with jobs } X y expression j'
    rw [hrun, hrun']
    exact congrArg Except.ok (validated_jobs hjobs hjobs' X y expression w).symm
  · exact seen_extend hq (run_extends env hn v X y expression j)

/-- Predicts 0, and refuses to learn from a single row with the target 1. -/
def pickyLearner : Learner := ⟨"Picky", [], .labels, "classification", fun _ y =>
  match y.cells with
  | [.scalar (.int 1)] => throw (.element "one")
  | _ => pure (some ⟨fun X => pure ⟨.null, .int64, X.index.map fun _ => .int 0⟩, none⟩)⟩

def pickyNode : Node := ⟨.learner pickyLearner, .mk 0 []⟩

/-- One node, which is fitted. -/
def pickySpace : Workspace :=
  ⟨⟨#[⟨.text "picky", some [.text "x"],
    .model ⟨fun X => pure ⟨.null, .int64, X.index.map fun _ => .int 7⟩, none⟩⟩]⟩, [], false⟩

theorem folds_independent_two :
    pickyNode.InUse pickySpace.memory ∧ ∃ records w₁ j' w₂,
      records.map (·.failed) = [false, true] ∧
      runWorkers ⟨.error (.unusable .value), .builtin⟩ pickyNode (Validator.ofTwo 1).metric
        Validator.two Validator.scores [⟨0, [1], [0]⟩, ⟨1, [0], [1]⟩] [1, 0] [none, none]
        pickySpace = (.ok (records.map some), w₁) ∧
      (Validator.ofTwo 1).run (pickyNode.trainable ⟨.error (.unusable .value), .builtin⟩)
        (.frame Validator.two) (.series Validator.scores) .null .fresh pickySpace =
          (.ok (j', ((Validator.ofTwo 1).conclude .null records .fresh).2), w₂) ∧
      pickyNode.isFitted w₂.memory = true := by
  have hn : pickyNode.InUse pickySpace.memory := by decide
  obtain ⟨-, -, hrecords, -, hafter⟩ := folds_independent ⟨.error (.unusable .value), .builtin⟩
    (Validator.ofTwo 1) pickyNode pickySpace hn
  obtain ⟨records, heq, -, ⟨w₁, hworkers⟩, hruns⟩ := hrecords Validator.two Validator.scores
    [⟨0, [1], [0]⟩, ⟨1, [0], [1]⟩] [1, 0] 2 .fresh (by decide)
  obtain ⟨j', w₂, hrun⟩ := hruns (.frame Validator.two) (.series Validator.scores) .null
    ⟨⟨rfl, rfl⟩, rfl, rfl⟩
  obtain ⟨hfitted, -⟩ := hafter (.frame Validator.two) (.series Validator.scores) .null .fresh
    pickyNode hn
  rw [hrun] at hfitted
  refine ⟨hn, records, w₁, j', w₂, ?_, hworkers, hrun, hfitted⟩
  rw [heq]
  decide +kernel

end Node
end ColumnFlow
