import ColumnFlow.Proofs.Frame.Within
import ColumnFlow.Proofs.Node.Keeping

/-!
# Stages

The stages that runs of a validator leave behind. A fold goes through its stages up to the one in
which it fails, and a run that gets as far as its folds ends in one of two stages. The present stage
is the last one of the history at all times, since both change together.
-/
namespace ColumnFlow

namespace Journal

variable {j : Journal} {stages : List Stage}

def Current (j : Journal) : Prop := j.history.getLast? = some j.stage

theorem Current.opened (followed : Bool) : (opened followed).Current := rfl

theorem Current.restart (j : Journal) : j.restart.Current := rfl

theorem Current.enter (j : Journal) (stage : Stage) : (j.enter stage).Current :=
  List.getLast?_concat

theorem history_tell (j : Journal) (fold total : Nat) :
    (j.tell fold total).history = j.history := by
  unfold tell
  split <;> rfl

theorem Current.tell (h : j.Current) (fold total : Nat) : (j.tell fold total).Current := by
  unfold Journal.tell
  split <;> exact h

theorem history_enterAll (j : Journal) (stages : List Stage) :
    (j.enterAll stages).history = j.history ++ stages := by
  induction stages generalizing j with
  | nil => exact (List.append_nil _).symm
  | cons stage stages ih =>
    have hrest := ih (j.enter stage)
    rw [enter, List.append_assoc] at hrest
    exact hrest

theorem Current.enterAll (h : j.Current) (stages : List Stage) : (j.enterAll stages).Current := by
  induction stages generalizing j with
  | nil => exact h
  | cons stage stages ih => exact ih (.enter j stage)

end Journal

namespace Validator

variable {v : Validator} {t : Trainable} {metric : Metric} {X : Frame} {y : Series} {fold : Fold}
  {folds : List Fold} {j : Journal} {w : Workspace} {total : Nat}

/-! One fold. -/

/-- The stages that a fold goes through, by what goes wrong in it, and whether it fails. -/
inductive Goes (t : Trainable) (metric : Metric) (X : Frame) (y : Series) (fold : Fold)
    (w : Workspace) : List Stage → Bool → Prop where
  | uncopied {e : Failure} {w₁ : Workspace} (hcopy : t.fresh w = (.error e, w₁)) :
    Goes t metric X y fold w [] true
  | unfitted {s : Site} {e : Failure} {w₁ w₂ : Workspace} (hcopy : t.fresh w = (.ok s, w₁))
    (hfit : t.fit s (X.takeRows fold.train) (y.takeRows fold.train) w₁ = (.error e, w₂)) :
    Goes t metric X y fold w [.fitTrain] true
  | unanswered {s : Site} {e : Failure} {w₁ w₂ w₃ : Workspace} (hcopy : t.fresh w = (.ok s, w₁))
    (hfit : t.fit s (X.takeRows fold.train) (y.takeRows fold.train) w₁ = (.ok (), w₂))
    (houtput : t.output s (X.takeRows fold.test) w₂ = (.error e, w₃)) :
    Goes t metric X y fold w [.fitTrain, .predictTest] true
  | unscored {s : Site} {e : Failure} {output : Frame} {w₁ w₂ w₃ : Workspace}
    (hcopy : t.fresh w = (.ok s, w₁))
    (hfit : t.fit s (X.takeRows fold.train) (y.takeRows fold.train) w₁ = (.ok (), w₂))
    (houtput : t.output s (X.takeRows fold.test) w₂ = (.ok output, w₃))
    (hscore : scoreOf metric (y.takeRows fold.test) output = .error e) :
    Goes t metric X y fold w [.fitTrain, .predictTest, .score] true
  | scored {s : Site} {output : Frame} {score : Float} {w₁ w₂ w₃ : Workspace}
    (hcopy : t.fresh w = (.ok s, w₁))
    (hfit : t.fit s (X.takeRows fold.train) (y.takeRows fold.train) w₁ = (.ok (), w₂))
    (houtput : t.output s (X.takeRows fold.test) w₂ = (.ok output, w₃))
    (hscore : scoreOf metric (y.takeRows fold.test) output = .ok score) :
    Goes t metric X y fold w [.fitTrain, .predictTest, .score] false

theorem run_failedFold (fold : Fold) (e : Failure) (stages : List Stage) (w : Workspace) :
    ∃ record w', failedFold fold e stages w = (.ok (record, stages), w') ∧ record.failed = true :=
  ⟨_, _, rfl, rfl⟩

theorem runFold_goes (t : Trainable) (metric : Metric) (X : Frame) (y : Series) (fold : Fold)
    (w : Workspace) : ∃ record stages w',
      runFold t metric X y fold w = (.ok (record, stages), w') ∧
      Goes t metric X y fold w stages record.failed := by
  unfold runFold
  rw [Work.run_attempt_bind]
  rcases hcopy : t.fresh w with ⟨e | s, w₁⟩
  · obtain ⟨record, w', hrun, hfailed⟩ := run_failedFold fold e [] w₁
    exact ⟨record, _, w', hrun, hfailed ▸ .uncopied hcopy⟩
  dsimp only
  rw [Work.run_attempt_bind]
  rcases hfit : t.fit s (X.takeRows fold.train) (y.takeRows fold.train) w₁ with ⟨e | _, w₂⟩
  · obtain ⟨record, w', hrun, hfailed⟩ := run_failedFold fold e [.fitTrain] w₂
    exact ⟨record, _, w', hrun, hfailed ▸ .unfitted hcopy hfit⟩
  dsimp only
  rw [Work.run_attempt_bind]
  rcases houtput : t.output s (X.takeRows fold.test) w₂ with ⟨e | output, w₃⟩
  · obtain ⟨record, w', hrun, hfailed⟩ := run_failedFold fold e [.fitTrain, .predictTest] w₃
    exact ⟨record, _, w', hrun, hfailed ▸ .unanswered hcopy hfit houtput⟩
  dsimp only
  cases hscore : scoreOf metric (y.takeRows fold.test) output with
  | error e =>
    obtain ⟨record, w', hrun, hfailed⟩ :=
      run_failedFold fold e [.fitTrain, .predictTest, .score] w₃
    exact ⟨record, _, w', hrun, hfailed ▸ .unscored hcopy hfit houtput hscore⟩
  | ok score => exact ⟨_, _, _, rfl, .scored hcopy hfit houtput hscore⟩

/-! All folds. -/

inductive GoThrough (t : Trainable) (metric : Metric) (X : Frame) (y : Series) :
    List Fold → Workspace → List (List Stage × Bool) → Prop where
  | nil {w : Workspace} : GoThrough t metric X y [] w []
  | cons {fold : Fold} {folds : List Fold} {w : Workspace} {stages : List Stage} {failed : Bool}
    {ends : List (List Stage × Bool)} (hfold : Goes t metric X y fold w stages failed)
    (hfolds : GoThrough t metric X y folds (runFold t metric X y fold w).2 ends) :
    GoThrough t metric X y (fold :: folds) w ((stages, failed) :: ends)

theorem isSequential_int (n : Int) (hjobs : v.jobs = .int n) : v.isSequential = true ↔ n = 1 := by
  unfold isSequential
  rw [hjobs]
  have hnumber : Parameters.exactNumber? (.int n) = some (.finite n) := rfl
  rw [hnumber, Option.any_some, beq_iff_eq, Decimal.Exact.finite.injEq]
  exact_mod_cast Iff.rfl

/-- Of the whole numbers, only 0 is no number of workers. -/
theorem checkJobs_int (n : Int) (hjobs : v.jobs = .int n) : v.checkJobs = .ok () ↔ n ≠ 0 := by
  unfold checkJobs
  split
  · rename_i hsequential
    rw [(isSequential_int n hjobs).1 hsequential]
    exact iff_of_true rfl (by decide)
  · rw [hjobs]
    change (if n ≠ 0 then .ok () else .error (.unusable .value) : Except Failure Unit) = .ok () ↔ _
    split
    · exact iff_of_true rfl ‹_›
    · exact iff_of_false nofun ‹_›

theorem runFolds_goThrough (v : Validator) (t : Trainable) (X : Frame) (y : Series) (total : Nat)
    (folds : List Fold) (hj : j.Current) (w : Workspace) : ∃ records j' w' ends,
      v.runFolds t X y total folds j w = (.ok (records, j'), w') ∧
      GoThrough t v.metric X y folds w ends ∧
      records.map (·.failed) = ends.map Prod.snd ∧ j'.Current ∧
      j'.history = j.history ++ if v.isSequential then ends.flatMap Prod.fst else [] := by
  induction folds generalizing j w with
  | nil => exact ⟨[], j, w, [], rfl, .nil, rfl, hj, by simp⟩
  | cons fold folds ih =>
    obtain ⟨record, stages, w₁, hfold, hgoes⟩ := runFold_goes t v.metric X y fold w
    -- workers of their own tell the journal nothing of their stages
    let j₁ := if v.isSequential then (j.tell (fold.index + 1) total).enterAll stages else j
    have hj₁ : j₁.Current := by
      unfold j₁
      split
      · exact (hj.tell _ _).enterAll stages
      · exact hj
    have hhistory₁ : j₁.history = j.history ++ if v.isSequential then stages else [] := by
      unfold j₁
      split
      · rw [Journal.history_enterAll, Journal.history_tell]
      · exact (List.append_nil _).symm
    obtain ⟨records, j', w', ends, hrun, hends, hfailed, hj', hhistory⟩ := ih hj₁ w₁
    refine ⟨record :: records, j', w', (stages, record.failed) :: ends, ?_, .cons hgoes ?_, ?_, hj',
      ?_⟩
    · rw [runFolds, Work.run_bind, hfold]
      dsimp only
      rw [Work.run_bind, hrun]
      rfl
    · rw [hfold]
      exact hends
    · rw [List.map_cons, List.map_cons, hfailed]
    · rw [hhistory, hhistory₁, List.append_assoc]
      split <;> rfl

/-! Whole runs. -/

def Prepared (X y : Data) (frame : Frame) (target : Series) : Prop :=
  X.toFrame = .ok frame ∧ y.toTarget frame = .ok (some target)

/-- How a run ends, with its journal and its outcome. -/
inductive Ends (v : Validator) (t : Trainable) (X y : Data) (j : Journal) (w : Workspace) :
    Journal → Except Failure ValidationResult → Prop where
  | unprepared {e : Failure} (hdata : ∀ frame target, ¬ Prepared X y frame target) :
    Ends v t X y j w j (.error e)
  | unsplit {frame : Frame} {target : Series} {e : Failure} {j' : Journal}
    (hdata : Prepared X y frame target) (hsplit : v.split frame target = .error e)
    (hhistory : j'.history = [.idle, .splitting]) : Ends v t X y j w j' (.error e)
  | refused {frame : Frame} {target : Series} {folds : List Fold} {e : Failure} {j' : Journal}
    (hdata : Prepared X y frame target) (hsplit : v.split frame target = .ok folds)
    (hrefused : (t.text w).1 = .error e ∨ v.checkJobs = .error e)
    (hhistory : j'.history = [.idle, .splitting]) : Ends v t X y j w j' (.error e)
  | failed {frame : Frame} {target : Series} {folds : List Fold} {j' : Journal} {text : String}
    {w₁ : Workspace} {ends : List (List Stage × Bool)} {records : List ScoreRecord}
    (hdata : Prepared X y frame target) (hsplit : v.split frame target = .ok folds)
    (htext : t.text w = (.ok text, w₁)) (hjobs : v.checkJobs = .ok ())
    (hfolds : GoThrough t v.metric frame target folds w₁ ends)
    (hall : ∀ f ∈ ends, f.2 = true)
    (hhistory : j'.history = [.idle, .splitting] ++
      (if v.isSequential then ends.flatMap Prod.fst else []) ++ [.aggregating, .failed]) :
    Ends v t X y j w j' (.error (.allFoldsFailed records))
  | done {frame : Frame} {target : Series} {folds : List Fold} {j' : Journal} {text : String}
    {w₁ : Workspace} {ends : List (List Stage × Bool)}
    {outcome : Except Failure ValidationResult}
    (hdata : Prepared X y frame target) (hsplit : v.split frame target = .ok folds)
    (htext : t.text w = (.ok text, w₁)) (hjobs : v.checkJobs = .ok ())
    (hfolds : GoThrough t v.metric frame target folds w₁ ends)
    (hsome : ∃ f ∈ ends, f.2 = false)
    (hhistory : j'.history = [.idle, .splitting] ++
      (if v.isSequential then ends.flatMap Prod.fst else []) ++ [.aggregating, .done]) :
    Ends v t X y j w j' outcome

/-- The journals that a validator can have: that of a new one, and those after its runs, whatever
it runs. -/
inductive Reached (v : Validator) : Journal → Prop where
  | opened (followed : Bool) : Reached v (.opened followed)
  | run {t : Trainable} {X y : Data} {expression : Value} {j j' : Journal} {w w' : Workspace}
    {outcome : Except Failure ValidationResult} (hj : Reached v j)
    (hrun : v.run t X y expression j w = (.ok (j', outcome), w')) : Reached v j'

theorem conclude_done (expression : Value) {records : List ScoreRecord} (j : Journal)
    (h : ∃ r ∈ records, r.failed = false) : ∃ outcome,
      v.conclude expression records j = ((j.enter .aggregating).enter .done, outcome) := by
  have hsome : records.all (·.failed) = false := by
    rw [List.all_eq_false]
    exact h.imp fun r hr => ⟨hr.1, by simp [hr.2]⟩
  unfold conclude
  rw [if_neg (by rw [hsome]; decide)]
  exact ⟨_, rfl⟩

theorem conclude_failed {expression : Value} {records : List ScoreRecord} {j : Journal}
    (h : ∀ r ∈ records, r.failed = true) : v.conclude expression records j =
      ((j.enter .aggregating).enter .failed, .error (.allFoldsFailed records)) := by
  unfold conclude
  rw [if_pos (List.all_eq_true.2 h)]

variable {expression : Value} {frame : Frame} {target : Series} {e : Failure}

theorem run_unprepared {X y : Data} (expression : Value)
    (h : ∀ frame target, ¬ Prepared X y frame target) :
    ∃ e, v.run t X y expression j w = (.ok (j, .error e), w) := by
  unfold run
  cases hframe : X.toFrame with
  | error e => exact ⟨e, rfl⟩
  | ok frame =>
    rw [Except.bind_ok]
    cases htarget : y.toTarget frame with
    | error e => exact ⟨e, rfl⟩
    | ok target? =>
      cases target? with
      | none => exact ⟨_, rfl⟩
      | some target => exact absurd ⟨hframe, htarget⟩ (h frame target)

theorem run_unsplit {X y : Data} (h : Prepared X y frame target)
    (hsplit : v.split frame target = .error e) :
    v.run t X y expression j w = (.ok (j.restart.enter .splitting, .error e), w) := by
  simp only [run, h.1, h.2, Except.bind_ok, Except.pure_ok, hsplit]
  rfl

theorem run_refused {X y : Data} {w₁ : Workspace} (h : Prepared X y frame target)
    (hsplit : v.split frame target = .ok folds)
    (hstart : (do let _ ← t.text; v.checkJobs : Work Unit) w = (.error e, w₁)) :
    v.run t X y expression j w = (.ok (j.restart.enter .splitting, .error e), w₁) := by
  simp only [run, h.1, h.2, Except.bind_ok, Except.pure_ok, hsplit]
  refine (Work.run_attempt_bind _ _ w).trans ?_
  rw [hstart]
  rfl

theorem run_completed {X y : Data} {w₁ w₂ : Workspace} {records : List ScoreRecord} {j₁ : Journal}
    (expression : Value) (h : Prepared X y frame target) (hsplit : v.split frame target = .ok folds)
    (hstart : (do let _ ← t.text; v.checkJobs : Work Unit) w = (.ok (), w₁))
    (hfolds : v.runFolds t frame target folds.length folds (j.restart.enter .splitting) w₁ =
      (.ok (records, j₁), w₂)) :
    v.run t X y expression j w = (.ok (v.conclude expression records j₁), w₂) := by
  simp only [run, h.1, h.2, Except.bind_ok, Except.pure_ok, hsplit]
  refine (Work.run_attempt_bind _ _ w).trans ?_
  rw [hstart]
  dsimp only
  rw [Work.run_bind, hfolds]
  rfl

theorem run_ends (v : Validator) (t : Trainable) (X y : Data) (expression : Value) (j : Journal)
    (w : Workspace) : ∃ j' outcome w',
      v.run t X y expression j w = (.ok (j', outcome), w') ∧
      (j.Current → j'.Current) ∧ Ends v t X y j w j' outcome := by
  by_cases hdata : ∃ frame target, Prepared X y frame target
  swap
  · have hnone : ∀ frame target, ¬ Prepared X y frame target := fun frame target h =>
      hdata ⟨frame, target, h⟩
    obtain ⟨e, hrun⟩ := run_unprepared (v := v) (t := t) (j := j) (w := w) expression hnone
    exact ⟨j, _, w, hrun, id, .unprepared hnone⟩
  obtain ⟨frame, target, hdata⟩ := hdata
  have hj₀ : (j.restart.enter .splitting).Current := .enter _ _
  rcases hsplit : v.split frame target with e | folds
  · exact ⟨_, _, w, run_unsplit hdata hsplit, fun _ => hj₀, .unsplit hdata hsplit rfl⟩
  rcases htext : t.text w with ⟨e | text, w₁⟩
  · refine ⟨_, _, w₁, run_refused hdata hsplit ?_, fun _ => hj₀,
      .refused hdata hsplit (.inl (by rw [htext])) rfl⟩
    rw [Work.run_bind, htext]
  rcases hjobs : v.checkJobs with e | _
  · refine ⟨_, _, w₁, run_refused hdata hsplit ?_, fun _ => hj₀,
      .refused hdata hsplit (.inr hjobs) rfl⟩
    rw [Work.run_bind, htext, hjobs]
    rfl
  have hstart : (do let _ ← t.text; v.checkJobs : Work Unit) w = (.ok (), w₁) := by
    rw [Work.run_bind, htext, hjobs]
    rfl
  obtain ⟨records, j₁, w₂, ends, hrun, hends, hfailed, hj₁, hhistory⟩ :=
    runFolds_goThrough v t frame target folds.length folds hj₀ w₁
  have hrun := run_completed expression hdata hsplit hstart hrun
  have hlast : ∀ stage, ((j₁.enter .aggregating).enter stage).history = [.idle, .splitting] ++
      (if v.isSequential then ends.flatMap Prod.fst else []) ++ [.aggregating, stage] := by
    intro stage
    rw [Journal.enter, Journal.enter, hhistory, List.append_assoc]
    rfl
  by_cases hall : ∀ f ∈ ends, f.2 = true
  · have hrecords : ∀ r ∈ records, r.failed = true := by
      intro r hr
      have hmem : r.failed ∈ ends.map Prod.snd := hfailed ▸ List.mem_map_of_mem hr
      obtain ⟨f, hf, hfr⟩ := List.mem_map.1 hmem
      rw [← hfr]
      exact hall f hf
    rw [conclude_failed hrecords] at hrun
    exact ⟨_, _, w₂, hrun, fun _ => .enter _ _,
      .failed hdata hsplit htext hjobs hends hall (hlast .failed)⟩
  · have hsome : ∃ f ∈ ends, f.2 = false := by simpa using hall
    have hrecords : ∃ r ∈ records, r.failed = false := by
      obtain ⟨f, hf, hff⟩ := hsome
      have hmem : f.2 ∈ records.map (·.failed) := hfailed ▸ List.mem_map_of_mem hf
      obtain ⟨r, hr, hrf⟩ := List.mem_map.1 hmem
      exact ⟨r, hr, hrf.trans hff⟩
    obtain ⟨outcome, hconclude⟩ := conclude_done (v := v) expression j₁ hrecords
    rw [hconclude] at hrun
    exact ⟨_, _, w₂, hrun, fun _ => .enter _ _,
      .done hdata hsplit htext hjobs hends hsome (hlast .done)⟩

/-- Whatever a validator ran before, its present stage is the last one of its history, and its next
run ends in one of the documented ways. A single worker goes through the folds one by one, and no
workers at all are refused. -/
theorem run_history (v : Validator) (j : Journal) (hj : v.Reached j) :
    j.history.getLast? = some j.stage ∧
    (∀ (t : Trainable) (X y : Data) (expression : Value) (w : Workspace), ∃ j' outcome w',
      v.run t X y expression j w = (.ok (j', outcome), w') ∧ Ends v t X y j w j' outcome) ∧
    ∀ n : Int, v.jobs = .int n →
      (v.isSequential = true ↔ n = 1) ∧ (v.checkJobs = .ok () ↔ n ≠ 0) := by
  refine ⟨?_, fun t X y expression w => ?_, fun n hjobs =>
    ⟨isSequential_int n hjobs, checkJobs_int n hjobs⟩⟩
  · induction hj with
    | opened followed => exact Journal.Current.opened followed
    | run hj hrun ih =>
      obtain ⟨j', outcome, w', hends, hcurrent, -⟩ := run_ends v _ _ _ _ _ _
      rw [hends] at hrun
      cases hrun
      exact hcurrent ih
  · obtain ⟨j', outcome, w', hrun, -, hends⟩ := run_ends v t X y expression j w
    exact ⟨j', outcome, w', hrun, hends⟩

def ofTwo (jobs : Int) : Validator :=
  ⟨⟨"constant", true, fun _ _ => .ok 1.0⟩, .int 2, .text "kfold", .bool false, .null, .int jobs⟩

def echo : Trainable := ⟨pure "echo", pure ⟨0, []⟩, fun _ _ _ => pure (), fun _ X => pure X⟩

def two : Frame := ⟨rangeIndex 2, [⟨.text "x", .int64, [.int 1, .int 2]⟩]⟩

def scores : Series := ⟨⟨.null, .int64, [.int 1, .int 2]⟩, rangeIndex 2⟩

def quiet : Workspace := ⟨.empty, [], false⟩

theorem run_history_two : ∃ j outcome w',
    (ofTwo 1).run echo (.frame two) (.series scores) .null .fresh quiet = (.ok (j, outcome), w') ∧
    j.history = [.idle, .splitting, .fitTrain, .predictTest, .score, .fitTrain, .predictTest,
      .score, .aggregating, .done] ∧
    j.history.getLast? = some j.stage ∧
    (∀ (t : Trainable) (X y : Data) (expression : Value) (w : Workspace), ∃ j' outcome w',
      (ofTwo 1).run t X y expression j w = (.ok (j', outcome), w') ∧
      Ends (ofTwo 1) t X y j w j' outcome) ∧
    (ofTwo 1).isSequential = true ∧ (ofTwo 1).checkJobs = .ok () := by
  have hok : ∃ j outcome w', (ofTwo 1).run echo (.frame two) (.series scores) .null .fresh quiet =
      (.ok (j, outcome), w') ∧ j.history = [.idle, .splitting, .fitTrain, .predictTest, .score,
        .fitTrain, .predictTest, .score, .aggregating, .done] :=
    ⟨_, _, _, rfl, by decide +kernel⟩
  obtain ⟨j, outcome, w', hrun, hhistory⟩ := hok
  obtain ⟨hstage, hruns, hjobs⟩ := run_history (ofTwo 1) j (.run (.opened false) hrun)
  obtain ⟨hsequential, haccepted⟩ := hjobs 1 rfl
  exact ⟨j, outcome, w', hrun, hhistory, hstage, hruns, hsequential.2 rfl,
    haccepted.2 (by decide)⟩

/-- No workers cannot run any folds: the run stops before them. -/
theorem run_without_workers : ∃ j outcome w',
    Prepared (.frame two) (.series scores) two scores ∧ ((ofTwo 0).split two scores).isOk = true ∧
    (ofTwo 0).run echo (.frame two) (.series scores) .null .fresh quiet = (.ok (j, outcome), w') ∧
    j.history = [.idle, .splitting] :=
  ⟨_, _, _, ⟨rfl, rfl⟩, by decide +kernel, rfl, by decide +kernel⟩

end Validator
end ColumnFlow
