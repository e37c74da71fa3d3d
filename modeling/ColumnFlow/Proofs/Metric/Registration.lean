import ColumnFlow.Metric.Probe
import ColumnFlow.Proofs.CrossValidation.Records
import ColumnFlow.Proofs.Node.Refit
import ColumnFlow.Session
import Mathlib

/-!
# Registered metrics

A metric that is registered under a name of its own answers to that name from then on, and whatever
looks the name up scores by it. Second names come before registered ones: they keep leading to the
metric they stand for, so a registration under a second name is never found.
-/
namespace ColumnFlow

namespace Metric

variable {ms : List Metric} {x y : String} {m : Metric}

/-- The metric that was registered last under a name. -/
def last (ms : List Metric) (x : String) : Option Metric := ms.reverse.find? fun m => m.name == x

theorem last_append (ms : List Metric) (m : Metric) (x : String) :
    last (ms ++ [m]) x = if x = m.name then some m else last ms x := by
  unfold last
  rw [List.reverse_append, List.reverse_singleton, List.singleton_append, List.find?_cons]
  by_cases hx : x = m.name
  · rw [if_pos hx, beq_iff_eq.2 hx.symm]
  · rw [if_neg hx, beq_eq_false_iff_ne.2 (Ne.symm hx)]

theorem name_of_last (h : last ms x = some m) : m.name = x := by
  simpa using List.find?_some h

theorem canonical_of_none (hx : aliases.lookup x = none) : canonical x = x := by
  unfold canonical
  rw [hx]
  rfl

theorem canonical_of_some (hx : aliases.lookup x = some y) : canonical x = y := by
  unfold canonical
  rw [hx]
  rfl

/-- What a second name stands for is no second name, and is there from the start. -/
theorem canonical_alias (hx : aliases.lookup x = some y) :
    aliases.lookup y = none ∧ (MetricTable.builtin.entries.lookup y).isSome = true := by
  have hall : ∀ p ∈ aliases, aliases.lookup p.2 = none ∧
      (MetricTable.builtin.entries.lookup p.2).isSome = true := by decide
  obtain ⟨before, after, haliases, -⟩ := List.lookup_eq_some_iff.1 hx
  exact hall (x, y) (haliases ▸ List.mem_append_right _ List.mem_cons_self)

theorem canonical_canonical (x : String) : canonical (canonical x) = canonical x := by
  cases hx : aliases.lookup x with
  | none => rw [canonical_of_none hx, canonical_of_none hx]
  | some y => rw [canonical_of_some hx, canonical_of_none (canonical_alias hx).1]

theorem eq_empty_of_canonical (h : canonical x = "") : x = "" := by
  cases hx : aliases.lookup x with
  | none => rwa [canonical_of_none hx] at h
  | some y =>
    obtain rfl : y = "" := (canonical_of_some hx).symm.trans h
    exact absurd (canonical_alias hx).2 (by decide)

end Metric

namespace MetricTable
open ColumnFlow.Metric

variable {t : MetricTable} {ms : List Metric} {x y : String} {m : Metric}

/-- The built-in table after some registrations. -/
def registered (ms : List Metric) : MetricTable :=
  ms.foldl (fun t m => t.register m.name m) .builtin

theorem metrics_registerMetric (ms : List Metric) :
    (ms.foldl (fun s m => s.registerMetric m.name m.greaterIsBetter m.score) Session.fresh).metrics =
      registered ms := by
  unfold registered
  induction ms using List.reverseRecOn with
  | nil => rfl
  | append_singleton ms m ih =>
    rw [List.foldl_append, List.foldl_append, List.foldl_cons, List.foldl_cons, ← ih]
    rfl

theorem lookup_register (t : MetricTable) (x y : String) (m : Metric) :
    (t.register x m).entries.lookup y = if y = x then some m else t.entries.lookup y := by
  have hfilter : (t.entries.filter fun e => e.1 != x).lookup y =
      if y = x then none else t.entries.lookup y := by
    induction t.entries with
    | nil => simp
    | cons e entries ih =>
      obtain ⟨z, n⟩ := e
      by_cases hz : z = x <;> by_cases hy : y = x <;> grind
  unfold register
  rw [List.lookup_append, hfilter]
  by_cases hy : y = x
  · simp [hy]
  · have hlast : [(x, m)].lookup y = none := List.lookup_eq_none_iff.2 fun e he => by grind
    simp [hlast, hy]

theorem lookup_registered (ms : List Metric) (x : String) :
    (registered ms).entries.lookup x = (last ms x).or (builtin.entries.lookup x) := by
  unfold registered
  induction ms using List.reverseRecOn with
  | nil => rfl
  | append_singleton ms m ih =>
    rw [List.foldl_append, List.foldl_cons, List.foldl_nil, lookup_register, ih, last_append]
    split <;> rfl

theorem get_text (t : MetricTable) (x : String) :
    t.get (.text x) = (t.entries.lookup (canonical x)).elim
      (.error (.unknownMetric (.text x) t.names)) .ok := rfl

theorem toOption_get (t : MetricTable) (x : String) :
    (t.get (.text x)).toOption = t.entries.lookup (canonical x) := by
  rw [get_text]
  cases t.entries.lookup (canonical x) <;> rfl

theorem get_eq_ok (t : MetricTable) (x : String) (m : Metric) :
    t.get (.text x) = .ok m ↔ t.entries.lookup (canonical x) = some m := by
  rw [← toOption_get]
  cases t.get (.text x) <;> simp [Except.toOption]

/-- Whatever is found has the name under which the table has it. -/
theorem name_of_get (h : (registered ms).get (.text x) = .ok m) : m.name = canonical x := by
  rw [get_eq_ok, lookup_registered] at h
  cases hlast : last ms (canonical x) with
  | some m' =>
    rw [hlast] at h
    obtain rfl := Option.some.inj h
    exact name_of_last hlast
  | none =>
    rw [hlast] at h
    have hbuiltin : ∀ e ∈ builtin.entries, e.2.name = e.1 := by decide
    obtain ⟨before, after, hentries, -⟩ := List.lookup_eq_some_iff.1 h
    exact hbuiltin (canonical x, m) (hentries ▸ List.mem_append_right _ List.mem_cons_self)

theorem get_name (h : (registered ms).get (.text x) = .ok m) :
    (registered ms).get (.text m.name) = .ok m := by
  rw [get_eq_ok] at h ⊢
  rw [name_of_get ((get_eq_ok _ x m).2 h), canonical_canonical, h]

end MetricTable

namespace Validator

variable {env : Surroundings} {defaults : Settings} {v : Validator} {w w' : Workspace} {m : Metric}

theorem metric_of_create {r : ValidatorRequest} (hsettings : env.settings = .ok defaults)
    (h : create env r w = (.ok v, w')) :
    env.metrics.get (r.metric.given (.text defaults.defaultMetric)) = .ok v.metric := by
  unfold create at h
  rw [Work.run_bind, Work.run_settings hsettings] at h
  dsimp only at h
  obtain ⟨m, w₁, hm, h⟩ := Work.ok_of_bind h
  have hlookup : env.metrics.get (r.metric.given (.text defaults.defaultMetric)) = .ok m := by
    cases hget : env.metrics.get (r.metric.given (.text defaults.defaultMetric)) with
    | error e =>
      rw [hget] at hm
      cases hm
    | ok m' =>
      rw [hget] at hm
      cases hm
      rfl
  obtain ⟨count, w₂, -, h⟩ := Work.ok_of_bind h
  split at h
  · cases h
  · split at h
    · cases h
    · cases h
      exact hlookup

/-- A result in which every score was given by a metric. -/
structure ScoredBy (m : Metric) (result : ValidationResult) : Prop where
  summary : result.summary.metric = m.name
  folds : ∀ r ∈ result.folds, ∀ score, r.score = some score →
    ∃ truth output, scoreOf m truth output = .ok score

theorem Recorded.scored {t : Trainable} {X : Frame} {y : Series} {folds : List Fold}
    {records : List ScoreRecord} (h : Recorded t m X y folds w records) :
    ∀ r ∈ records, ∀ score, r.score = some score →
      ∃ truth output, scoreOf m truth output = .ok score := by
  induction h with
  | nil => simp
  | @cons fold folds w records hrest ih =>
    intro r hr score hscore
    rcases List.mem_cons.1 hr with rfl | hr
    · unfold judged at hscore
      split at hscore
      case h_1 score' hjudged =>
        obtain ⟨output, -, houtput⟩ := Except.exists_of_bind hjudged
        obtain rfl := Option.some.inj hscore
        exact ⟨_, output, houtput⟩
      case h_2 => cases hscore
    · exact ih r hr score hscore

theorem run_scored {t : Trainable} {X y : Data} {expression : Value} {j j' : Journal}
    {result : ValidationResult} (h : v.run t X y expression j w = (.ok (j', .ok result), w')) :
    ScoredBy v.metric result := by
  by_cases hprepared : ∃ frame target, Prepared X y frame target
  · obtain ⟨frame, target, hprepared⟩ := hprepared
    cases hsplit : v.split frame target with
    | error e =>
      rw [run_unsplit hprepared hsplit] at h
      cases h
    | ok folds =>
      rcases hstart : (do let _ ← t.text; v.checkJobs : Work Unit) w with ⟨e | _, w₁⟩
      · rw [run_refused hprepared hsplit hstart] at h
        cases h
      · obtain ⟨records, j₁, w₂, hrun, hrecords⟩ :=
          Starts.exists_run ⟨hprepared, hsplit, hstart⟩ expression j
        rw [hrun] at h
        by_cases hall : ∀ r ∈ records, r.failed = true
        · rw [conclude_failed hall] at h
          cases h
        · have hsome : ∃ r ∈ records, r.failed = false := by simpa using hall
          rw [conclude_summarised expression j₁ hsome] at h
          cases htext : expressionOf expression with
          | error e =>
            rw [htext] at h
            cases h
          | ok text =>
            rw [htext] at h
            cases h
            exact ⟨rfl, hrecords.scored⟩
  · simp only [not_exists] at hprepared
    obtain ⟨e, he⟩ := run_unprepared (t := t) (v := v) (j := j) (w := w) expression hprepared
    rw [he] at h
    cases h

theorem crossValidate_scored {request : ValidatorRequest} {X y : Data} {r : Runnable}
    {result : ValidationResult} (hsettings : env.settings = .ok defaults)
    (hm : env.metrics.get (request.metric.given (.text defaults.defaultMetric)) = .ok m)
    (h : r.crossValidate env request X y w = (.ok result, w')) : ScoredBy m result := by
  have hrun : ∀ (t : Trainable) (expression : Value),
      (do
        let v ← create env request
        let run ← v.run t X y expression .fresh
        run.2 : Work ValidationResult) w = (.ok result, w') → ScoredBy m result := by
    intro t expression h
    obtain ⟨v, w₁, hv, h⟩ := Work.ok_of_bind h
    obtain ⟨⟨j, outcome⟩, w₂, hrun, h⟩ := Work.ok_of_bind h
    obtain rfl : v.metric = m := by
      have hmetric := metric_of_create hsettings hv
      rw [hm] at hmetric
      exact (Except.ok.inj hmetric).symm
    cases outcome with
    | error e => cases h
    | ok result' =>
      cases h
      exact run_scored hrun
  cases r with
  | node n => exact hrun _ _ h
  | executor n name => exact hrun _ _ h
  | pipeline p name => exact hrun _ _ h

end Validator

namespace Plan

variable {env : Surroundings} {defaults : Settings} {m : Metric} {ms : List Metric} {x : String}

theorem validator_metric {policy : SelectionPolicy} {seed : Value} {v : Validator}
    {w w' : Workspace} (hmetrics : env.metrics = .registered ms)
    (hsettings : env.settings = .ok defaults)
    (hx : policy.metric.given (.text defaults.defaultMetric) = .text x)
    (hm : env.metrics.get (.text x) = .ok m)
    (h : policy.validator env m seed w = (.ok v, w')) : v.metric = m := by
  have hlookup := Validator.metric_of_create hsettings h
  rw [hmetrics] at hm hlookup
  -- A name without letters would count as none, and then it is the default that has no letters.
  have hname : (Value.text m.name).given (.text defaults.defaultMetric) = .text m.name := by
    by_cases hempty : m.name = ""
    · obtain rfl : x = "" :=
        Metric.eq_empty_of_canonical ((MetricTable.name_of_get hm).symm.trans hempty)
      have hdefault : policy.metric.given (.text defaults.defaultMetric) =
          .text defaults.defaultMetric := by
        unfold Value.given at hx ⊢
        split at hx
        case isTrue htrue =>
          rw [hx] at htrue
          cases htrue
        case isFalse hfalse => rw [if_neg hfalse]
      rw [hempty, ← hdefault, hx]
      rfl
    · exact if_pos (by simpa [Value.isTrue, Scalar.isTrue] using hempty)
  rw [hname, MetricTable.get_name hm] at hlookup
  exact (Except.ok.inj hlookup).symm

/-- A choice by a metric that is found under the name in its policy. -/
theorem fit_best_by {policy : SelectionPolicy} (hsettings : env.settings = .ok defaults)
    (hm : env.metrics.get (policy.metric.given (.text defaults.defaultMetric)) = .ok m)
    (ps : List Plan) (s : Site) (X : Frame) (y : Option Series) :
    fit env (.best ps policy) s X y = Work.fitting s X y (fun y => do
      let y ← Work.requireTarget "BestLearner" s y
      let _ ← Work.settings env
      let scores ← candidateScores env policy m defaults ps s X y
      fitChosen env m ps s X y scores) := by
  rw [fit_best]
  congr 1
  funext y
  congr 1
  funext y w
  rw [Work.run_bind, Work.run_bind, Work.run_settings hsettings]
  dsimp only
  rw [hm, Work.run_ok_bind]

end Plan

/-- What scores by the metric of a name, whether the name was asked for or is the default. -/
structure ScoresBy (env : Surroundings) (defaults : Settings) (x : String) (m : Metric) : Prop where
  validator : ∀ r w v w', r.metric.given (.text defaults.defaultMetric) = .text x →
    Validator.create env r w = (.ok v, w') → v.metric = m ∧
      ∀ t X y expression j u j' result u', v.run t X y expression j u = (.ok (j', .ok result), u') →
        Validator.ScoredBy m result
  crossValidate : ∀ (r : Runnable) request X y w result w',
    request.metric.given (.text defaults.defaultMetric) = .text x →
      r.crossValidate env request X y w = (.ok result, w') → Validator.ScoredBy m result
  best : ∀ policy : SelectionPolicy, policy.metric.given (.text defaults.defaultMetric) = .text x →
    (∀ ps s X y, Plan.fit env (.best ps policy) s X y = Work.fitting s X y (fun y => do
      let y ← Work.requireTarget "BestLearner" s y
      let _ ← Work.settings env
      let scores ← Plan.candidateScores env policy m defaults ps s X y
      Plan.fitChosen env m ps s X y scores)) ∧
    ∀ seed w v w', policy.validator env m seed w = (.ok v, w') → v.metric = m

namespace MetricTable
open ColumnFlow.Metric

variable {ms : List Metric} {x y : String} {m : Metric}

theorem scoresBy_of_get {env : Surroundings} {defaults : Settings}
    (hmetrics : env.metrics = registered ms) (hsettings : env.settings = .ok defaults)
    (hm : (registered ms).get (.text x) = .ok m) : ScoresBy env defaults x m := by
  rw [← hmetrics] at hm
  refine ⟨fun r w v w' hx hv => ?_, fun r request X y w result w' hx hr => ?_,
    fun policy hx => ⟨fun ps s X y => ?_, fun seed w v w' hv => ?_⟩⟩
  · have hmetric := Validator.metric_of_create hsettings hv
    rw [hx, hm] at hmetric
    obtain rfl := Except.ok.inj hmetric
    exact ⟨rfl, fun _ _ _ _ _ _ _ _ _ hrun => Validator.run_scored hrun⟩
  · exact Validator.crossValidate_scored hsettings (hx ▸ hm) hr
  · exact Plan.fit_best_by hsettings (hx ▸ hm) ps s X y
  · exact Plan.validator_metric hmetrics hsettings hx hm hv

theorem unknown_iff : (registered ms).get (.text x) =
      .error (.unknownMetric (.text x) (registered ms).names) ↔
    last ms x = none ∧ builtin.entries.lookup x = none ∧ aliases.lookup x = none := by
  have hnone : (registered ms).get (.text x) =
      .error (.unknownMetric (.text x) (registered ms).names) ↔
        (registered ms).entries.lookup (canonical x) = none := by
    rw [get_text]
    cases (registered ms).entries.lookup (canonical x) <;> simp
  rw [hnone, lookup_registered, Option.or_eq_none_iff]
  cases hx : aliases.lookup x with
  | none => simp [canonical_of_none hx]
  | some y =>
    have hthere := (canonical_alias hx).2
    rw [canonical_of_some hx]
    constructor
    · rintro ⟨-, hy⟩
      rw [hy] at hthere
      cases hthere
    · rintro ⟨-, -, hy⟩
      cases hy

theorem register_elsewhere (hx : x ≠ m.name) (hal : aliases.lookup x ≠ some m.name) :
    ((registered (ms ++ [m])).get (.text x)).toOption =
      ((registered ms).get (.text x)).toOption := by
  have hcanonical : canonical x ≠ m.name := by
    cases hlookup : aliases.lookup x with
    | none => rwa [canonical_of_none hlookup]
    | some y =>
      rw [canonical_of_some hlookup]
      rintro rfl
      exact hal hlookup
  rw [toOption_get, toOption_get, lookup_registered, lookup_registered, last_append,
    if_neg hcanonical]

/-- A registration takes effect unless its name is a second name. -/
theorem registration_takes_effect (ms : List Metric) :
    (∀ x m, aliases.lookup x = none → last ms x = some m →
      (registered ms).get (.text x) = .ok m ∧
      ∀ env defaults, env.metrics = registered ms → env.settings = .ok defaults →
        ScoresBy env defaults x m) ∧
    (∀ x, aliases.lookup x = none → last ms x = none →
      ((registered ms).get (.text x)).toOption = builtin.entries.lookup x) ∧
    (∀ x y, aliases.lookup x = some y →
      ((registered ms).get (.text x)).toOption = ((registered ms).get (.text y)).toOption) ∧
    (∀ x, (registered ms).get (.text x) =
        .error (.unknownMetric (.text x) (registered ms).names) ↔
      last ms x = none ∧ builtin.entries.lookup x = none ∧ aliases.lookup x = none) ∧
    ∀ x m, x ≠ m.name → aliases.lookup x ≠ some m.name →
      ((registered (ms ++ [m])).get (.text x)).toOption =
        ((registered ms).get (.text x)).toOption := by
  refine ⟨fun x m hx hm => ?_, fun x hx hm => ?_, fun x y hx => ?_, fun x => unknown_iff,
    fun x m => register_elsewhere⟩
  · have hget : (registered ms).get (.text x) = .ok m := by
      rw [get_eq_ok, canonical_of_none hx, lookup_registered, hm]
      rfl
    exact ⟨hget, fun env defaults henv hsettings => scoresBy_of_get henv hsettings hget⟩
  · rw [toOption_get, canonical_of_none hx, lookup_registered, hm]
    rfl
  · rw [toOption_get, toOption_get, canonical_of_some hx, canonical_of_none (canonical_alias hx).1]

/-- A metric that is registered twice, the second time with another function and direction. -/
theorem registration_takes_effect_twice :
    let ms : List Metric := [⟨"size", true, rowCount⟩, ⟨"size", false, hitCount⟩]
    let env : Surroundings := ⟨.ok .standard, .registered ms⟩
    let request : ValidatorRequest := ⟨.text "size", .null, .null, .null, .null, .null⟩
    (registered ms).get (.text "size") = .ok ⟨"size", false, hitCount⟩ ∧
    (∃ v w', Validator.create env request ⟨.empty, [], false⟩ = (.ok v, w') ∧
      v.metric = ⟨"size", false, hitCount⟩) ∧
    ((registered ms).get (.text "rmse")).toOption =
      ((registered ms).get (.text "root_mean_squared_error")).toOption := by
  intro ms env request
  obtain ⟨hregistered, -, halias, -⟩ := registration_takes_effect ms
  obtain ⟨hget, hscores⟩ := hregistered "size" ⟨"size", false, hitCount⟩ (by decide) rfl
  refine ⟨hget, ?_, halias "rmse" "root_mean_squared_error" (by decide)⟩
  have hsome : (Validator.create env request ⟨.empty, [], false⟩).1.isOk = true := by
    decide +kernel
  rcases hcreate : Validator.create env request ⟨.empty, [], false⟩ with ⟨e | v, w'⟩
  · rw [hcreate] at hsome
    cases hsome
  · exact ⟨v, w', rfl, (((hscores env .standard rfl rfl).validator request _ v w' rfl hcreate)).1⟩

/-- What is registered under a second name is not found. -/
theorem registration_under_alias : ¬ ∀ (ms : List Metric) (x : String) (m : Metric),
    last ms x = some m → (registered ms).get (.text x) = .ok m := by
  intro h
  have hget := h [⟨"mse", true, fixed 1.0⟩] "mse" ⟨"mse", true, fixed 1.0⟩ rfl
  have hname := name_of_get hget
  revert hname
  decide

end MetricTable

end ColumnFlow
