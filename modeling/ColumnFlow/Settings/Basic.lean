import ColumnFlow.Failure
import ColumnFlow.Text.Characters

/-!
Settings: the defaults for cross-validation, ensembles and logging. They are read from texts by
name; names that are absent keep their default, and the faults of all names are reported together.
-/
namespace ColumnFlow

structure Settings where
  bestHoldoutSize : Float
  cvFolds : Int
  cvShuffle : Bool
  cvStrategy : String
  defaultMetric : String
  logFile : Option String
  logLevel : String
  nJobs : Int
  randomState : Int
  stackerTrainingProportion : Float

/-- Texts by name. -/
abbrev Environment := List (String × String)

/-- Sets a name to a text, or removes it where there is none. A text may hold anything but the
character zero. -/
def Environment.set (env : Environment) (name : String) (v : Value) : Except Failure Environment :=
  let others := env.filter fun e => e.1 != name
  match v with
  | .scalar .null => .ok others
  | .scalar (.text s) =>
    if s.contains '\x00' then .error (.unusable .value) else .ok ((name, s) :: others)
  | _ => .error (.unusable .type)

namespace Settings

def standard : Settings :=
  ⟨0.2, 10, false, "kfold", "accuracy", none, "INFO", 1, 42, 0.3⟩

def logLevels : List String := ["DEBUG", "INFO", "WARNING", "ERROR", "CRITICAL"]

def strategies : List String := ["kfold", "stratified_kfold"]

def readLogLevel (v : Value) : Except Fault String := do
  let s ← Field.readText v
  if logLevels.contains (Text.upper s) then return Text.upper s
  else throw (.rejected ("Invalid LOG_LEVEL '" ++ s ++ "'"))

def readStrategy (v : Value) : Except Fault String := do
  let s ← Field.readText v
  if strategies.contains (Text.lower s) then return Text.lower s
  else throw (.rejected "CV_STRATEGY must be 'kfold' or 'stratified_kfold'")

def readFolds (v : Value) : Except Fault Int := do
  let n ← Field.readInt v
  if n < 2 then throw (.rejected "CV_FOLDS must be at least 2") else return n

/-- A share strictly between nothing and all. -/
def readFraction (v : Value) : Except Fault Float := do
  let x ← Field.readFloat v
  if 0.0 < x && x < 1.0 then return x
  else throw (.rejected "Fractions must lie strictly between 0 and 1")

/-- One setting: its text if there is one, and the default otherwise. -/
def entry {α : Type} (env : Environment) (name : String) (default : α)
    (read : Value → Except Fault α) : Fields α :=
  Fields.ofField name (match env.lookup name with
    | some s => read (.text s)
    | none => .ok default)

/-- Reads all settings; the faults are in the order of the names. -/
def ofEnvironment (env : Environment) : Fields Settings :=
  let best := entry env "BEST_HOLDOUT_SIZE" standard.bestHoldoutSize readFraction
  let folds := entry env "CV_FOLDS" standard.cvFolds readFolds
  let shuffle := entry env "CV_SHUFFLE" standard.cvShuffle Field.readBool
  let strategy := entry env "CV_STRATEGY" standard.cvStrategy readStrategy
  let metric := entry env "DEFAULT_METRIC" standard.defaultMetric Field.readText
  let file := entry env "LOG_FILE" standard.logFile fun v => (Field.readText v).map some
  let level := entry env "LOG_LEVEL" standard.logLevel readLogLevel
  let jobs := entry env "N_JOBS" standard.nJobs Field.readInt
  let seed := entry env "RANDOM_STATE" standard.randomState Field.readInt
  let stacker :=
    entry env "STACKER_TRAINING_PROPORTION" standard.stackerTrainingProportion readFraction
  (best.both (folds.both (shuffle.both (strategy.both (metric.both (file.both (level.both
    (jobs.both (seed.both stacker))))))))).map
    fun (best, folds, shuffle, strategy, metric, file, level, jobs, seed, stacker) =>
      ⟨best, folds, shuffle, strategy, metric, file, level, jobs, seed, stacker⟩

/-- The settings of an environment, or the failure that names all faults. -/
def read (env : Environment) : Except Failure Settings :=
  match ofEnvironment env with
  | .ok s => .ok s
  | .error faults => .error (.invalidFields faults)

end Settings
end ColumnFlow
