import ColumnFlow.Settings.Basic

/-!
Where notices go. A configuration has a level and handlers: a rotating file, if one is named, and
the console. Configuring again replaces all handlers.
-/
namespace ColumnFlow.Logging

inductive Handler where
  | file (path : String) (maxBytes backups : Value)
  | console

/-- A level, which all handlers share, and the handlers in order. -/
structure Configuration where
  level : Nat
  handlers : List Handler

/-- Before anything is configured there is no level and no handler. -/
def Configuration.none : Configuration := ⟨0, []⟩

/-- What a caller asks for. -/
structure Request where
  level : Value
  file : Value
  maxBytes : Value
  backups : Value

/-- The size at which a file is rotated, unless another is asked for. -/
def maxBytes : Value := .int 10485760

/-- How many rotated files are kept, unless another number is asked for. -/
def backups : Value := .int 5

def fileFormat : String :=
  "%(asctime)s [%(levelname)8s] %(name)s: %(message)s [%(filename)s:%(lineno)d in %(funcName)s()]"

def consoleFormat : String := "%(levelname)s: %(name)s: %(message)s"

def levels : List (String × Nat) :=
  [("NOTSET", 0), ("DEBUG", 10), ("INFO", 20), ("WARN", 30), ("WARNING", 30), ("ERROR", 40),
    ("CRITICAL", 50), ("FATAL", 50)]

/-- The number of a level name in any case; unknown names count as INFO. Two names stand for other
things, which are no levels. -/
def levelOf (name : String) : Except Failure Nat :=
  match Text.upper name with
  | "BASIC_FORMAT" => .error (.unusable .value)
  | "_STYLES" => .error (.unusable .type)
  | name => .ok ((levels.lookup name).getD 20)

/-- Goes through the parts of a path: a dot stays in place, and two go back. -/
def step (done : List String) (part : String) : List String :=
  if part == "" || part == "." then done
  else if part == ".." then
    match done with
    | [] => [part]
    | last :: rest => if last == ".." then part :: done else rest
  else part :: done

/-- The shortest path to the same place. -/
def shortest (path : String) : String :=
  "/".intercalate (((path.splitOn "/").foldl step []).reverse)

/-- Whether a path leads to a directory. -/
def isDirectory (path : String) : Bool :=
  ["", ".", ".."].contains ((path.splitOn "/").getLastD "")

/-- The file to write to, if one is named, under the sizes that were asked for. -/
def fileHandlers (r : Request) (path : String) : Except Failure (List Handler) :=
  if path.isEmpty then .ok []
  else if path.contains '\x00' then .error (.unusable .value)
  else match r.maxBytes with
    | .scalar (.int _) | .scalar (.float _) | .scalar (.bool _) =>
      if isDirectory path then .error (.unusable .directory)
      else .ok [.file (shortest path) r.maxBytes r.backups]
    | _ => .error (.unusable .type)

/-- The path that a value names; what counts as false names none. -/
def pathOf (file : Value) : Except Failure String :=
  match file with
  | .scalar (.text path) => .ok path
  | v => if v.isTrue then .error (.unusable .type) else .ok ""

def configuration (level path : String) (r : Request) : Except Failure Configuration := do
  let level ← levelOf level
  return ⟨level, (← fileHandlers r path) ++ [.console]⟩

/-- The settings are asked for a level, and for a file, only where no level is given. -/
def configure (settings : Except Failure Settings) (r : Request) :
    Except Failure Configuration := do
  let path ← pathOf r.file
  match r.level with
  | .scalar .null =>
    let s ← settings
    configuration s.logLevel (if path.isEmpty then s.logFile.getD "" else path) r
  | .scalar (.text level) => configuration level path r
  | _ => throw (.unusable .attribute)

end ColumnFlow.Logging
