import ColumnFlow.Frame.Basic
import ColumnFlow.Logged
import ColumnFlow.Value.Options

/-!
Leaves of a node tree. A transformer learns parameters from a frame, and a learner a model from a
frame and a target; what they have learned is a value that holds all that is needed later. An
element learns nothing. Leaves are functions of what they are given and of their options.
-/
namespace ColumnFlow

/-- What a transformer has learned: named parameters, and how a frame is transformed under them. -/
structure Fitted where
  params : Options
  apply : Options → Frame → Logged Frame.Extract
  /-- Whether the answer to a frame is that very frame. -/
  returnsInput : Options → Frame → Bool

namespace Fitted

/-- The answer to a frame, which is a series only where a single column was asked for. -/
def answer (f : Fitted) (X : Frame) : Logged Frame.Extract := f.apply f.params X

def run (f : Fitted) (X : Frame) : Logged Frame := do return (← f.answer X).toFrame

def keeps (f : Fitted) (X : Frame) : Bool := f.returnsInput f.params X

/-- Changes some of the parameters. -/
def override (f : Fitted) (changes : Options) : Fitted :=
  { f with params := f.params.update changes }

/-- Nothing was learned, and every frame stays as it is. Columns that are named later cannot be
worked on. -/
def identity : Fitted :=
  ⟨[], fun params X =>
    if (params.getD "columns" .null).isTrue then Logged.fail .key else return .frame X,
    fun _ _ => true⟩

def isHidden : Scalar → Bool
  | .text s => s.endsWith "_object"
  | _ => false

/-- The parameters without those that stand for what has been learned as a whole. -/
def shown (f : Fitted) : Options := f.params.filter fun e => !isHidden e.1

/-- Fails if what has been learned as a whole was overridden. -/
def check (params : Options) (whole : String) : Except Failure Unit :=
  match params.get? whole with
  | some _ => .error (.unusable .attribute)
  | none => .ok ()

end Fitted

structure Transformer where
  binding : String
  options : Options
  calculate : Frame → Logged (Option Fitted)

/-- What a learner has learned. Predictions have one cell for every row; probabilities have one
column for every class, and some models have none. -/
structure Model where
  predict : Frame → Logged Column
  probabilities : Option (Frame → Logged Frame)

/-- What a learner answers: labels, or a probability for every class. -/
inductive OutputMode where
  | labels
  | probabilities
  deriving DecidableEq

namespace OutputMode

def text : OutputMode → String
  | .labels => "predict"
  | .probabilities => "proba"

def read (v : Value) : Except Failure OutputMode :=
  match v with
  | .scalar (.text "predict") => .ok .labels
  | .scalar (.text "proba") => .ok .probabilities
  | _ => .error (.misuse (.outputMode v))

end OutputMode

structure Learner where
  binding : String
  options : Options
  output : OutputMode
  problem : String
  calculate : Frame → Series → Logged (Option Model)

/-- A leaf without learned state. Both steps know the name of the node. -/
structure Element where
  kind : String
  fit : String → Frame → Logged Unit
  transform : String → Frame → Logged Frame
  /-- Whether the answer to every frame is that very frame. -/
  returnsInput : Bool

end ColumnFlow
