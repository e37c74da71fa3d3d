import ColumnFlow.Failure

/-!
Computations that leave notices. A notice tells of something that is allowed and probably not
meant. A logged computation is a value: the notices in order, and the result or the failure.
-/
namespace ColumnFlow

inductive Notice where
  | noCategorical
  | noNumeric
  | singleCategory (column : Label) (category : String)
  | noProbabilities (node : String)
  | everyFoldFailed (node child : String)
  | foldFailed (fold : Int) (cause : Failure)

def Notice.text : Notice → String
  | .noCategorical => "CategoricalSelector: no categorical columns found; output will be empty."
  | .noNumeric => "NumericSelector: no numeric columns found; output will be empty."
  | .singleCategory column category =>
    "OneHotEncoder: Column '" ++ column.plain ++ "' has only 1 category ('" ++ category
      ++ "') and drop_first is enabled. It produces no encoded features."
  | .noProbabilities node =>
    "Learner '" ++ node ++ "' has no predict_proba; returning class predictions."
  | .everyFoldFailed node child =>
    "BestLearner '" ++ node ++ "': every fold failed for '" ++ child ++ "'"
  | .foldFailed fold cause => s!"Fold {fold} failed: " ++ cause.foldText

structure Logged (α : Type) where
  notices : List Notice
  outcome : Except Failure α

namespace Logged

instance : Monad Logged where
  pure a := ⟨[], .ok a⟩
  bind x f :=
    match x.outcome with
    | .error e => ⟨x.notices, .error e⟩
    | .ok a => ⟨x.notices ++ (f a).notices, (f a).outcome⟩

instance : MonadExceptOf Failure Logged where
  throw e := ⟨[], .error e⟩
  tryCatch x handle :=
    match x.outcome with
    | .ok _ => x
    | .error e => ⟨x.notices ++ (handle e).notices, (handle e).outcome⟩

def note (n : Notice) : Logged Unit := ⟨[n], .ok ()⟩

def ofExcept {α : Type} (x : Except Failure α) : Logged α := ⟨[], x⟩

instance : MonadLift (Except Failure) Logged := ⟨ofExcept⟩

def fail {α : Type} (u : Unusable) : Logged α := throw (.unusable u)

def mismatch {α : Type} (m : Mismatch) : Logged α := throw (.mismatch m)

end Logged
end ColumnFlow
