import ColumnFlow.Learn.Samples

/-!
Methods of learning, by name. A method has parameters and learns a model; the parameters of a
learner are its defaults, overridden by its options.
-/
namespace ColumnFlow.Learn

structure LearningMethod where
  parameters : List Parameter
  learn : Options → Frame → Series → Except Failure Model

/-- The calculation of a learner with some defaults. -/
def LearningMethod.calculate (m : LearningMethod) (defaults options : Options) (X : Frame)
    (y : Series) : Logged (Option Model) := do
  let parameters ← Options.merge defaults options ["columns", "type"]
  Parameters.check m.parameters parameters
  return some (← m.learn parameters X y)

end ColumnFlow.Learn
