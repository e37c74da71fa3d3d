import ColumnFlow.Node.Leaf

/-!
Elements: leaves that learn nothing. One leaves every frame as it is, one drops the first rows, one
always fails at one of its two steps, and one fails at a step when a column holds a one.
-/
namespace ColumnFlow.Element

def succeed (_ : String) (_ : Frame) : Logged Unit := return ()

def keep (_ : String) (X : Frame) : Logged Frame := return X

def fail {α : Type} (message : String) : Logged α := throw (.element message)

/-- Leaves every frame as it is. -/
def identity : Element := ⟨"HarnessNode", succeed, keep, true⟩

/-- Drops the first rows, or keeps as many of the last ones as a negative number says. -/
def dropRows (n : Value) : Element :=
  ⟨"DropRows", succeed, fun _ X => do return ← X.rowsBetween n .null, false⟩

/-- Always fails at fitting, or else at transforming. -/
def failing (atFit : Bool) : Element :=
  ⟨"Fails",
    fun name _ => if atFit then fail (name ++ " cannot fit") else return (),
    fun name X => if atFit then return X else fail (name ++ " cannot transform"),
    atFit⟩

/-- Fails if the column with a label holds a one. The label must stand once. -/
def refuseOnes (label : Label) (X : Frame) (message : String) : Logged Unit :=
  match X.named label with
  | [] => Logged.fail .key
  | [c] => if c.cells.any fun v => v.equals (.int 1) then fail message else return ()
  | _ => Logged.fail .value

/-- Fails at one step if a column holds a one. -/
def poisoned (label : Label) (atFit : Bool) : Element :=
  ⟨"Poison",
    fun _ X => if atFit then refuseOnes label X "poisoned rows at fit" else return (),
    fun _ X => do
      if !atFit then refuseOnes label X "poisoned rows at transform"
      return X,
    true⟩

end ColumnFlow.Element
