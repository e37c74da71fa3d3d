import ColumnFlow.Draw.Choice
import ColumnFlow.Learn.Method
import ColumnFlow.Numbers.Statistics

/-!
Learners that ignore the features. A classifier answers with the most frequent class, the smallest
of equally frequent ones, with a class that is named, or with classes that are drawn, by their
shares or all alike; a regressor answers with one number.
-/
namespace ColumnFlow.Learn.Constant
open Draw

/-- The position of the most frequent class. -/
def commonestCode (t : Target) : Nat :=
  greatestAt ((t.tally t.codes).toList.map Float.ofNat)

/-- The only value in nested lists. -/
def onlyItem (v : Value) : Except Failure Value :=
  match Grid.leaves v with
  | [item] => .ok item
  | _ => .error (.unusable .value)

/-- The value that is named in the options. -/
def named (o : Options) : Except Failure Value :=
  let v := o.getD "constant" .null
  if v.isNull then .error (.unusable .value) else onlyItem v

/-- The class of a value. -/
def codeOf (t : Target) (v : Value) : Except Failure Nat :=
  (t.classes.findIdx? fun c => c.equals v).elim (.error (.unusable .value)) .ok

/-- A model that answers from the number of rows alone. -/
def model (t : Target) (column : Nat → Column) (shares : Nat → List (Array Float)) : Model :=
  ⟨fun X => do
    Numbers.checkLabels X.labels
    return column X.rows,
  some fun X => return t.shares X (shares X.rows)⟩

/-- A model with one answer. -/
def steady (t : Target) (code : Nat) (shares : Array Float) : Model :=
  model t (fun rows => t.column (List.replicate rows code)) fun rows =>
    List.replicate rows shares

/-- Classes by their shares. The same draws are made for every answer. -/
def drawn (t : Target) (seed rows : Nat) : List Nat :=
  ((Twister.ofSeed seed).outcomes (t.tallyShares t.codes).toList rows).1

/-- Classes that are all alike. -/
def evenlyDrawn (t : Target) (seed rows : Nat) : List Nat :=
  ((Twister.ofSeed seed).sample t.classes.size rows).1

def classifier : LearningMethod where
  parameters := [
    .choice "strategy" ["most_frequent", "prior", "stratified", "uniform", "constant"],
    .randomState, ⟨"constant", [.whole, .anyText, .items, .null]⟩]
  learn o X y := do
    Numbers.checkLabels X.labels
    if y.rows = 0 then throw (.unusable .value)
    let strategy := Parameters.choice o "strategy" "prior"
    let constant ← if strategy == "constant" then named o else pure .null
    let t ← Target.ofAny y
    let seed := Parameters.count o "random_state" 0
    let count := t.classes.size
    match strategy with
    | "constant" =>
      let code ← codeOf t constant
      return model t (fun rows => Column.infer .null (List.replicate rows constant)) fun rows =>
        List.replicate rows (t.oneHot code)
    | "most_frequent" => return steady t (commonestCode t) (t.oneHot (commonestCode t))
    | "stratified" =>
      return model t (fun rows => t.column (drawn t seed rows)) fun rows =>
        (drawn t seed rows).map t.oneHot
    | "uniform" =>
      return model t (fun rows => t.column (evenlyDrawn t seed rows)) fun rows =>
        List.replicate rows (Array.replicate count (1.0 / Float.ofNat count))
    | _ => return steady t (commonestCode t) (t.tallyShares t.codes)

/-- The numbers that are named in the options, each whole if it is whole there. -/
def namedNumbers (o : Options) : Except Failure (List Value) := do
  match o.getD "constant" .null with
  | .scalar .null | .dict _ => throw (.unusable .type)
  | .scalar s => return [.scalar s]
  | v =>
    let items := Grid.leaves v
    if items.all fun v => v.isNull || v.number?.any fun x => !x.isNaN && !x.isInf then return items
    else throw (.unusable .value)

def shareOf (o : Options) : Except Failure Float :=
  ((o.getD "quantile" .null).number?).elim (.error (.unusable .value)) .ok

def regressor : LearningMethod where
  parameters := [.choice "strategy" ["mean", "median", "quantile", "constant"],
    ⟨"constant", [.number (.between (-Range.infinite) Range.infinite), .items, .null]⟩,
    ⟨"quantile", [.number (.closed 0.0 1.0), .null]⟩]
  learn o X y := do
    Numbers.checkLabels X.labels
    let known ← numbersOf y
    if known.isEmpty then throw (.unusable .value)
    let answer : List Value ← match Parameters.choice o "strategy" "mean" with
      | "mean" => pure [.float (Numbers.mean known)]
      | "median" => pure [.float (Numbers.median known)]
      | "quantile" =>
        let share ← shareOf o
        if Numbers.isBool y.dtype then throw (.unusable .type)
        pure [.float (Numbers.quantile share known)]
      | _ => namedNumbers o
    return ⟨fun X =>
      match answer with
      | [v] => return Column.infer .null (List.replicate X.rows v)
      | _ => throw (.unusable .value), none⟩

end ColumnFlow.Learn.Constant
