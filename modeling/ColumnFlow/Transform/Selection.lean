import ColumnFlow.Frame.Detection
import ColumnFlow.Node.Leaf
import ColumnFlow.Transform.Categories

/-!
Choosing columns and recasting them. A selector keeps some columns of every frame; a frame that
lacks one of them is refused. A recast turns numeric columns of few values into labels, and leaves
out the columns that a frame lacks. A passthrough keeps every frame as it is.
-/
namespace ColumnFlow

/-- The labels under `columns` in some parameters. -/
def Fitted.columnsOf (params : Options) : Except Failure (List Label) :=
  Columns.listed (params.getD "columns" (.list []))

namespace Selection

/-- The columns chosen before, in a frame that has them all. -/
def apply (params : Options) (X : Frame) : Logged Frame.Extract := do
  let labels ← Fitted.columnsOf params
  match labels.filter fun l => !X.has l with
  | [] => X.extract (params.getD "columns" (.list []))
  | missing => Logged.mismatch (.selectionMissing missing)

/-- A selector that prefers the columns named in its options to its own choice. -/
def selector (binding type : String) (notice : Notice)
    (choose : Frame → Except Failure (List Label)) (options : Options) : Transformer :=
  ⟨binding, options, fun X => do
    let labels ← Columns.resolve X options (some choose)
    if labels.isEmpty then Logged.note notice
    return some ⟨[(.text "type", .text type), (.text "columns", .ofLabels labels)], apply,
      fun _ _ => false⟩⟩

def categorical : Options → Transformer :=
  selector "CategoricalSelectorCalculator" "categorical_selector" .noCategorical
    fun f => .ok (Columns.categorical f)

def numeric : Options → Transformer :=
  selector "NumericSelectorCalculator" "numeric_selector" .noNumeric Columns.numeric

end Selection

namespace Recast

/-- The columns chosen before that a frame has. -/
def presentIn (params : Options) (X : Frame) : Except Failure (List Label) := do
  return (← Fitted.columnsOf params).filter X.has

/-- Whether the texts of all cells are levels where there are levels. -/
def hasLevels (c : Column) : Bool :=
  match c.dtype with
  | .category _ levels =>
    c.cells.all fun v => v.isMissing || Categories.hasLevel levels v.plain
  | _ => true

/-- The cells as texts, missing ones aside. The texts of categories must be categories too, and
moments stay moments. -/
def column (c : Column) : Except Failure Column := do
  match c.dtype with
  | .datetime _ => return { c with dtype := .object }
  | _ =>
    if !hasLevels c then throw (.unusable .type)
    let texts ← Categories.prepareColumn false c
    return ⟨c.label, .object, texts.cells.zipWith (fun t v => if v.isMissing then v else t) c.cells⟩

/-- Recasts the columns with some labels. -/
def columns (labels : List Label) (X : Frame) : Except Failure (List Column) :=
  let lookups := labels.map (Labels.foundAlone X.labels)
  X.columns.mapM fun c => if lookups.any (fun found => found c.label) then column c else .ok c

def apply (params : Options) (X : Frame) : Logged Frame.Extract := do
  return .frame { X with columns := ← columns (← presentIn params X) X }

def returnsInput (params : Options) (X : Frame) : Bool :=
  match presentIn params X with
  | .ok labels => labels.isEmpty
  | .error _ => false

/-- Turns numeric columns of at most `max_categories` values into labels. -/
def discriminator (options : Options) : Transformer :=
  ⟨"CatNumDiscriminatorCalculator", options, fun X => do
    let limit := options.getD "max_categories" (.int 24)
    let labels ← Columns.resolve X options (some (Columns.lowCardinality limit))
    return some ⟨[(.text "type", .text "catnum_discriminator"), (.text "columns", .ofLabels labels),
      (.text "max_categories", limit)], apply, returnsInput⟩⟩

end Recast

namespace Passthrough

def apply (_ : Options) (X : Frame) : Logged Frame.Extract := return .frame X

def passthrough (options : Options) : Transformer :=
  ⟨"PassthroughCalculator", options, fun X =>
    return some ⟨[(.text "type", .text "passthrough"), (.text "columns", .ofLabels X.labels)],
      apply, fun _ _ => false⟩⟩

end Passthrough
end ColumnFlow
