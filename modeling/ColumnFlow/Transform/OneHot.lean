import ColumnFlow.Transform.Mapping
import ColumnFlow.Value.Parameters

/-!
Indicator columns for categories. The categories of a column are its distinct texts in increasing
order, with the missing one last. When there are as many as the limit, or more, only the most
frequent keep columns of their own and the rest share one; of categories that are equally frequent
the later ones stay. A row has a one in the column of its category. A category that was not seen
has zeros only, or is refused.
-/
namespace ColumnFlow.OneHot

/-- The categories of one column, and which of them share a column. -/
structure Encoding where
  label : Label
  /-- The categories in order; null stands for what is missing. -/
  categories : List Value
  rare : List Value
  /-- Whether the first column is left out. -/
  dropFirst : Bool

def missingName : String := "nan"

def rareName : String := "infrequent_sklearn"

def nameOf (v : Value) : String := if v.isMissing then missingName else v.plain

/-- Texts by code points, and what is missing last. -/
def precedes (a b : Value) : Bool :=
  if b.isMissing then true else if a.isMissing then false else !decide (b.plain < a.plain)

def sameCategory (a b : Value) : Bool :=
  if a.isMissing || b.isMissing then a.isMissing && b.isMissing else a.plain == b.plain

def distinct (cells : List Value) : List Value :=
  cells.foldl (fun found v => if found.any (sameCategory v) then found else found ++ [v]) []

/-- The categories that do not keep a column of their own. -/
def rareOf (limit : Option Nat) (cells categories : List Value) : List Value :=
  match limit with
  | some k =>
    if k ≤ categories.length then
      let counted := categories.map fun c => (c, cells.countP (sameCategory c))
      let byCount := counted.mergeSort fun a b => a.2 ≤ b.2
      (byCount.take (categories.length - (k - 1))).map (·.1)
    else []
  | none => []

namespace Encoding

def learn (limit : Option Nat) (dropFirst : Bool) (c : Column) : Encoding :=
  let categories := (distinct c.cells).mergeSort precedes
  ⟨c.label, categories, rareOf limit c.cells categories, dropFirst⟩

def isRare (e : Encoding) (v : Value) : Bool := e.rare.any (sameCategory v)

/-- The indicators in order; none stands for the shared one. -/
def indicators (e : Encoding) : List (Option Value) :=
  let own := (e.categories.filter fun c => !e.isRare c).map some
  let all := if e.rare.isEmpty then own else own ++ [none]
  if e.dropFirst then all.tail else all

def indicatorName : Option Value → String
  | some v => nameOf v
  | none => rareName

/-- The names of the new columns. Only a text can be the first part of a name. -/
def names (e : Encoding) : Except Failure (List String) :=
  match e.label with
  | .text s => .ok (e.indicators.map fun i => s ++ "_" ++ indicatorName i)
  | _ => if e.indicators.isEmpty then .ok [] else .error (.unusable .type)

def isHit (e : Encoding) (v : Value) : Option Value → Bool
  | some c => sameCategory c v
  | none => e.isRare v

/-- The new columns of a column of texts. -/
def encode (e : Encoding) (refuseUnknown : Bool) (c : Column) : Except Failure (List Column) :=
  if refuseUnknown && c.cells.any fun v => !(e.categories.any (sameCategory v)) then
    .error (.unusable .value)
  else .ok (e.indicators.map fun i =>
    ⟨.null, .int8, c.cells.map fun v => .int (if e.isHit v i then 1 else 0)⟩)

end Encoding

/-- The options of an encoder. -/
structure Choices where
  dropFirst : Bool
  limit : Option Nat
  refuseUnknown : Bool

def isIgnore : Value → Bool
  | .scalar (.text s) => s == "ignore"
  | _ => false

def Choices.read (o : Options) : Except Failure Choices := do
  let limit := o.getD "max_categories" .null
  if !(Parameter.count? "max_categories" 1).takes limit then throw (.unusable .parameter)
  return ⟨(o.getD "drop_first" (.bool false)).isTrue, Parameters.count? o "max_categories",
    !isIgnore (o.getD "handle_unknown" (.text "ignore"))⟩

/-- Tells of columns that leave nothing behind when the first category is dropped. -/
def warnings (choices : Choices) (encodings : List Encoding) : Logged Unit :=
  encodings.forM fun e =>
    match e.categories with
    | [c] =>
      if choices.dropFirst then Logged.note (.singleCategory e.label (nameOf c)) else return ()
    | _ => return ()

/-- The columns that the parameters name; a single column has no columns of its own. -/
def chosen (columns : Value) (X : Frame) : Except Failure Frame := do
  match ← X.extract columns with
  | .frame f => return f
  | .series _ => throw (.unusable .attribute)

/-- The texts of the chosen columns. -/
def texts (params : Options) (X : Frame) (columns : Value) : Except Failure Frame := do
  let f ← chosen columns X
  Categories.prepare f (params.getD "include_missing" (.bool true)).isTrue

def encodeAll (choices : Choices) (encodings : List Encoding) (columns : List Column) :
    Except Failure (List (List Column)) :=
  (encodings.zip columns).mapM fun p => p.1.encode choices.refuseUnknown p.2

def namesOf (encodings : List Encoding) : Except Failure (List (List String)) :=
  encodings.mapM Encoding.names

/-- The frame without the encoded columns, unless they are to be kept. -/
def remainder (params : Options) (X : Frame) (columns : Value) : Except Failure Frame :=
  if (params.getD "drop_original" (.bool true)).isTrue then X.drop (Mapping.labelsIn columns)
  else .ok X

/-- Encodes the chosen columns and puts the new ones last. -/
def apply (choices : Choices) (encodings : List Encoding) (params : Options) (X : Frame) :
    Logged Frame.Extract := do
  let columns := params.getD "columns" .null
  if !columns.isTrue then return .frame X
  let prepared ← texts params X columns
  Fitted.check params "encoder_object"
  Numbers.matchLabels (encodings.map (·.label)) prepared.labels
  if prepared.rows = 0 then Logged.fail .value
  let blocks ← encodeAll choices encodings prepared.columns
  Mapping.checkRows prepared X
  let new ← Frame.relabelAs ⟨X.index, blocks.flatten⟩ (params.getD "feature_names" .null)
  return .frame ((← remainder params X columns).beside new)

/-- The number of categories by column. -/
def categoryCounts (encodings : List Encoding) : Value :=
  .dict (encodings.foldl (fun (o : Options) e => o.set e.label (.int e.categories.length)) [])

def encoder (options : Options) : Transformer :=
  ⟨"OneHotEncoderCalculator", options, fun X => do
    let labels ← Columns.resolve X options (some fun f => .ok (Columns.categorical f))
    if labels.isEmpty then return some .identity
    let includeMissing := options.getD "include_missing" (.bool true)
    let prepared ← Categories.prepare (← X.select labels) includeMissing.isTrue
    let choices ← Choices.read options
    Numbers.checkLabels prepared.labels
    if prepared.rows = 0 then Logged.fail .value
    let encodings := prepared.columns.map (Encoding.learn choices.limit choices.dropFirst)
    warnings choices encodings
    let names ← namesOf encodings
    let params : Options := [
      (.text "type", .text "onehot"),
      (.text "columns", .ofLabels labels),
      (.text "feature_names", .ofTexts names.flatten),
      (.text "categories_count", categoryCounts encodings),
      (.text "drop_original", options.getD "drop_original" (.bool true)),
      (.text "include_missing", includeMissing)]
    return some ⟨params, apply choices encodings, Mapping.returnsInput⟩⟩

end ColumnFlow.OneHot
