import ColumnFlow.Frame.Basic

/-!
What cells are. A column built from a list is as narrow as its cells allow: whole numbers, with a
sign or without, binary numbers (where missing cells count as such), truth values, texts or moments
with missing cells, and mixed objects otherwise. A grid, built from nested lists of equal shape, has
one kind for all its cells, and a text among them turns all into texts unless one is missing.
-/
namespace ColumnFlow

inductive CellKind where
  | null
  | absent
  | never
  | bool
  | int
  /-- A whole number that needs the sign's bit too. -/
  | wide
  | float
  | text
  | moment
  | other
  deriving DecidableEq

namespace CellKind

/-- The least whole number that 64 bits cannot hold. -/
def wideBound : Int := 2 * Decimal.wordBound

def ofInt (n : Int) : CellKind :=
  if -Decimal.wordBound ≤ n ∧ n < Decimal.wordBound then .int
  else if 0 ≤ n ∧ n < wideBound then .wide
  else .other

def of : Value → CellKind
  | .scalar .null => .null
  | .scalar .absent => .absent
  | .scalar .never => .never
  | .scalar (.bool _) => .bool
  | .scalar (.int n) => ofInt n
  | .scalar (.float _) => .float
  | .scalar (.text _) => .text
  | .scalar (.moment _) => .moment
  | _ => .other

end CellKind

namespace Column

/-- Whether all cells are of one of some kinds. -/
def onlyKinds (kinds : List CellKind) (cells : List Value) : Bool :=
  cells.all fun v => kinds.contains (CellKind.of v)

def hasKind (kind : CellKind) (cells : List Value) : Bool :=
  cells.any fun v => CellKind.of v == kind

/-- A number as a binary number, and anything else as what is not a number. -/
def asFloat (v : Value) : Value := .float (v.number?.getD Decimal.notANumber)

/-- Missing cells, whatever their form, become missing texts. -/
def absentIfMissing (v : Value) : Value := if v.isMissing then .scalar .absent else v

/-- Missing cells, whatever their form, become missing moments. -/
def neverIfMissing (v : Value) : Value := if v.isMissing then .scalar .never else v

def isNegative : Value → Bool
  | .scalar (.int n) => n < 0
  | _ => false

/-- Texts and missing cells, and at least one text. -/
def isTextual (cells : List Value) : Bool :=
  hasKind .text cells
    && cells.all fun v => CellKind.of v == .text || (v.isMissing && CellKind.of v != .never)

def isTemporal (cells : List Value) : Bool :=
  hasKind .moment cells && cells.all fun v => v.isMissing || CellKind.of v == .moment

/-- Only missing cells, and a missing moment among them. -/
def isNever (cells : List Value) : Bool := hasKind .never cells && cells.all Value.isMissing

/-- Objects that are all texts or all moments, missing cells aside, are given that kind, and so are
missing moments alone. -/
def ofObjects (label : Label) (cells : List Value) : Column :=
  if isTextual cells then ⟨label, .text, cells.map absentIfMissing⟩
  else if isTemporal cells then ⟨label, .datetime .nanoseconds, cells.map neverIfMissing⟩
  else if isNever cells then ⟨label, .datetime .seconds, cells.map neverIfMissing⟩
  else ⟨label, .object, cells⟩

/-- Whether whole numbers, those without a sign among them, have a common kind. -/
def isNatural (cells : List Value) : Bool :=
  onlyKinds [.int, .wide] cells && !cells.any isNegative

/-- Whether cells are taken for binary numbers. Whole numbers must have a common kind, but only up
to the first null. -/
def isNumerical (cells : List Value) : Bool :=
  let checked := cells.takeWhile fun v => CellKind.of v != .null
  cells.all (fun v => v.isNull || v.number?.isSome) && !onlyKinds [.null] cells
    && !hasKind .bool cells && !hasKind .other checked
    && !(hasKind .wide checked && checked.any isNegative)

/-- The narrowest column for the cells of a list. -/
def infer (label : Label) (cells : List Value) : Column :=
  if cells.isEmpty then ⟨label, .object, []⟩
  else if onlyKinds [.int] cells then ⟨label, .int64, cells⟩
  else if isNatural cells then ⟨label, .uint64, cells⟩
  else if onlyKinds [.bool] cells then ⟨label, .bool, cells⟩
  else if onlyKinds [.int, .wide, .other] cells then ⟨label, .object, cells⟩
  else if isNumerical cells then ⟨label, .float64, cells.map asFloat⟩
  else ofObjects label cells

/-- Values that differ, each once, in the order of their first occurrence. -/
def levelsOf (cells : List Value) : List Value :=
  cells.foldl (fun found v =>
    if v.isMissing || found.any (fun w => w.quoted == v.quoted) then found else found ++ [v]) []

/-- A column of categories. Their levels are what the cells are without the missing ones. -/
def ofCategories (label : Label) (cells : List Value) : Column :=
  let plain := (infer label cells).cells
  let present := plain.filter fun v => !v.isMissing
  let kind : Dtype :=
    if present.isEmpty && !cells.isEmpty then .float64 else (infer label present).dtype
  ⟨label, .category kind (levelsOf plain), plain.map absentIfMissing⟩

/-- The texts of a missing moment. -/
def neverTexts : List String := ["", "NaT", "nat", "NAT", "nan", "NaN", "NAN"]

/-- A moment from its text; a number counts nanoseconds. -/
def momentOf (v : Value) : Except Failure Value :=
  match v with
  | .scalar (.text s) =>
    if neverTexts.contains s then .ok (.scalar .never)
    else (Moment.read? s).elim (.error (.unusable .value)) fun t => .ok (.scalar (.moment t))
  | .scalar (.int n) => .ok (.scalar (.moment ⟨n⟩))
  | v => if v.isMissing then .ok (.scalar .never) else .error (.unusable .type)

def wholeOf (v : Value) : Value :=
  match v with
  | .scalar (.float x) => (Field.intOfFloat x).toOption.elim v .int
  | _ => v

end Column

/-- Cells in rows of equal shape, last dimension first to vary. -/
structure Grid where
  shape : List Nat
  dtype : Dtype
  cells : List Value

namespace Grid

mutual

/-- The lengths of nested lists from the outside in, if all neighbours agree. -/
def shapeOf : Value → Option (List Nat)
  | .list items | .tuple items =>
    match shapesOf items with
    | none => none
    | some [] => some [0]
    | some (s :: rest) => if rest.all (· == s) then some ((rest.length + 1) :: s) else none
  | _ => some []

def shapesOf : List Value → Option (List (List Nat))
  | [] => some []
  | v :: rest =>
    match shapeOf v, shapesOf rest with
    | some s, some shapes => some (s :: shapes)
    | _, _ => none

end

/-- What two shapes begin with in common. -/
def commonStart : List Nat → List Nat → List Nat
  | a :: s, b :: t => if a = b then a :: commonStart s t else []
  | _, _ => []

mutual

/-- The lengths of nested lists from the outside in, as far as all neighbours agree. -/
def outerShape : Value → List Nat
  | .list items | .tuple items => items.length :: outerShapes items
  | _ => []

def outerShapes : List Value → List Nat
  | [] => []
  | [v] => outerShape v
  | v :: w :: rest => commonStart (outerShape v) (outerShapes (w :: rest))

end

/-- What stands at a depth of nested lists. -/
def itemsAt : Nat → Value → List Value
  | depth + 1, .list items | depth + 1, .tuple items => items.flatMap (itemsAt depth)
  | _, v => [v]

mutual

def leaves : Value → List Value
  | .list items | .tuple items => leavesOf items
  | v => [v]

def leavesOf : List Value → List Value
  | [] => []
  | v :: rest => leaves v ++ leavesOf rest

end

def intOf (v : Value) : Value :=
  match v with
  | .scalar (.bool b) => .int (if b then 1 else 0)
  | v => v

/-- The plain text of a cell, without the nulls that it ends in. -/
def paddedText (v : Value) : Value :=
  .text (String.ofList (v.plain.toList.reverse.dropWhile (· == '\x00')).reverse)

/-- The common kind of all cells, and the cells in that kind. -/
def unify (cells : List Value) : Dtype × List Value :=
  if cells.isEmpty then (.float64, [])
  else if Column.onlyKinds [.bool] cells then (.bool, cells)
  else if Column.onlyKinds [.bool, .int] cells then (.int64, cells.map intOf)
  else if Column.onlyKinds [.bool, .wide] cells then (.uint64, cells.map intOf)
  else if Column.onlyKinds [.bool, .int, .wide, .float] cells then
    (.float64, cells.map Column.asFloat)
  else if Column.onlyKinds [.bool, .int, .wide, .float, .text] cells then
    (.text, cells.map paddedText)
  else (.object, cells)

def overflow {α : Type} : Except Failure α := .error (.unusable .overflow)

/-- A cell as a binary number; a text must read as one. -/
def toFloat (v : Value) : Except Failure Value :=
  match v with
  | .scalar (.text s) =>
    match Field.spelled? s with
    | some x => .ok (.float x)
    | none => .error (.unusable .value)
  | .scalar (.int n) => (Field.binaryOf n).elim overflow fun x => .ok (.float x)
  | v => if v.isNull || v.number?.isSome then .ok (Column.asFloat v) else .error (.unusable .type)

/-- The least and the greatest whole number of a kind. -/
def bounds : Dtype → Int × Int
  | .int8 => (-128, 127)
  | .uint64 => (0, CellKind.wideBound - 1)
  | _ => (-Decimal.wordBound, Decimal.wordBound - 1)

/-- A whole number within the bounds of a kind. -/
def bounded (dtype : Dtype) (n : Int) : Except Failure Value :=
  let (low, high) := bounds dtype
  if low ≤ n ∧ n ≤ high then .ok (.int n) else overflow

/-- A whole number of 64 bits, of which a kind takes the last bits. -/
def wrapped (dtype : Dtype) (n : Int) : Except Failure Value :=
  match dtype with
  | .int8 => do
    let _ ← bounded .int64 n
    return .int (Int.emod (n + 128) 256 - 128)
  | dtype => bounded dtype n

/-- A cell as a whole number; a fraction is cut off, and a text must be a whole number itself. -/
def toInt (dtype : Dtype) (v : Value) : Except Failure Value :=
  match v with
  | .scalar (.int n) => bounded dtype n
  | .scalar (.bool b) => .ok (.int (if b then 1 else 0))
  | .scalar (.float x) =>
    match Decimal.Exact.ofFloat x with
    | .finite q => wrapped dtype (Int.tdiv q.num q.den)
    | .infinite _ => overflow
    | .nan => .error (.unusable .value)
  | .scalar (.text s) =>
    match Field.spelledWhole? s with
    | some n => wrapped dtype n
    | none => .error (.unusable .value)
  | _ => .error (.unusable .type)

/-- A cell as a moment; truth values count nanoseconds as numbers do, but fractions are refused. -/
def toMoment (v : Value) : Except Failure Value :=
  match v with
  | .scalar .null => .ok (.scalar .never)
  | .scalar (.float _) => .error (.unusable .value)
  | v => Column.momentOf (intOf v)

/-- The cells in a kind that was asked for. -/
def cast (dtype : String) (cells : List Value) : Except Failure (Dtype × List Value) :=
  match dtype with
  | "float64" => do return (.float64, ← cells.mapM toFloat)
  | "int64" => do return (.int64, ← cells.mapM (toInt .int64))
  | "int8" => do return (.int8, ← cells.mapM (toInt .int8))
  | "uint64" => do return (.uint64, ← cells.mapM (toInt .uint64))
  | "bool" => .ok (.bool, cells.map fun v => .bool v.isTrue)
  | "str" => .ok (.text, cells.map paddedText)
  | "datetime64[ns]" => do return (.datetime .nanoseconds, ← cells.mapM toMoment)
  | "object" => .ok (.object, cells)
  | _ => .error (.unusable .type)

/-- Nested lists as a grid. Rows of different shapes are refused, unless the cells may be objects:
then the rows themselves are the cells. -/
def ofValue (v : Value) (dtype : Option String) : Except Failure Grid := do
  match shapeOf v, dtype with
  | some shape, none =>
    let (kind, cells) := unify (leaves v)
    return ⟨shape, kind, cells⟩
  | some shape, some d =>
    let (kind, cells) ← cast d (leaves v)
    return ⟨shape, kind, cells⟩
  | none, some "object" =>
    let shape := outerShape v
    return ⟨shape, .object, itemsAt shape.length v⟩
  | none, _ => throw (.unusable .value)

/-- A column of a grid's cells: objects are looked at again, other kinds are kept. -/
def column (label : Label) (dtype : Dtype) (cells : List Value) : Column :=
  match dtype with
  | .object => Column.ofObjects label cells
  | _ => ⟨label, dtype, cells⟩

/-- Every `width`-th cell from `start` on. -/
def stride (cells : List Value) (width start rows : Nat) : List Value :=
  pick ((List.range rows).map fun r => r * width + start) cells

end Grid

namespace Column

/-- Whether a whole number is all that a cell says: a fraction is lost, and so is another way in
which a text spells the number. -/
def isExact (v n : Value) : Bool :=
  match v with
  | .scalar (.text s) => n.plain == s
  | .scalar (.float _) => n.sameLabel v
  | _ => true

def isNotFinite (v : Value) : Bool := v.number?.any fun x => x.isNaN || x.isInf

/-- A column of whole numbers of a kind. Nothing may be lost; where all cells are numbers, some of
them not finite, this is told. -/
def ofWhole (label : Label) (dtype : Dtype) (cells : List Value) : Except Failure Column :=
  match cells.mapM (Grid.toInt dtype) with
  | .ok numbers =>
    if (cells.zip numbers).all fun p => isExact p.1 p.2 then .ok ⟨label, dtype, numbers⟩
    else .error (.unusable .value)
  | .error (.unusable .value) =>
    match (Grid.unify cells).1 with
    | .float64 => .error (.unusable (if cells.any isNotFinite then .notFinite else .value))
    | _ => .error (.unusable .value)
  | .error e => .error e

/-- A cell as a text; what is missing stays so. -/
def textOf (v : Value) : Value := if v.isMissing then .scalar .absent else .text v.plain

/-- A column of a named kind, whose cells must be of that kind or convert to it. -/
def ofKind (label : Label) (kind : String) (cells : List Value) : Except Failure Column :=
  match kind with
  | "int64" => ofWhole label .int64 cells
  | "int8" => ofWhole label .int8 cells
  | "uint64" => ofWhole label .uint64 cells
  | "str" => .ok ⟨label, .text, cells.map textOf⟩
  | "category" => .ok (ofCategories label cells)
  | "datetime64[ns]" => do return ⟨label, .datetime .nanoseconds, ← cells.mapM momentOf⟩
  | kind => do
    let (dtype, cells) ← Grid.cast kind cells
    return ⟨label, dtype, cells⟩

end Column
end ColumnFlow
