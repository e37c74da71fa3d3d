import ColumnFlow.Transform.Mapping

/-!
New columns row by row: all products of columns up to a degree, zeros and ones on either side of a
threshold, and the sum of a row with the difference of its ends.
-/
namespace ColumnFlow.Expansion

/-- The products of `degree` factors among the columns from `start` on, each as the list of the
positions of its factors. -/
def products (distinct : Bool) (width : Nat) : Nat → Nat → List (List Nat)
  | 0, _ => [[]]
  | degree + 1, start =>
    (List.range (width - start)).flatMap fun k =>
      let i := start + k
      (products distinct width degree (if distinct then i + 1 else i)).map (i :: ·)

/-- How often each position stands in a product, in the order of first occurrence. -/
def powers (product : List Nat) : List (Nat × Nat) :=
  product.foldl (fun found i =>
    if found.any fun p => p.1 == i then found.map fun p => if p.1 == i then (i, p.2 + 1) else p
    else found ++ [(i, 1)]) []

/-- The name of a power. A label that is no text can only stand with an exponent. -/
def powerName (labels : Array Label) (p : Nat × Nat) : Except Failure String :=
  let label := labels.getD p.1 .null
  match p.2, label with
  | 1, .text s => .ok s
  | 1, _ => .error (.unusable .type)
  | exponent, label => .ok (label.plain ++ "^" ++ toString exponent)

def productName (labels : Array Label) (product : List Nat) : Except Failure String := do
  if product.isEmpty then return "1"
  return " ".intercalate (← (powers product).mapM (powerName labels))

def multiply (rows : Nat) (columns : Array (List Float)) (product : List Nat) : List Float :=
  product.foldl (fun acc i => acc.zipWith (· * ·) (columns.getD i [])) (List.replicate rows 1.0)

/-- The least and the greatest degree, if both are whole numbers in order. -/
def degreePair (a b : Value) : Except Failure (Nat × Nat) :=
  match Domain.whole? a, Domain.whole? b with
  | some m, some n =>
    if 0 ≤ m ∧ m ≤ n then .ok (m.toNat, n.toNat) else .error (.unusable .value)
  | _, _ => .error (.unusable .value)

/-- The least and the greatest degree, given as one number or as a pair. -/
def degreesOf (o : Options) : Except Failure (Nat × Nat) :=
  match o.getD "degree" (.int 2) with
  | .tuple [a, b] | .list [a, b] => degreePair a b
  | .dict [(a, _), (b, _)] => degreePair a b
  | v =>
    match Domain.whole? v with
    | some n => .ok (0, n.toNat)
    | none => .error (.unusable .value)

/-- All products of columns up to a degree; a constant column counts as the empty product. -/
def polynomial : Method where
  name := "PolynomialFeatures"
  parameters := [⟨"degree", [.atLeast 0, .items]⟩, .flag "interaction_only", .flag "include_bias",
    .choice "order" ["C", "F"]]
  learn o f := do
    let distinct := Parameters.flag o "interaction_only" false
    let bias := Parameters.flag o "include_bias" true
    let columns ← Numbers.ofFrame false f
    let (low, high) ← degreesOf o
    if high = 0 && !bias then throw (.unusable .value)
    let degrees := (List.range (high + 1)).filter fun d => d ≠ 0 && low ≤ d
    let all := (if bias then [[]] else []) ++ degrees.flatMap fun d =>
      products distinct columns.length d 0
    let names ← all.mapM (productName f.labels.toArray)
    return ⟨some names, all.length, fun X => do
      let columns := (← Numbers.ofFrame false X).toArray
      return Mapping.ofNumbers (all.map (multiply X.rows columns))⟩

/-- One or zero in a kind of cell; what is neither whole nor a truth value is a binary number. -/
def bitOf (kind : Dtype) (b : Bool) : Value :=
  match kind with
  | .bool => .bool b
  | .int8 | .int64 | .uint64 => .int (if b then 1 else 0)
  | _ => .float (if b then 1.0 else 0.0)

/-- The kind of the bits of columns; moments are not above or below a number. -/
def bitKind : Dtype → Except Failure Dtype
  | .object => .ok .float64
  | .datetime _ => .error (.unusable .type)
  | kind => .ok kind

/-- One above a threshold and zero below, in the common kind of the columns. -/
def binary : Method where
  name := "Binarizer"
  parameters := [⟨"threshold", [.real]⟩, .flag "copy"]
  learn o f := do
    let threshold := Parameters.number o "threshold" 0.0
    let _ ← Numbers.ofFrame false f
    return ⟨some (f.labels.map Scalar.plain), f.columns.length, fun X => do
      let columns ← Numbers.ofFrame false X
      let kind ← bitKind (← Numbers.commonKind X)
      return columns.map fun xs => ⟨.null, kind, xs.map fun x => bitOf kind (x > threshold)⟩⟩

/-- The sum of a row, and its first number less its last. -/
def sumAndDifference : Method where
  name := "SumDiff"
  parameters := []
  learn _ _ := return ⟨none, 2, fun X => do
    let columns ← Numbers.raw X
    let rows := Numbers.rowsOf X.rows columns
    return Mapping.ofNumbers [rows.map Numbers.sum,
      rows.map fun row => row.headD 0.0 - row.getLastD 0.0]⟩

end ColumnFlow.Expansion
