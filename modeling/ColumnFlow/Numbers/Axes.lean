import ColumnFlow.Numbers.Statistics

/-!
Principal axes. Columns of numbers are turned in pairs until all are at right angles; the turns,
collected, are the axes, and the lengths of the turned columns are their weights. Every round goes
through all pairs, and a pair that is at right angles already is left alone.
-/
namespace ColumnFlow.Numbers

def dot (a b : Array Float) : Float := (Array.zipWith (· * ·) a b).foldl (· + ·) 0.0

namespace Axes

/-- Columns that have been turned, and the turns as columns. -/
structure State where
  columns : Array (Array Float)
  turns : Array (Array Float)

/-- Sine and cosine of the angle that puts two columns at right angles. -/
def angle (a b : Array Float) : Option (Float × Float) :=
  let p := dot a a
  let q := dot b b
  let r := dot a b
  if r.abs ≤ 1e-17 * Float.sqrt (p * q) || r == 0.0 then none
  else
    let z := (q - p) / (2.0 * r)
    let t := (if z < 0.0 then -1.0 else 1.0) / (z.abs + Float.sqrt (1.0 + z * z))
    let c := 1.0 / Float.sqrt (1.0 + t * t)
    some (c * t, c)

def turn (s c : Float) (i j : Nat) (columns : Array (Array Float)) : Array (Array Float) :=
  let a := columns.getD i #[]
  let b := columns.getD j #[]
  (columns.setIfInBounds i (Array.zipWith (fun x y => c * x - s * y) a b)).setIfInBounds j
    (Array.zipWith (fun x y => s * x + c * y) a b)

/-- Puts two columns at right angles. -/
def step (st : State) (pair : Nat × Nat) : State :=
  let (i, j) := pair
  match angle (st.columns.getD i #[]) (st.columns.getD j #[]) with
  | some (s, c) => ⟨turn s c i j st.columns, turn s c i j st.turns⟩
  | none => st

/-- All pairs of different positions. -/
def pairs (n : Nat) : List (Nat × Nat) :=
  (List.range n).flatMap fun i => (List.range (n - i - 1)).map fun k => (i, i + k + 1)

def rounds : Nat → State → State
  | 0, st => st
  | n + 1, st => rounds n ((pairs st.columns.size).foldl step st)

/-- Unit columns. -/
def identity (n : Nat) : Array (Array Float) :=
  (Array.range n).map fun i => (Array.range n).map fun j => if i = j then 1.0 else 0.0

/-- Enough for columns as long as any that are met here: the angles shrink quadratically. -/
def roundCount : Nat := 40

end Axes

/-- A direction, the length of the data along it, and the data along it. -/
structure Axis where
  direction : Array Float
  length : Float
  shadow : Array Float

namespace Axis

/-- The entry of the largest magnitude, the first of equals. -/
def leading (direction : Array Float) : Float :=
  direction.foldl (fun m x => if m.abs < x.abs then x else m) 0.0

/-- Turns an axis around unless its leading entry is positive. -/
def oriented (a : Axis) : Axis :=
  if leading a.direction < 0.0 then
    ⟨a.direction.map (- ·), a.length, a.shadow.map (- ·)⟩
  else a

end Axis

/-- The axes of some columns, the longest first. -/
def axes (columns : List (List Float)) : List Axis :=
  let table := (columns.map List.toArray).toArray
  let turned := Axes.rounds Axes.roundCount ⟨table, Axes.identity table.size⟩
  let found := (turned.columns.zip turned.turns).toList.map fun p =>
    (⟨p.2, Float.sqrt (dot p.1 p.1), p.1⟩ : Axis)
  (found.mergeSort fun a b => a.length ≥ b.length).map Axis.oriented

end ColumnFlow.Numbers
