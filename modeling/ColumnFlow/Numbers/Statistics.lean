import ColumnFlow.Decimal.Reading

/-!
Statistics of lists of numbers: sums, mean, variance, extremes, quantiles and the most frequent
number. None of them looks at what is not a number, so callers leave that out first.

Rounding makes the order of additions matter. `sumInOrder` adds from the left. `sum` adds in eight
lanes, joins the lanes in pairs, and halves long lists, so that its errors grow more slowly.
-/
namespace ColumnFlow.Numbers

def pi : Float := 3.141592653589793

/-- The numbers among some numbers. -/
def present (xs : List Float) : List Float := xs.filter fun x => !x.isNaN

def sumInOrder (xs : List Float) : Float := xs.foldl (· + ·) 0.0

/-- Adds to eight lanes the next eight numbers, again and again, and gives the lanes and the numbers
that are left. -/
def fillLanes : Nat → List Float → List Float → List Float × List Float
  | 0, lanes, xs => (lanes, xs)
  | rounds + 1, lanes, xs => fillLanes rounds (lanes.zipWith (· + ·) (xs.take 8)) (xs.drop 8)

/-- The sums of neighbours. -/
def pairSums : List Float → List Float
  | a :: b :: rest => (a + b) :: pairSums rest
  | xs => xs

/-- The sum of eight lanes and of the numbers that are left over; of fewer than eight numbers, the
sum in order. -/
def laneSum (xs : List Float) : Float :=
  if xs.length < 8 then sumInOrder xs
  else
    let (lanes, rest) := fillLanes (xs.length / 8 - 1) (xs.take 8) (xs.drop 8)
    rest.foldl (· + ·) (sumInOrder (pairSums (pairSums (pairSums lanes))))

/-- The lane sum, or the sum of two halves of a list of more than 128 numbers. The first half has a
multiple of eight. -/
def sum (xs : List Float) : Float :=
  if xs.length ≤ 128 then laneSum xs
  else
    let half := xs.length / 16 * 8
    sum (xs.take half) + sum (xs.drop half)
termination_by xs.length
decreasing_by
  · simp only [List.length_take]; omega
  · simp only [List.length_drop]; omega

def mean (xs : List Float) : Float := sum xs / Float.ofNat xs.length

/-- The mean squared distance from the mean, with the rounding error of the mean taken out. -/
def variance (xs : List Float) : Float :=
  let m := mean xs
  let rests := xs.map (· - m)
  let n := Float.ofNat xs.length
  (sum (rests.map fun r => r * r) - sum rests * sum rests / n) / n

def least (xs : List Float) : Float :=
  match xs with
  | [] => Decimal.notANumber
  | x :: rest => rest.foldl (fun m y => if y < m then y else m) x

def greatest (xs : List Float) : Float :=
  match xs with
  | [] => Decimal.notANumber
  | x :: rest => rest.foldl (fun m y => if m < y then y else m) x

def sorted (xs : List Float) : List Float := xs.mergeSort fun a b => a ≤ b

/-- The middle number, or halfway between the middle two. -/
def median (xs : List Float) : Float :=
  let table := (sorted xs).toArray
  let n := table.size
  if n = 0 then Decimal.notANumber
  else if n % 2 = 1 then table[n / 2]?.getD Decimal.notANumber
  else
    match table[n / 2 - 1]?, table[n / 2]? with
    | some a, some b => (a + b) / 2.0
    | _, _ => Decimal.notANumber

/-- Between two numbers, measured from the nearer one. -/
def between (a b share : Float) : Float :=
  if share ≥ 0.5 then b - (b - a) * (1.0 - share) else a + (b - a) * share

/-- The number below which a share of the numbers lies, with straight lines between neighbours. -/
def quantile (share : Float) (xs : List Float) : Float :=
  let table := (sorted xs).toArray
  if table.isEmpty then Decimal.notANumber
  else
    let place := share * Float.ofNat (table.size - 1)
    let i := place.floor.toUInt64.toNat
    let low := table[i]?.getD Decimal.notANumber
    between low (table[i + 1]?.getD low) (place - place.floor)

/-- The smallest of the most frequent numbers. -/
def mode (xs : List Float) : Float :=
  let count (x : Float) : Nat := xs.countP (· == x)
  let best := xs.foldl (fun m x => max m (count x)) 0
  least (xs.filter fun x => count x == best)

end ColumnFlow.Numbers
