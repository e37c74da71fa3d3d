/-!
Moments: nanoseconds since the start of 1970 in the proleptic calendar, read from and written as a
date with an optional time of day.
-/
namespace ColumnFlow

structure Moment where
  nanoseconds : Int
  deriving DecidableEq, Inhabited

namespace Moment

/-- Days since 1970-01-01. The year is counted from March, so that the leap day is its last. -/
def daysOf (year month day : Int) : Int :=
  let y := if month ≤ 2 then year - 1 else year
  let era := y.fdiv 400
  let yearOfEra := y - era * 400
  let shifted := if month > 2 then month - 3 else month + 9
  let dayOfYear := (153 * shifted + 2) / 5 + day - 1
  let dayOfEra := yearOfEra * 365 + yearOfEra / 4 - yearOfEra / 100 + dayOfYear
  era * 146097 + dayOfEra - 719468

/-- Year, month and day of a day number. -/
def dateOf (days : Int) : Int × Int × Int :=
  let z := days + 719468
  let era := z.fdiv 146097
  let dayOfEra := z - era * 146097
  let yearOfEra := (dayOfEra - dayOfEra / 1460 + dayOfEra / 36524 - dayOfEra / 146096) / 365
  let dayOfYear := dayOfEra - (365 * yearOfEra + yearOfEra / 4 - yearOfEra / 100)
  let shifted := (5 * dayOfYear + 2) / 153
  let day := dayOfYear - (153 * shifted + 2) / 5 + 1
  let month := if shifted < 10 then shifted + 3 else shifted - 9
  (yearOfEra + era * 400 + (if month ≤ 2 then 1 else 0), month, day)

def padded (width : Nat) (n : Int) : String :=
  let digits := toString n.natAbs
  String.ofList (List.replicate (width - digits.length) '0') ++ digits

def second : Int := 1000000000

def day : Int := 86400 * second

/-- Whether the time of day is midnight. -/
def isMidnight (t : Moment) : Bool := t.nanoseconds % day == 0

/-- How many decimals the seconds need, in steps of three. -/
def decimals (t : Moment) : Nat :=
  if t.nanoseconds % 1000 ≠ 0 then 9
  else if t.nanoseconds % 1000000 ≠ 0 then 6
  else if t.nanoseconds % second ≠ 0 then 3
  else 0

/-- The date. -/
def dateText (t : Moment) : String :=
  let (year, month, day) := dateOf (t.nanoseconds.fdiv day)
  padded 4 year ++ "-" ++ padded 2 month ++ "-" ++ padded 2 day

/-- Date, a mark and the time of day, with so many decimals. -/
def renderTo (decimals : Nat) (mark : String) (t : Moment) : String :=
  let rest := t.nanoseconds - t.nanoseconds.fdiv day * day
  let seconds := rest / second
  let fraction := (padded 9 (rest % second)).toList.take decimals
  t.dateText ++ mark ++ padded 2 (seconds / 3600) ++ ":" ++ padded 2 (seconds / 60 % 60) ++ ":"
    ++ padded 2 (seconds % 60) ++ (if decimals = 0 then "" else "." ++ String.ofList fraction)

/-- Date, a mark and the time of day, with six decimals or more if the seconds need any. -/
def render (mark : String) (t : Moment) : String :=
  renderTo (if t.decimals = 3 then 6 else t.decimals) mark t

def iso (t : Moment) : String := t.render "T"

/-- A number of nothing but digits. -/
def number? (cs : List Char) : Option Int :=
  if !cs.isEmpty && cs.all Char.isDigit then
    some (cs.foldl (fun n c => 10 * n + ((c.toNat : Int) - 48)) 0)
  else none

/-- The numbers between marks. -/
def numbers? (mark : String) (cs : List Char) : Option (List Int) :=
  ((String.ofList cs).splitOn mark).mapM fun s => number? s.toList

/-- A date of a year, with or without month and day. -/
def readDate? (cs : List Char) : Option Int := do
  let (year, month, day) ← match ← numbers? "-" cs with
    | [year] => some (year, 1, 1)
    | [year, month] => some (year, month, 1)
    | [year, month, day] => some (year, month, day)
    | _ => none
  let days := daysOf year month day
  if dateOf days == (year, month, day) then some days else none

/-- A time of day: hours and minutes, and seconds with up to nine decimals. -/
def readTime? (cs : List Char) : Option Int := do
  let whole := cs.takeWhile (· != '.')
  let fraction ← match cs.drop whole.length with
    | [] => some 0
    | _ :: digits =>
      if 9 < digits.length then none
      else number? (digits ++ List.replicate (9 - digits.length) '0')
  let (hour, minute, seconds) ← match ← numbers? ":" whole with
    | [hour, minute] => some (hour, minute, 0)
    | [hour, minute, seconds] => some (hour, minute, seconds)
    | _ => none
  if hour < 24 ∧ minute < 60 ∧ seconds < 60 then
    some ((hour * 3600 + minute * 60 + seconds) * second + fraction)
  else none

/-- Reads a date, or a date and a time of day. -/
def read? (s : String) : Option Moment := do
  let cs := s.toList
  let date := cs.takeWhile fun c => c != 'T' && c != ' '
  let time ← match cs.drop date.length with
    | [] => some 0
    | _ :: time => readTime? time
  return ⟨(← readDate? date) * day + time⟩

/-- The nanoseconds as a binary number. -/
def number (t : Moment) : Float := Float.ofInt t.nanoseconds

/-- The number in the place of a missing moment, which lies before all others. -/
def numberOfNever : Float := Float.ofInt (-0x8000000000000000)

end Moment
end ColumnFlow
