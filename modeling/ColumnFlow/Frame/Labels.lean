import ColumnFlow.Value.Scalar

/-!
Lists of labels. Labels that are given together come to one form: numbers are all binary if one of
them is, or is missing, and missing labels among texts are the missing text. Only then are labels
looked up.

Labels can be made distinct. The first occurrence of a label keeps it, and every repeat gets the
text of the label with the next free number. A number is free when the text is neither a label of
the list nor handed out before. `makeUnique` remembers the last number of every label.
-/
namespace ColumnFlow.Labels

/-- A number as a binary number; what is no number is not a number. -/
def asBinary : Label → Label
  | .int n => .float (Float.ofInt n)
  | .float x => .float x
  | _ => .float Decimal.notANumber

/-- Whether whole numbers fit into words, with a sign or without. -/
def fitWords (labels : List Label) : Bool :=
  let all (p : Int → Bool) : Bool := labels.all fun
    | .int n => p n
    | _ => true
  all (fun n => -Decimal.wordBound ≤ n && n < Decimal.wordBound) ||
    all (fun n => 0 ≤ n && n < 2 * Decimal.wordBound)

def isBinary : Label → Bool
  | .float _ => true
  | _ => false

/-- Numbers in one form. They are binary if some number is, or is missing; nulls alone stay. -/
def unifiedNumbers (labels : List Label) : List Label :=
  -- whole numbers after a null are not asked to fit
  let checked := labels.takeWhile fun l => !l.isNull
  if labels.all Label.isNull || !fitWords checked then labels
  else if labels.any fun l => isBinary l || l.isMissing then labels.map asBinary
  else labels

/-- Labels in one form. Among labels of several kinds, what is not a number is the missing text. -/
def unified (labels : List Label) : List Label :=
  if labels.all fun l => l.isNumber || l.isMissing then unifiedNumbers labels
  else
    let texts := labels.all fun l => l.isText || l.isMissing
    labels.map fun l => if l.isNotANumber || texts && l.isNull then .absent else l

/-- Labels of tables that are put side by side: only numbers come to one form. -/
def joined (labels : List Label) : List Label :=
  if labels.all Label.isNumber then unified labels else labels

/-- Whether labels of one kind can be asked for another label: truth values stand for numbers only
where labels are of several kinds. -/
def accepts (labels : List Label) (l : Label) : Bool :=
  if labels.all Label.isBool then l.isBool
  else if labels.all Label.isNumber then !l.isBool
  else true

/-- The labels of a list that are found under a label. -/
def found (labels : List Label) (l : Label) : Label → Bool :=
  if accepts labels l then l.finds else fun _ => false

/-- The same for a label that is looked up by itself: null finds a missing text. -/
def foundAlone (labels : List Label) (l : Label) : Label → Bool :=
  let texts := labels.all fun l => l.isText || l.isNotANumber
  found labels (if l.isNull && texts && labels.any Label.isText then .absent else l)

def suffixed (l : Label) (k : Nat) : Label := .text (l.plain ++ "_" ++ toString k)

/-- The first `k` from `start` on whose text is not taken. Every `k` that fails uses up one of the
taken labels, so as many attempts as there are taken labels, and one, are enough. -/
def firstFree (taken : Label → Bool) (l : Label) : Nat → Nat → Nat
  | 0, start => start
  | attempts + 1, start =>
    if taken (suffixed l start) then firstFree taken l attempts (start + 1) else start

/-- What is known after some labels: those handed out, and the last number of every label that was
repeated. -/
structure Memo where
  seen : List Label
  counts : List (Label × Nat)

def Memo.count (m : Memo) (l : Label) : Nat :=
  ((m.counts.find? fun c => c.1.same l).map (·.2)).getD 0

/-- The label for the next occurrence of `l`. -/
def next (all : List Label) (m : Memo) (l : Label) : Memo × Label :=
  if l.isIn m.seen then
    let taken (c : Label) : Bool := c.isIn m.seen || c.isIn all
    let k := firstFree taken l (m.seen.length + all.length + 1) (m.count l + 1)
    (⟨suffixed l k :: m.seen, (l, k) :: m.counts⟩, suffixed l k)
  else (⟨l :: m.seen, m.counts⟩, l)

def uniqueFrom (all : List Label) (m : Memo) : List Label → List Label
  | [] => []
  | l :: rest => (next all m l).2 :: uniqueFrom all (next all m l).1 rest

def makeUnique (labels : List Label) : List Label := uniqueFrom labels ⟨[], []⟩ labels

end ColumnFlow.Labels
