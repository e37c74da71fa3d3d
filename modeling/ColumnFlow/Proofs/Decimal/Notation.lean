import ColumnFlow.Decimal.Reading
import ColumnFlow.Decimal.Shortest
import Mathlib

/-!
# What decimal texts denote

A decimal text denotes its digits, as one whole number, times a power of ten that counts the digits
after the point against the exponent. In every layout the text of a numeral denotes that numeral,
whether it is positional or has an exponent. So two numerals with one text are one number.
-/
namespace ColumnFlow.Decimal

/-- The number that a text of digits, a point and an exponent denotes. -/
def denoted (cs : List Char) : ℚ :=
  let whole := cs.takeWhile Char.isDigit
  let rest := cs.dropWhile Char.isDigit
  let parts : List Char × List Char :=
    match rest with
    | '.' :: more => (more.takeWhile Char.isDigit, more.dropWhile Char.isDigit)
    | _ => ([], rest)
  naturalOf (whole ++ parts.1) * 10 ^ ((readExponent? parts.2).getD 0 - parts.1.length)

def Numeral.value (x : Numeral) : ℚ := x.digits * 10 ^ x.exponent

/-- The text of a numeral without its digits: nothing, or an exponent. -/
inductive Closing : List Char → Prop
  | nothing : Closing []
  | exponent (cs : List Char) : Closing ('e' :: cs)

variable {whole fraction tail ds : List Char} {c : Char} {n k : ℕ}

/-! Digits. -/

theorem naturalOf_append (cs ds : List Char) :
    naturalOf (cs ++ ds) = 10 ^ ds.length * naturalOf cs + naturalOf ds :=
  (Nat.ofDigitChars_append 0).trans Nat.ofDigitChars_eq_ofDigitChars_zero

theorem naturalOf_zeros (n : ℕ) : naturalOf (List.replicate n '0') = 0 :=
  Nat.ofDigitChars_replicate_zero.trans (Nat.mul_zero _)

theorem naturalOf_repr (n : ℕ) : naturalOf (Nat.repr n).toList = n := by
  rw [Nat.toList_repr]
  exact Nat.ofDigitChars_ten_toDigits

theorem isDigit_of_mem_repr (h : c ∈ (Nat.repr n).toList) : c.isDigit = true := by
  rw [Nat.toList_repr] at h
  exact Nat.isDigit_of_mem_toDigits (by decide) (by decide) h

theorem isDigit_of_mem_zeros (h : c ∈ List.replicate n '0') : c.isDigit = true := by
  rw [List.eq_of_mem_replicate h]
  rfl

theorem isDigit_of_mem_zeros_repr (h : c ∈ List.replicate k '0' ++ (Nat.repr n).toList) :
    c.isDigit = true :=
  (List.mem_append.1 h).elim isDigit_of_mem_zeros isDigit_of_mem_repr

theorem naturalOf_zeros_repr (k n : ℕ) :
    naturalOf (List.replicate k '0' ++ (Nat.repr n).toList) = n := by
  rw [naturalOf_append, naturalOf_zeros, naturalOf_repr, Nat.mul_zero, Nat.zero_add]

/-! Reading. -/

theorem Closing.takeWhile (h : Closing tail) : tail.takeWhile Char.isDigit = [] := by
  cases h <;> rfl

theorem Closing.dropWhile (h : Closing tail) : tail.dropWhile Char.isDigit = tail := by
  cases h <;> rfl

theorem denoted_point (hwhole : ∀ c ∈ whole, c.isDigit = true)
    (hfraction : ∀ c ∈ fraction, c.isDigit = true) (htail : Closing tail) :
    denoted (whole ++ '.' :: (fraction ++ tail)) =
      naturalOf (whole ++ fraction) * 10 ^ ((readExponent? tail).getD 0 - fraction.length) := by
  have hpoint : ∀ cs, ('.' :: cs).takeWhile Char.isDigit = [] ∧
      ('.' :: cs).dropWhile Char.isDigit = '.' :: cs := fun cs => ⟨rfl, rfl⟩
  unfold denoted
  simp only [List.takeWhile_append_of_pos hwhole, List.dropWhile_append_of_pos hwhole, hpoint,
    List.takeWhile_append_of_pos hfraction, List.dropWhile_append_of_pos hfraction,
    htail.takeWhile, htail.dropWhile, List.append_nil]

theorem denoted_whole (hwhole : ∀ c ∈ whole, c.isDigit = true) (htail : Closing tail) :
    denoted (whole ++ tail) = naturalOf whole * 10 ^ (readExponent? tail).getD 0 := by
  unfold denoted
  simp only [List.takeWhile_append_of_pos hwhole, List.dropWhile_append_of_pos hwhole,
    htail.takeWhile, htail.dropWhile, List.append_nil]
  cases htail <;> simp

/-- An exponent is written with its sign. -/
theorem readExponent_signed (hne : ds ≠ []) (hds : ∀ c ∈ ds, c.isDigit = true) (negative : Bool) :
    readExponent? ('e' :: (if negative then '-' else '+') :: ds) =
      some (if negative then -(naturalOf ds : ℤ) else naturalOf ds) := by
  have hempty : ds.isEmpty = false := by simpa using hne
  have hall : ds.all Char.isDigit = true := List.all_eq_true.2 hds
  cases negative <;> simp [readExponent?, splitSign, hempty, hall]

theorem readExponent_nothing (k : ℕ) : (readExponent? []).getD 0 - (k : ℤ) = -(k : ℤ) :=
  Int.zero_sub _

/-! Writing. -/

theorem toList_padZeros (k : ℕ) (s : String) :
    (padZeros k s).toList = List.replicate (k - s.length) '0' ++ s.toList := by
  unfold padZeros
  rw [String.toList_append, String.toList_ofList]

variable (l : Layout) (x : Numeral)

theorem naturalOf_shifted (n k : ℕ) :
    naturalOf ((Nat.repr n).toList ++ List.replicate k '0') = 10 ^ k * n := by
  rw [naturalOf_append, naturalOf_zeros, naturalOf_repr, List.length_replicate, Nat.add_zero]

/-- All digits stand after the point. -/
theorem denoted_below (n k : ℕ) :
    denoted ("0." ++ String.ofList (List.replicate k '0') ++ Nat.repr n).toList =
      n * 10 ^ (-(k + (Nat.repr n).length : ℤ)) := by
  have htext : ("0." ++ String.ofList (List.replicate k '0') ++ Nat.repr n).toList =
      ['0'] ++ '.' :: ((List.replicate k '0' ++ (Nat.repr n).toList) ++ []) := by
    simp [String.toList_append]
  have hvalue : naturalOf (['0'] ++ (List.replicate k '0' ++ (Nat.repr n).toList)) = n :=
    naturalOf_zeros_repr (k + 1) n
  rw [htext, denoted_point (by simp) (fun c => isDigit_of_mem_zeros_repr) .nothing, hvalue,
    List.length_append, List.length_replicate, String.length_toList, readExponent_nothing,
    Nat.cast_add]

/-- All digits stand before the point, and zeros after them. -/
theorem denoted_above (n k : ℕ) :
    denoted (Nat.repr n ++ String.ofList (List.replicate k '0') ++ ".0").toList =
      n * 10 ^ (k : ℤ) := by
  have htext : (Nat.repr n ++ String.ofList (List.replicate k '0') ++ ".0").toList =
      ((Nat.repr n).toList ++ List.replicate k '0') ++ '.' :: (['0'] ++ []) := by
    simp [String.toList_append]
  have hdigits : ∀ c ∈ (Nat.repr n).toList ++ List.replicate k '0', c.isDigit = true :=
    fun c hc => (List.mem_append.1 hc).elim isDigit_of_mem_repr isDigit_of_mem_zeros
  have hzero : naturalOf ['0'] = 0 := rfl
  rw [htext, denoted_point hdigits (by simp) .nothing, naturalOf_append, naturalOf_shifted, hzero]
  rw [readExponent_nothing, List.length_singleton]
  push_cast
  rw [zpow_neg_one, add_zero, zpow_natCast]
  ring

/-- The point stands among the digits. -/
theorem denoted_among (n k : ℕ) (tail : List Char) (htail : Closing tail) :
    denoted ((Nat.repr n).toList.take k ++ '.' :: ((Nat.repr n).toList.drop k ++ tail)) =
      n * 10 ^ ((readExponent? tail).getD 0 - ((Nat.repr n).length - k : ℕ)) := by
  rw [denoted_point (fun c hc => isDigit_of_mem_repr (List.mem_of_mem_take hc))
    (fun c hc => isDigit_of_mem_repr (List.mem_of_mem_drop hc)) htail, List.take_append_drop,
    naturalOf_repr, List.length_drop, String.length_toList]

theorem denoted_positional :
    denoted (Layout.positional (Nat.repr x.digits)
      (x.exponent + (Nat.repr x.digits).length - 1)).toList = x.value := by
  have hpos : 0 < (Nat.repr x.digits).length := Nat.length_repr_pos
  unfold Layout.positional Numeral.value
  split
  · rw [denoted_below]
    congr 2
    omega
  · dsimp only
    split
    · rw [denoted_above]
      congr 2
      omega
    · have htext : ∀ cs ds : List Char, (String.ofList cs ++ "." ++ String.ofList ds).toList =
          cs ++ '.' :: (ds ++ []) := fun cs ds => by simp [String.toList_append]
      rw [htext, denoted_among _ _ [] .nothing, readExponent_nothing]
      congr 2
      omega

theorem denoted_scientific :
    denoted (l.scientific (Nat.repr x.digits)
      (x.exponent + (Nat.repr x.digits).length - 1)).toList = x.value := by
  have hpos : 0 < (Nat.repr x.digits).length := Nat.length_repr_pos
  obtain ⟨leading, hleading⟩ : ∃ e, e = x.exponent + (Nat.repr x.digits).length - 1 := ⟨_, rfl⟩
  rw [← hleading]
  let zeros := List.replicate (l.exponentWidth - (Nat.repr leading.natAbs).length) '0'
  let tail := 'e' :: (if decide (leading < 0) then '-' else '+') ::
    (zeros ++ (Nat.repr leading.natAbs).toList)
  have hmark : ∀ s : String, (s ++ (if leading < 0 then "e-" else "e+") ++
      padZeros l.exponentWidth (toString leading.natAbs)).toList = s.toList ++ tail := by
    intro s
    simp only [String.toList_append, toList_padZeros, List.append_assoc]
    split <;> simp_all [tail, zeros]
  have hread : (readExponent? tail).getD 0 = leading := by
    have hne : zeros ++ (Nat.repr leading.natAbs).toList ≠ [] := by simp
    rw [readExponent_signed hne (fun c => isDigit_of_mem_zeros_repr), naturalOf_zeros_repr,
      Option.getD_some]
    split
    · next hneg =>
      have : leading < 0 := of_decide_eq_true hneg
      omega
    · next hnot =>
      have : ¬leading < 0 := fun h => hnot (decide_eq_true h)
      omega
  unfold Layout.scientific Numeral.value
  dsimp only
  rw [hmark, String.toList_append, String.toList_ofList]
  split
  · next hnone =>
    have hdrop : (Nat.repr x.digits).toList.drop 1 = [] := by
      rwa [String.isEmpty_iff, String.ofList_eq_empty_iff] at hnone
    have hone : (Nat.repr x.digits).length = 1 := by
      have hle := List.drop_eq_nil_iff.1 hdrop
      rw [String.length_toList] at hle
      omega
    have htake : (Nat.repr x.digits).toList.take 1 ++ "".toList = (Nat.repr x.digits).toList := by
      rw [String.toList_empty, List.append_nil, List.take_of_length_le]
      rw [String.length_toList, hone]
    rw [htake, denoted_whole (fun c => isDigit_of_mem_repr) (.exponent _), hread, naturalOf_repr]
    congr 2
    omega
  · have htext : (Nat.repr x.digits).toList.take 1 ++
        ("." ++ String.ofList ((Nat.repr x.digits).toList.drop 1)).toList ++ tail =
        (Nat.repr x.digits).toList.take 1 ++ '.' :: ((Nat.repr x.digits).toList.drop 1 ++ tail) := by
      simp [String.toList_append]
    rw [htext, denoted_among _ _ _ (.exponent _), hread]
    congr 2
    omega

/-- The text of a numeral denotes it. -/
theorem denoted_decimal : denoted (l.decimal x).toList = x.value := by
  unfold Layout.decimal
  dsimp only
  split
  · exact denoted_positional x
  · exact denoted_scientific l x

end ColumnFlow.Decimal
