import ColumnFlow.Proofs.Decimal.Telling
import ColumnFlow.Value.Basic

/-!
# Texts of numbers

The text of a binary number has a sign, if any, and then digits up to a point or an exponent, or the
word for infinity. So it is no text of a whole number, and two binary numbers have one text if and
only if they are equal and have the same sign: zero has two texts.
-/
namespace ColumnFlow.Decimal

open Float.Model Float.Model.UnpackedFloat

variable {x y : Float} {b b' : Binary} {s t : String} {n : ℤ} {c : Char}

/-! Bits. -/

theorem toNat_unpackExponent (x : Float) :
    (@unpackExponent Format.binary64 x.toModel.toBits.toBitVec).toNat =
      x.toBits.toNat / hiddenBit % 2048 := by
  change (BitVec.extractLsb _ _ _).toNat = _
  rw [BitVec.extractLsb_toNat, Nat.shiftRight_eq_div_pow]
  rfl

theorem toNat_unpackMantissa (x : Float) :
    (@unpackMantissa Format.binary64 x.toModel.toBits.toBitVec).toNat =
      x.toBits.toNat % hiddenBit := by
  change (BitVec.extractLsb _ _ _).toNat = _
  rw [BitVec.extractLsb_toNat, Nat.shiftRight_zero]
  rfl

theorem unpackExponent_eq_iff (x : Float) (b : BitVec 11) :
    @unpackExponent Format.binary64 x.toModel.toBits.toBitVec = b ↔
      x.toBits.toNat / hiddenBit % 2048 = b.toNat := by
  rw [← toNat_unpackExponent]
  exact BitVec.toNat_inj.symm

theorem isNaN_iff : x.isNaN = true ↔ decode x = .nan := by
  have hones : @unpackExponent Format.binary64 x.toModel.toBits.toBitVec = -1#11 ↔
      x.toBits.toNat / hiddenBit % 2048 = 2047 := unpackExponent_eq_iff x (-1#11)
  have hzero : @unpackMantissa Format.binary64 x.toModel.toBits.toBitVec = 0#52 ↔
      x.toBits.toNat % hiddenBit = 0 := by
    rw [← toNat_unpackMantissa]
    exact ⟨fun h => h ▸ rfl, fun h => BitVec.eq_of_toNat_eq h⟩
  change (UnpackedFloat.unpack Format.binary64 x.toModel.toBits.toBitVec).isNaN = true ↔ _
  unfold decode UnpackedFloat.unpack
  simp only
  by_cases hbiased : x.toBits.toNat / hiddenBit % 2048 = 2047
  · rw [if_pos hbiased, if_pos (hones.2 hbiased)]
    by_cases hfraction : x.toBits.toNat % hiddenBit = 0
    · rw [if_pos hfraction, if_pos (hzero.2 hfraction)]
      simp [UnpackedFloat.isNaN]
    · rw [if_neg hfraction, if_neg (mt hzero.1 hfraction)]
      simp [UnpackedFloat.isNaN]
  · rw [if_neg hbiased, if_neg (mt hones.1 hbiased)]
    refine iff_of_false ?_ ?_
    · split
      · split <;> exact Bool.false_ne_true
      · exact Bool.false_ne_true
    · split <;> simp

theorem Exact.ofFloat_eq_nan : Exact.ofFloat x = .nan ↔ x.isNaN = true := by
  rw [isNaN_iff]
  unfold Exact.ofFloat
  cases decode x <;> simp

theorem decode_ne_nan (hx : x.isNaN = false) : decode x ≠ .nan := by
  rw [Ne, ← isNaN_iff, hx]
  exact Bool.false_ne_true

theorem stored_of_decode (h : decode x = .finite b) : Stored b.mantissa b.exponent := by
  have hbiased := Nat.mod_lt (x.toBits.toNat / hiddenBit) (by decide : 0 < 2048)
  have hfraction : x.toBits.toNat % hiddenBit < 2 ^ 52 := Nat.mod_lt _ (by decide)
  have hbit : hiddenBit = 2 ^ 52 := rfl
  unfold decode at h
  simp only at h
  split at h
  · split at h <;> cases h
  · split at h
    · cases h
      exact ⟨hfraction.trans (by decide), le_rfl, .inr rfl⟩
    · cases h
      refine ⟨?_, ?_, .inl ?_⟩ <;> dsimp only <;> omega

/-! Equal numbers. -/

namespace Decoded

def isNegative : Decoded → Bool
  | .finite b => b.negative
  | .infinite negative => negative
  | .nan => false

end Decoded

theorem value_eq (b : Binary) :
    b.value = (if b.negative then -1 else 1) * (b.mantissa * 2 ^ b.exponent) := by
  obtain ⟨s, t, hratio, -, ht, hscale⟩ := exists_ratio b
  have ht' : (t : ℚ) ≠ 0 := Nat.cast_ne_zero.2 ht.ne'
  unfold Binary.value
  rw [hratio]
  dsimp only
  rw [Rat.mkRat_eq_div]
  split <;> push_cast <;> rw [hscale] <;> field_simp

theorem isReadAs_self (b : Binary) :
    IsReadAs b.mantissa b.exponent (b.mantissa * 2 ^ b.exponent) := by
  have hunit : (0 : ℚ) < 2 ^ b.exponent := by positivity
  have hlower : lowerEnd b.mantissa b.exponent < b.mantissa * 2 ^ b.exponent := by
    unfold lowerEnd
    split <;> linarith
  have hupper : (b.mantissa * 2 ^ b.exponent : ℚ) < upperEnd b.mantissa b.exponent := by
    unfold upperEnd
    linarith
  unfold IsReadAs
  split
  · exact ⟨hlower.le, hupper.le⟩
  · exact ⟨hlower, hupper⟩

/-- Stored numbers of one sign are equal only if they have the same bits. -/
theorem eq_of_value (h : Stored b.mantissa b.exponent) (h' : Stored b'.mantissa b'.exponent)
    (hsign : b.negative = b'.negative) (hvalue : b.value = b'.value) : b = b' := by
  rw [value_eq, value_eq, hsign] at hvalue
  have hfactor : ((if b'.negative then -1 else 1 : ℚ)) ≠ 0 := by split <;> norm_num
  have hself := isReadAs_self b
  rw [mul_left_cancel₀ hfactor hvalue] at hself
  obtain ⟨hmantissa, hexponent⟩ := read_unique h h' hself (isReadAs_self b')
  cases b
  cases b'
  simp_all

theorem decode_eq_iff (hx : x.isNaN = false) (hy : y.isNaN = false) :
    decode x = decode y ↔ Exact.ofFloat x = Exact.ofFloat y ∧
      (decode x).isNegative = (decode y).isNegative := by
  unfold Exact.ofFloat
  refine ⟨fun h => by rw [h]; exact ⟨rfl, rfl⟩, fun ⟨hexact, hsign⟩ => ?_⟩
  cases hdx : decode x with
  | finite b =>
    cases hdy : decode y with
    | finite b' =>
      rw [hdx, hdy] at hexact hsign
      have hvalue : b.value = b'.value := Exact.finite.inj hexact
      rw [eq_of_value (stored_of_decode hdx) (stored_of_decode hdy) hsign hvalue]
    | infinite negative => simp [hdx, hdy] at hexact
    | nan => exact absurd hdy (decode_ne_nan hy)
  | infinite negative =>
    cases hdy : decode y with
    | finite b' => simp [hdx, hdy] at hexact
    | infinite negative' =>
      rw [hdx, hdy] at hsign
      exact congrArg Decoded.infinite hsign
    | nan => exact absurd hdy (decode_ne_nan hy)
  | nan => exact absurd hdx (decode_ne_nan hx)

/-! The shape of texts. -/

/-- Digits, and then a point or an exponent. -/
def IsMarked (cs : List Char) : Prop :=
  ∃ ds mark rest, cs = ds ++ mark :: rest ∧ ds ≠ [] ∧ (∀ c ∈ ds, c.isDigit = true) ∧
    (mark = '.' ∨ mark = 'e')

theorem take_repr_ne_nil {k : ℕ} (hk : 0 < k) (n : ℕ) : (Nat.repr n).toList.take k ≠ [] := by
  have hpos : 0 < (Nat.repr n).length := Nat.length_repr_pos
  rw [← String.length_toList] at hpos
  intro h
  rcases List.take_eq_nil_iff.1 h with hzero | hnil
  · omega
  · rw [hnil] at hpos
    exact lt_irrefl 0 hpos

theorem isMarked_positional (n : ℕ) (leading : ℤ) :
    IsMarked (Layout.positional (Nat.repr n) leading).toList := by
  unfold Layout.positional
  split
  · exact ⟨['0'], '.', _, by simp [String.toList_append]; rfl, by simp, by simp, .inl rfl⟩
  · dsimp only
    split
    · refine ⟨(Nat.repr n).toList ++ List.replicate _ '0', '.', ['0'],
        by simp [String.toList_append]; rfl, by simp, fun c hc => ?_, .inl rfl⟩
      exact (List.mem_append.1 hc).elim isDigit_of_mem_repr isDigit_of_mem_zeros
    · exact ⟨_, '.', _, by simp [String.toList_append]; rfl, take_repr_ne_nil (Nat.succ_pos _) n,
        fun c hc => isDigit_of_mem_repr (List.mem_of_mem_take hc), .inl rfl⟩

theorem isMarked_scientific (l : Layout) (n : ℕ) (leading : ℤ) :
    IsMarked (l.scientific (Nat.repr n) leading).toList := by
  have hexponent : ∃ sign, (if leading < 0 then "e-" else "e+").toList = ['e', sign] := by
    split
    · exact ⟨'-', rfl⟩
    · exact ⟨'+', rfl⟩
  obtain ⟨sign, hsign⟩ := hexponent
  have hdigits : ∀ c ∈ (Nat.repr n).toList.take 1, c.isDigit = true :=
    fun c hc => isDigit_of_mem_repr (List.mem_of_mem_take hc)
  unfold Layout.scientific
  dsimp only
  split
  · exact ⟨_, 'e', _, by simp [String.toList_append, hsign]; rfl, take_repr_ne_nil Nat.one_pos n,
      hdigits, .inr rfl⟩
  · exact ⟨_, '.', _, by simp [String.toList_append, hsign]; rfl, take_repr_ne_nil Nat.one_pos n,
      hdigits, .inl rfl⟩

theorem isMarked_decimal (l : Layout) (x : Numeral) : IsMarked (l.decimal x).toList := by
  unfold Layout.decimal
  dsimp only
  split
  · exact isMarked_positional _ _
  · exact isMarked_scientific l _ _

theorem IsMarked.head_isDigit {cs : List Char} (h : IsMarked cs) :
    ∃ c ds, cs = c :: ds ∧ c.isDigit = true := by
  obtain ⟨ds, mark, rest, rfl, hne, hdigits, -⟩ := h
  obtain ⟨c, more, rfl⟩ := List.exists_cons_of_ne_nil hne
  exact ⟨c, _, rfl, hdigits c List.mem_cons_self⟩

/-! Signs. -/

def signed (negative : Bool) (s : String) : String := (if negative then "-" else "") ++ s

/-- The text of a number without its sign. -/
def unsigned (l : Layout) : Decoded → String
  | .finite b => l.decimal (shortest b)
  | .infinite _ => l.infinity
  | .nan => l.notANumber

theorem float_eq (l : Layout) (x : Float) :
    l.float x = signed (decode x).isNegative (unsigned l (decode x)) := by
  unfold Layout.float signed
  cases decode x <;> rfl

theorem signed_inj {negative negative' : Bool} (hs : s.toList.head? ≠ some '-')
    (ht : t.toList.head? ≠ some '-') (h : signed negative s = signed negative' t) :
    negative = negative' ∧ s = t := by
  have hlists := congrArg String.toList h
  unfold signed at hlists
  rw [String.toList_append, String.toList_append] at hlists
  cases negative <;> cases negative'
  · exact ⟨rfl, String.toList_inj.1 hlists⟩
  · exact absurd (congrArg List.head? hlists) hs
  · exact absurd (congrArg List.head? hlists).symm ht
  · exact ⟨rfl, String.toList_inj.1 (List.cons.inj hlists).2⟩

end ColumnFlow.Decimal

namespace ColumnFlow.Scalar

open Decimal

variable {x y : Float} {n : ℤ} {c : Char}

theorem head_unsigned (d : Decoded) : (unsigned numberLayout d).toList.head? ≠ some '-' := by
  cases d with
  | finite b =>
    obtain ⟨c, ds, htext, hdigit⟩ := (isMarked_decimal numberLayout (shortest b)).head_isDigit
    rw [unsigned, htext]
    rintro ⟨⟩
    exact absurd hdigit (by decide)
  | infinite negative => exact (by decide : "inf".toList.head? ≠ some '-')
  | nan => decide

/-- Something in the text of a binary number is neither a digit nor a sign. -/
theorem exists_mark (x : Float) : ∃ c ∈ (floatText x).toList, c ≠ '-' ∧ c.isDigit = false := by
  obtain ⟨c, hc, hmark⟩ : ∃ c ∈ (unsigned numberLayout (decode x)).toList,
      c ≠ '-' ∧ c.isDigit = false := by
    cases decode x with
    | finite b =>
      obtain ⟨ds, mark, rest, htext, -, -, hmark⟩ := isMarked_decimal numberLayout (shortest b)
      refine ⟨mark, by rw [unsigned, htext]; simp, ?_⟩
      rcases hmark with rfl | rfl <;> decide
    | infinite negative => exact ⟨'i', (by decide : 'i' ∈ "inf".toList), by decide⟩
    | nan => exact ⟨'n', by decide, by decide⟩
  refine ⟨c, ?_, hmark⟩
  rw [floatText, float_eq, signed, String.toList_append]
  exact List.mem_append_right _ hc

theorem isDigit_of_mem_int (hc : c ∈ (toString n).toList) : c = '-' ∨ c.isDigit = true := by
  change c ∈ n.repr.toList at hc
  cases n with
  | ofNat n => exact .inr (isDigit_of_mem_repr hc)
  | negSucc n =>
    rw [Int.repr, String.toList_append] at hc
    exact (List.mem_append.1 hc).imp (by simp) isDigit_of_mem_repr

theorem floatText_ne_int (x : Float) (n : ℤ) : floatText x ≠ toString n := by
  obtain ⟨c, hc, hsign, hdigit⟩ := exists_mark x
  intro h
  rw [h] at hc
  rcases isDigit_of_mem_int hc with rfl | hdigit'
  · exact hsign rfl
  · exact absurd (hdigit.symm.trans hdigit') Bool.false_ne_true

theorem decimal_ne_infinity (x : Numeral) : numberLayout.decimal x ≠ numberLayout.infinity := by
  obtain ⟨c, ds, htext, hdigit⟩ := (isMarked_decimal numberLayout x).head_isDigit
  intro h
  rw [h] at htext
  obtain rfl : 'i' = c := (List.cons.inj htext).1
  exact absurd hdigit (by decide)

/-- The text tells binary numbers apart, and zero from its negative. -/
theorem floatText_eq_iff (hx : x.isNaN = false) (hy : y.isNaN = false) :
    floatText x = floatText y ↔ Exact.ofFloat x = Exact.ofFloat y ∧
      (decode x).isNegative = (decode y).isNegative := by
  rw [← decode_eq_iff hx hy, floatText, floatText, float_eq, float_eq]
  refine ⟨fun h => ?_, fun h => by rw [h]⟩
  obtain ⟨hsign, htext⟩ := signed_inj (head_unsigned _) (head_unsigned _) h
  cases hdx : decode x with
  | finite b =>
    cases hdy : decode y with
    | finite b' =>
      rw [hdx, hdy] at hsign htext
      have hdenoted : (shortest b).value = (shortest b').value := by
        rw [← denoted_decimal numberLayout, ← denoted_decimal numberLayout]
        exact congrArg (fun s : String => denoted s.toList) htext
      obtain ⟨hmantissa, hexponent⟩ :=
        eq_of_shortest (stored_of_decode hdx) (stored_of_decode hdy) hdenoted
      cases b
      cases b'
      simp_all [Decoded.isNegative]
    | infinite negative =>
      rw [hdx, hdy] at htext
      exact absurd htext (decimal_ne_infinity _)
    | nan => exact absurd hdy (decode_ne_nan hy)
  | infinite negative =>
    cases hdy : decode y with
    | finite b' =>
      rw [hdx, hdy] at htext
      exact absurd htext.symm (decimal_ne_infinity _)
    | infinite negative' =>
      rw [hdx, hdy] at hsign
      exact congrArg Decoded.infinite hsign
    | nan => exact absurd hdy (decode_ne_nan hy)
  | nan => exact absurd hdx (decode_ne_nan hx)

end ColumnFlow.Scalar
