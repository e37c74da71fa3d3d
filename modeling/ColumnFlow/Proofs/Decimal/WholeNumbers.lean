import ColumnFlow.Proofs.Decimal.Texts

/-!
# Whole numbers as binary numbers

A whole number never becomes what is not a number. Whole numbers up to `2 ^ 53` keep their value:
their bits fit into a mantissa, so that nothing but zeros is shifted out when they are rounded.
-/
namespace ColumnFlow.Decimal

open Float.Model Float.Model.UnpackedFloat

variable {m n : ℕ} {e : ℤ} {x y : Float} {s : Sign}

/-! Rounding what can be stored. -/

theorem shiftRight_zeros (m k : ℕ) :
    (⟨m * 2 ^ k, false, false⟩ : ExtendedMantissa) >>> k = ⟨m, false, false⟩ := by
  induction k generalizing m with
  | zero =>
    rw [pow_zero, mul_one]
    rfl
  | succ k ih =>
    change ExtendedMantissa.shiftRightOne
      ((⟨m * 2 ^ (k + 1), false, false⟩ : ExtendedMantissa) >>> k) = _
    rw [pow_succ', ← mul_assoc, ih]
    simp [ExtendedMantissa.shiftRightOne]

theorem log2_mul_two_pow (hm : 0 < m) (k : ℕ) : (m * 2 ^ k).log2 = m.log2 + k := by
  rw [Nat.log2_eq_iff (Nat.mul_pos hm (Nat.two_pow_pos k)).ne', pow_add, add_right_comm, pow_add]
  exact ⟨Nat.mul_le_mul_right _ (Nat.log2_self_le hm.ne'),
    Nat.mul_lt_mul_of_pos_right Nat.lt_log2_self (Nat.two_pow_pos k)⟩

/-- The zeros behind a mantissa that can be stored are shifted out, and nothing else. -/
theorem shift_stored (hm : 0 < m) (h : Stored m e) (k : ℕ) :
    shiftToTargetExponent Format.binary64 (m * 2 ^ k) (e - k) .exact = (⟨m, false, false⟩, e) := by
  have hbits : m.log2 < 53 := (Nat.log2_lt hm.ne').2 h.lt
  have hleast := h.least
  have htarget : max (((m * 2 ^ k).log2 : ℤ) + (e - k) - 52) (-1074) = e := by
    rw [log2_mul_two_pow hm]
    rcases h.full with hfull | hleast
    · have hlog := (Nat.le_log2 hm.ne').2 hfull
      omega
    · omega
  unfold shiftToTargetExponent shiftToExponent
  rw [targetExponent_eq, htarget]
  dsimp only
  rw [show (e - (e - k)).toNat = k by omega]
  refine Prod.ext ?_ (sub_add_cancel _ _)
  exact shiftRight_zeros m k

theorem round_stored (hm : 0 < m) (h : Stored m e) (k : ℕ) :
    roundWithAccuracy Format.binary64 .positive (m * 2 ^ k) (e - k) .exact =
      .finite .positive m e hm := by
  have hagain := shift_stored hm h 0
  rw [pow_zero, mul_one, Nat.cast_zero, sub_zero] at hagain
  have hround := round_eq (m * 2 ^ k) (e - k)
  rw [shift_stored hm h k] at hround
  change ∀ hm : 0 < (shiftToTargetExponent Format.binary64 m e .exact).1.mantissa,
    _ = UnpackedFloat.finite _ _ (shiftToTargetExponent Format.binary64 m e .exact).2 hm at hround
  rw [hagain] at hround
  exact hround hm

/-! Numbers with their values. -/

/-- A finite number of some sign and magnitude, as it is stored. -/
def Stores (s : Sign) (q : ℚ) (x : Float) : Prop :=
  ∃ m e h, x.toModel.unpack = .finite s m e h ∧ Stored m e ∧ e ≤ 971 ∧ m * 2 ^ e = q

theorem stores_round (hm : 0 < m) (h : Stored m e) (he : e ≤ 971) (k : ℕ) :
    Stores .positive (m * 2 ^ e) ⟨Float.Model.pack
      (roundWithAccuracy Format.binary64 .positive (m * 2 ^ k) (e - k) .exact)⟩ := by
  rw [round_stored hm h k]
  exact ⟨m, e, hm, (unpack_pack .positive hm h).resolve_left (by omega), h, he, rfl⟩

theorem Stores.neg {q : ℚ} (h : Stores s q x) : Stores (-s) q (Float.neg x) := by
  obtain ⟨m, e, hm, hx, hstored, he, hq⟩ := h
  refine ⟨m, e, hm, ?_, hstored, he, hq⟩
  change unpack Format.binary64 (UnpackedFloat.pack Format.binary64 x.toModel.unpack.neg) = _
  rw [hx]
  exact (unpack_pack (-s) hm hstored).resolve_left (by omega)

theorem stores_toFloat {n : UInt64} (hn : 0 < n.toNat) (hlt : n.toNat < 2 ^ 53) :
    Stores .positive n.toNat n.toFloat := by
  have hlog : n.toNat.log2 < 53 := (Nat.log2_lt hn.ne').2 hlt
  obtain ⟨k, hk⟩ : ∃ k, k = 52 - n.toNat.log2 := ⟨_, rfl⟩
  have hshifted := log2_mul_two_pow hn k
  have hm : 0 < n.toNat * 2 ^ k := Nat.mul_pos hn (Nat.two_pow_pos k)
  have hstored : Stored (n.toNat * 2 ^ k) (-k) :=
    ⟨(Nat.log2_lt hm.ne').1 (by omega), by omega, .inl ((Nat.le_log2 hm.ne').1 (by omega))⟩
  have hround := stores_round hm hstored (by omega) 0
  rw [pow_zero, mul_one, Nat.cast_zero, sub_zero] at hround
  rw [toFloat_eq hn, ← hk, Nat.shiftLeft_eq]
  convert hround using 1
  push_cast
  rw [mul_assoc, zpow_neg, zpow_natCast, mul_inv_cancel₀ (by positivity), mul_one]

/-- A product with 1 is stored like the other factor. -/
theorem Stores.mul_one {q : ℚ} (h : Stores .positive q x)
    (hone : y.toModel.unpack = .finite .positive (2 ^ 52) (-52) (by decide)) :
    Stores .positive q (x * y) := by
  obtain ⟨m, e, hm, hx, hstored, he, rfl⟩ := h
  change Stores _ _ ⟨Float.Model.pack (UnpackedFloat.mul _ x.toModel.unpack y.toModel.unpack)⟩
  rw [hx, hone]
  exact stores_round hm hstored he 52

theorem stores_ofNat (hn : 0 < n) (hle : n ≤ 2 ^ 53) : Stores .positive n (Float.ofNat n) := by
  rcases hle.lt_or_eq with hlt | rfl
  · obtain ⟨hprod, hword⟩ := ofNat_small hlt
    have hfactor := stores_toFloat (by omega : 0 < n.toUInt64.toNat) (by omega)
    rw [hword] at hfactor
    rw [hprod]
    exact hfactor.mul_one unpack_one
  · rw [ofNat_large le_rfl]
    have hround := stores_round (m := 2 ^ 52) (e := 1) (by decide)
      ⟨by decide, by decide, .inl le_rfl⟩ (by decide) 54
    norm_num at hround ⊢
    exact hround

/-! Bits. -/

theorem toNat_unpackSign (x : Float) :
    (@unpackSign Format.binary64 x.toModel.toBits.toBitVec).toNat =
      x.toBits.toNat / Nat.pow 2 63 := by
  have hbits := x.toBits.toNat_lt
  change (BitVec.extractLsb _ _ _).toNat = _
  rw [BitVec.extractLsb_toNat, Nat.shiftRight_eq_div_pow]
  change x.toBits.toNat / 2 ^ 63 % 2 ^ 1 = x.toBits.toNat / 2 ^ 63
  omega

def isNegative : Sign → Bool
  | .negative => true
  | .positive => false

theorem isNegative_ofBitVec : ∀ b : BitVec 1, isNegative (.ofBitVec b) = (b.toNat == 1) := by
  decide

/-- The bits of a number tell its sign, mantissa and exponent. -/
theorem decode_eq (hm : 0 < m) (hx : x.toModel.unpack = .finite s m e hm) :
    decode x = .finite ⟨isNegative s, m, e⟩ := by
  have hbias : ((Format.binary64.exponentBias : ℤ) + (52 : ℕ)) = 1075 := rfl
  change UnpackedFloat.unpack Format.binary64 x.toModel.toBits.toBitVec = _ at hx
  unfold UnpackedFloat.unpack at hx
  unfold decode
  simp only at hx ⊢
  split at hx
  · split at hx <;> cases hx
  · next hones =>
    rw [if_neg (c := _ = 2047) (mt (unpackExponent_eq_iff x (-1#11)).2 hones)]
    split at hx
    · next hzero =>
      split at hx
      · cases hx
      · cases hx
        rw [if_pos (c := _ = 0) ((unpackExponent_eq_iff x 0#11).1 hzero), isNegative_ofBitVec,
          toNat_unpackMantissa, toNat_unpackSign, hzero, hbias]
        rfl
    · next hzero =>
      cases hx
      rw [if_neg (c := _ = 0) (mt (unpackExponent_eq_iff x 0#11).2 hzero), isNegative_ofBitVec,
        BitVec.toNat_append, ← Nat.shiftLeft_add_eq_or_of_lt (BitVec.isLt _), toNat_unpackMantissa,
        toNat_unpackExponent, toNat_unpackSign, hbias, Nat.add_comm]
      rfl

/-! Values. -/

theorem Stores.exact {q : ℚ} (h : Stores s q x) :
    Exact.ofFloat x = .finite ((if isNegative s then -1 else 1) * q) := by
  obtain ⟨m, e, hm, hx, -, -, rfl⟩ := h
  unfold Exact.ofFloat
  rw [decode_eq hm hx]
  exact congrArg Exact.finite (value_eq ⟨isNegative s, m, e⟩)

/-- Whole numbers of up to 53 bits keep their value. -/
theorem exact_ofInt {n : ℤ} (hn : n.natAbs ≤ 2 ^ 53) :
    Exact.ofFloat (Float.ofInt n) = .finite n := by
  rcases n with n | n
  · rcases n.eq_zero_or_pos with rfl | hpos
    · decide +kernel
    · refine (stores_ofNat hpos hn).exact.trans ?_
      simp [isNegative]
  · refine (stores_ofNat n.succ_pos hn).neg.exact.trans ?_
    change Exact.finite ((if isNegative .negative then -1 else 1) * _) = _
    rw [Int.cast_negSucc]
    simp [isNegative]

/-- No whole number becomes what is not a number. -/
theorem isNaN_ofInt (n : ℤ) : (Float.ofInt n).isNaN = false := by
  change (Float.ofInt n).toModel.unpack.isNaN = false
  rcases n with n | n
  · rcases n.eq_zero_or_pos with rfl | hpos
    · decide +kernel
    · change (Float.ofNat n).toModel.unpack.isNaN = false
      rcases reaches_ofNat hpos with hx | ⟨m, e, hm, hx, -, -⟩ <;> rw [hx] <;> rfl
  · change (unpack Format.binary64 (UnpackedFloat.pack Format.binary64
      (Float.ofNat (n + 1)).toModel.unpack.neg)).isNaN = false
    rcases reaches_ofNat n.succ_pos with hx | ⟨m, e, hm, hx, hstored, -⟩ <;> rw [hx]
    · exact congrArg UnpackedFloat.isNaN (unpack_infinity .negative)
    · rcases unpack_pack .negative hm hstored with ⟨-, hread⟩ | hread
      · exact congrArg UnpackedFloat.isNaN hread
      · exact congrArg UnpackedFloat.isNaN hread

end ColumnFlow.Decimal
