import Mathlib

/-!
# Rounding keeps magnitudes

A binary number is rounded to one of no smaller magnitude, that is with no smaller place of its
highest bit, as long as this place is not below all that numbers have. So the product of a positive
number with one that is not below 1 is positive, although it is rounded.
-/
namespace ColumnFlow.Decimal

open Float.Model Float.Model.UnpackedFloat

variable {m : ℕ} {e k : ℤ} {x y : Float}

/-- Mantissas and exponents of numbers that can be stored. -/
structure Stored (m : ℕ) (e : ℤ) : Prop where
  lt : m < 2 ^ 53
  least : -1074 ≤ e
  full : 2 ^ 52 ≤ m ∨ e = -1074

/-! Rounding. -/

theorem targetExponent_eq (m : ℕ) (e : ℤ) :
    Format.binary64.targetExponent (totalExponent m e) = max (m.log2 + e - 52) (-1074) := by
  change max ((m.log2 : ℤ) + 1 + e - 53) (3 - 2 ^ 10 - 53) = _
  omega

theorem mantissa_shiftRight (b : ExtendedMantissa) (n : ℕ) :
    (b >>> n).mantissa = b.mantissa / 2 ^ n := by
  change (n.repeat ExtendedMantissa.shiftRightOne b).mantissa = _
  induction n with
  | zero => exact (Nat.div_one _).symm
  | succ n ih =>
    change (n.repeat ExtendedMantissa.shiftRightOne b).mantissa / 2 = _
    rw [ih, Nat.div_div_eq_div_mul, pow_succ]

theorem roundedMantissa_bounds (b : ExtendedMantissa) :
    b.mantissa ≤ b.roundedMantissa ∧ b.roundedMantissa ≤ b.mantissa + 1 := by
  obtain ⟨m, r, s⟩ := b
  have hodd := Nat.mod_lt m (by decide : 2 > 0)
  cases r <;> cases s <;>
    simp only [ExtendedMantissa.roundedMantissa, ExtendedMantissa.accuracy,
      Accuracy.roundToNearestEven] <;> omega

/-- Mantissas are shifted to the right until they have 53 bits, and further where exponents end. -/
theorem exists_shift (m : ℕ) (e : ℤ) :
    ∃ n : ℕ, (n : ℤ) = max (max (m.log2 + e - 52) (-1074) - e) 0 ∧
      (shiftToTargetExponent Format.binary64 m e .exact).1.mantissa = m / 2 ^ n ∧
      (shiftToTargetExponent Format.binary64 m e .exact).2 = e + n := by
  refine ⟨(max (m.log2 + e - 52) (-1074) - e).toNat, Int.toNat_eq_max _, ?_, ?_⟩ <;>
    unfold shiftToTargetExponent shiftToExponent <;> rw [targetExponent_eq]
  exact mantissa_shiftRight _ _

/-- A mantissa that has one bit more after rounding is shifted once more, and no other one is. -/
theorem exists_carry (hm : 0 < m) (hle : m ≤ 2 ^ 53) (he : -1074 ≤ e)
    (hfull : 2 ^ 52 ≤ m ∨ e = -1074) :
    ∃ (m' : ℕ) (e' : ℤ), 0 < m' ∧ Stored m' e' ∧ m.log2 + e ≤ m'.log2 + e' ∧
      (shiftToTargetExponent Format.binary64 m e .exact).1.mantissa = m' ∧
      (shiftToTargetExponent Format.binary64 m e .exact).2 = e' := by
  obtain ⟨n, hn, hmantissa, hexponent⟩ := exists_shift m e
  rcases hle.lt_or_eq with hlt | rfl
  · have hlog : m.log2 < 53 := (Nat.log2_lt hm.ne').2 hlt
    obtain rfl : n = 0 := by omega
    exact ⟨m, e, hm, ⟨hlt, he, hfull⟩, le_refl _, by simpa using hmantissa,
      by simpa using hexponent⟩
  · rw [Nat.log2_two_pow] at hn ⊢
    obtain rfl : n = 1 := by omega
    refine ⟨2 ^ 52, e + 1, by decide, ⟨by decide, by omega, .inl le_rfl⟩, ?_, hmantissa, hexponent⟩
    rw [Nat.log2_two_pow]
    push_cast
    omega

/-- Rounding shifts twice, if the mantissa does not vanish. -/
theorem round_eq (m : ℕ) (e : ℤ) :
    let first := shiftToTargetExponent Format.binary64 m e .exact
    let second := shiftToTargetExponent Format.binary64 first.1.roundedMantissa first.2 .exact
    ∀ h : 0 < second.1.mantissa, roundWithAccuracy Format.binary64 .positive m e .exact =
      .finite .positive second.1.mantissa second.2 h := by
  intro first second h
  unfold roundWithAccuracy
  exact dif_neg h.ne'

/-- A positive number is rounded to one that can be stored, whose highest bit has no lower place. -/
theorem exists_round (hm : 0 < m) (he : e ≤ max (m.log2 + e - 52) (-1074))
    (hplace : -1074 ≤ m.log2 + e) :
    ∃ (m' : ℕ) (e' : ℤ) (h : 0 < m'), Stored m' e' ∧ m.log2 + e ≤ m'.log2 + e' ∧
      roundWithAccuracy Format.binary64 .positive m e .exact = .finite .positive m' e' h := by
  obtain ⟨n, hn, hmantissa, hexponent⟩ := exists_shift m e
  have hrounds := round_eq m e
  generalize shiftToTargetExponent Format.binary64 m e .exact = first at *
  let r := first.1.roundedMantissa
  obtain ⟨hlow, hhigh⟩ : m / 2 ^ n ≤ r ∧ r ≤ m / 2 ^ n + 1 := hmantissa ▸ roundedMantissa_bounds _
  have hbits : 2 ^ (m.log2 - n) ≤ m / 2 ^ n := by
    rw [Nat.le_div_iff_mul_le (Nat.two_pow_pos n), ← pow_add, Nat.sub_add_cancel (by omega)]
    exact Nat.log2_self_le hm.ne'
  have hbound : m / 2 ^ n < 2 ^ 53 := by
    rw [Nat.div_lt_iff_lt_mul (Nat.two_pow_pos n), ← pow_add]
    exact Nat.lt_log2_self.trans_le (Nat.pow_le_pow_right (by decide) (by omega))
  have hr : 0 < r := (Nat.two_pow_pos _).trans_le (hbits.trans hlow)
  have hfull : 2 ^ 52 ≤ r ∨ first.2 = -1074 := by
    by_cases hleast : first.2 = -1074
    · exact .inr hleast
    · refine .inl (le_trans ?_ (hbits.trans hlow))
      exact Nat.pow_le_pow_right (by decide) (by omega)
  obtain ⟨_, _, hm', hstored, hplace', rfl, rfl⟩ := exists_carry hr (by omega) (by omega) hfull
  have hlog : m.log2 - n ≤ r.log2 := (Nat.le_log2 hr.ne').2 (hbits.trans hlow)
  exact ⟨_, _, hm', hstored, by omega, hrounds hm'⟩

/-! Storing. -/

theorem unpack_infinity (s : Sign) :
    unpack Format.binary64 (UnpackedFloat.pack Format.binary64 (.infinity s)) = .infinity s := by
  cases s <;> rfl

theorem ofBitVec_toBitVec (s : Sign) : Sign.ofBitVec s.toBitVec = s := by
  cases s <;> rfl

theorem finite_congr {s s' : Sign} {m' : ℕ} {e' : ℤ} {h : 0 < m} {h' : 0 < m'} (hs : s = s')
    (hm : m = m') (he : e = e') : UnpackedFloat.finite s m e h = .finite s' m' e' h' := by
  subst hs hm he
  rfl

/-- Numbers with the highest bit have exponents from 1 on. -/
theorem unpack_normal (s : Sign) {b : ℕ} (hm : 0 < m) (hfull : 2 ^ 52 ≤ m) (hlt : m < 2 ^ 53)
    (hb : 0 < b) (hbound : b < 2047) :
    unpack Format.binary64 (packComponents Format.binary64 s (.ofNat 11 b) (.ofNat 52 m)) =
      .finite s m (b - 1075) hm := by
  have hexponent : (BitVec.ofNat 11 b).toNat = b := by
    rw [BitVec.toNat_ofNat, Nat.mod_eq_of_lt (by omega)]
  have hmantissa : (1#1 ++ BitVec.ofNat 52 m).toNat = m := by
    rw [BitVec.toNat_append, ← Nat.shiftLeft_add_eq_or_of_lt (BitVec.isLt _)]
    change 2 ^ 52 + m % 2 ^ 52 = m
    omega
  have hones : BitVec.ofNat 11 b ≠ -1#11 := fun h => by
    rw [h] at hexponent
    change 2047 = b at hexponent
    omega
  have hzero : BitVec.ofNat 11 b ≠ 0#11 := fun h => by
    rw [h] at hexponent
    change 0 = b at hexponent
    omega
  unfold UnpackedFloat.unpack
  simp only [unpackMantissa_packComponents, unpackExponent_packComponents,
    unpackSign_packComponents, hones, hzero, if_false]
  refine finite_congr (ofBitVec_toBitVec s) hmantissa ?_
  rw [hexponent]
  rfl

/-- Numbers without the highest bit have the exponent 0. -/
theorem unpack_subnormal (s : Sign) (hm : 0 < m) (hlt : m < 2 ^ 52) :
    unpack Format.binary64 (packComponents Format.binary64 s 0#11 (.ofNat 52 m)) =
      .finite s m (-1074) hm := by
  have hmantissa : (BitVec.ofNat 52 m).toNat = m := by
    rw [BitVec.toNat_ofNat, Nat.mod_eq_of_lt hlt]
  have hzero : BitVec.ofNat 52 m ≠ 0#52 := fun h => by
    rw [h] at hmantissa
    change 0 = m at hmantissa
    omega
  have hones : (0#11) ≠ -1#11 := by decide
  unfold UnpackedFloat.unpack
  simp only [unpackMantissa_packComponents, unpackExponent_packComponents,
    unpackSign_packComponents, hones, hzero, if_true, if_false, dite_false]
  exact finite_congr (ofBitVec_toBitVec s) hmantissa rfl

/-- What can be stored is read back; numbers of a greater exponent are stored as infinity. -/
theorem unpack_pack (s : Sign) (h : 0 < m) (hstored : Stored m e) :
    let read := unpack Format.binary64 (UnpackedFloat.pack Format.binary64 (.finite s m e h))
    971 < e ∧ read = .infinity s ∨ read = .finite s m e h := by
  obtain ⟨hlt, hleast, hfull⟩ := hstored
  obtain ⟨b, hb⟩ : ∃ b : ℕ, (b : ℤ) = e + 1075 := ⟨(e + 1075).toNat, by omega⟩
  intro read
  have hread : read = unpack Format.binary64 (if 2 ^ 11 ≤ b + 1 then packedInfinity _ s
      else if m.log2 + 1 = 53 then packComponents _ s (.ofNat 11 b) (.ofNat 52 m)
      else packComponents _ s 0#11 (.ofNat 52 m)) := by
    obtain rfl : b = (e + 1023 + 52).toNat := by omega
    rfl
  rw [hread]
  split
  · exact .inl ⟨by omega, unpack_infinity s⟩
  · right
    split
    · have hm : 2 ^ 52 ≤ m := (Nat.le_log2 h.ne').1 (by omega)
      rw [unpack_normal s h hm hlt (by omega) (by omega)]
      exact finite_congr rfl rfl (by omega)
    · have hm : m < 2 ^ 52 := by
        have hlog := (Nat.log2_lt h.ne').2 hlt
        exact (Nat.log2_lt h.ne').1 (by omega)
      rw [unpack_subnormal s h hm]
      exact finite_congr rfl rfl (hfull.resolve_left (by omega)).symm

/-! Positive numbers. -/

/-- A positive number whose highest bit has no place below some place, or infinity. -/
def Reaches (k : ℤ) (x : Float) : Prop :=
  x.toModel.unpack = .infinity .positive ∨
    ∃ m e h, x.toModel.unpack = .finite .positive m e h ∧ Stored m e ∧ k ≤ m.log2 + e

theorem Reaches.mono {j : ℤ} (h : Reaches k x) (hjk : j ≤ k) : Reaches j x :=
  h.imp_right fun ⟨m, e, hm, hx, hstored, hk⟩ => ⟨m, e, hm, hx, hstored, hjk.trans hk⟩

theorem reaches_round (hm : 0 < m) (he : e ≤ max (m.log2 + e - 52) (-1074))
    (hplace : -1074 ≤ m.log2 + e) :
    Reaches (m.log2 + e)
      ⟨Float.Model.pack (roundWithAccuracy Format.binary64 .positive m e .exact)⟩ := by
  obtain ⟨m', e', hm', hstored, hk, hround⟩ := exists_round hm he hplace
  rw [hround]
  exact (unpack_pack .positive hm' hstored).imp And.right fun hread =>
    ⟨m', e', hm', hread, hstored, hk⟩

theorem log2_add_le (hm : 0 < m) {m' : ℕ} (hm' : 0 < m') : m.log2 + m'.log2 ≤ (m * m').log2 := by
  rw [Nat.le_log2 (Nat.mul_pos hm hm').ne', pow_add]
  exact Nat.mul_le_mul (Nat.log2_self_le hm.ne') (Nat.log2_self_le hm'.ne')

/-- A product with a number from 1 on keeps the magnitude of the other factor. -/
theorem Reaches.mul (hx : Reaches k x) (hy : Reaches 0 y) : Reaches k (x * y) := by
  change Reaches k ⟨Float.Model.pack (UnpackedFloat.mul _ x.toModel.unpack y.toModel.unpack)⟩
  rcases hx with hx | ⟨m, e, hm, hx, hstored, hk⟩ <;>
    rcases hy with hy | ⟨m', e', hm', hy, hstored', hk'⟩ <;> rw [hx, hy]
  · exact .inl (unpack_infinity .positive)
  · exact .inl (unpack_infinity .positive)
  · exact .inl (unpack_infinity .positive)
  · have hlog := log2_add_le hm hm'
    have hbits : 52 ≤ m'.log2 := by
      rcases hstored'.full with hfull | hleast
      · exact (Nat.le_log2 hm'.ne').2 hfull
      · omega
    have hleast := hstored.least
    exact (reaches_round (Nat.mul_pos hm hm') (by omega) (by omega)).mono (by omega)

/-- Numbers are read as numbers that can be stored. -/
theorem stored_of_unpack {b : BitVec Format.binary64.numBits} {s : Sign} (h : 0 < m)
    (hb : unpack Format.binary64 b = .finite s m e h) : Stored m e := by
  have hbias : ((Format.binary64.exponentBias : ℤ) + (52 : ℕ)) = 1075 := rfl
  unfold UnpackedFloat.unpack at hb
  simp only at hb
  split at hb
  · split at hb <;> cases hb
  · split at hb
    · next hexponent =>
      split at hb
      · cases hb
      · cases hb
        rw [hexponent, hbias]
        exact ⟨(BitVec.isLt _).trans (by decide), by decide, .inr rfl⟩
    · next hexponent =>
      cases hb
      have hpos : 0 < (unpackExponent b).toNat := by
        refine Nat.pos_of_ne_zero fun hzero => hexponent ?_
        exact BitVec.eq_of_toNat_eq hzero
      rw [hbias]
      refine ⟨BitVec.isLt _, by omega, .inl ?_⟩
      rw [BitVec.toNat_append, ← Nat.shiftLeft_add_eq_or_of_lt (BitVec.isLt _)]
      exact Nat.le_add_right _ _

theorem lt_iff (x y : Float) : x < y ↔ x.toModel.unpack.compare y.toModel.unpack = some .lt := by
  rw [← beq_iff_eq]
  change decide (Float.Model.UnpackedFloat.lt _ _ = true) = true ↔ _
  rw [decide_eq_true_eq]
  rfl

theorem unpack_zero : (0.0 : Float).toModel.unpack = .zero .positive := by rfl

theorem reaches_of_pos (h : 0.0 < x) : Reaches (-1074) x := by
  rw [lt_iff, unpack_zero] at h
  cases hx : x.toModel.unpack with
  | notANumber =>
    rw [hx] at h
    cases h
  | infinity s =>
    rw [hx] at h
    cases s with
    | positive => exact .inl hx
    | negative => cases h
  | zero s =>
    rw [hx] at h
    cases h
  | finite s m e hm =>
    rw [hx] at h
    cases s with
    | positive =>
      have hstored := stored_of_unpack hm hx
      have hleast := hstored.least
      exact .inr ⟨m, e, hm, hx, hstored, by omega⟩
    | negative => cases h

theorem Reaches.pos (h : Reaches k x) : 0.0 < x := by
  rw [lt_iff, unpack_zero]
  rcases h with h | ⟨m, e, hm, h, -⟩ <;> rw [h] <;> rfl

/-! Whole numbers. -/

theorem reaches_shifted {n k : ℕ} (hn : 0 < n) (hbits : 52 ≤ n.log2 + k) :
    Reaches 0
      ⟨Float.Model.pack (roundWithAccuracy Format.binary64 .positive (n <<< k) (-k) .exact)⟩ := by
  rw [Nat.shiftLeft_eq]
  have hlog := log2_add_le hn (Nat.two_pow_pos k)
  rw [Nat.log2_two_pow] at hlog
  exact (reaches_round (Nat.mul_pos hn (Nat.two_pow_pos k)) (by omega) (by omega)).mono (by omega)

theorem toFloat_eq {n : UInt64} (hn : 0 < n.toNat) :
    n.toFloat = ⟨Float.Model.pack (roundWithAccuracy Format.binary64 .positive
      (n.toNat <<< (52 - n.toNat.log2)) (-(52 - n.toNat.log2 : ℕ)) .exact)⟩ := by
  have hround : n.toFloat =
      ⟨Float.Model.pack (UnpackedFloat.round Format.binary64 .positive n.toNat 0)⟩ := by
    change Float.ofModel (Float.Model.pack (normalize Format.binary64 n.toNat 0 .positive)) = _
    unfold UnpackedFloat.normalize
    rw [Int.compare_eq_gt.2 (by omega)]
    rfl
  have hshift : (0 - max ((n.toNat.log2 : ℤ) + 0 - 52) (-1074)).toNat = 52 - n.toNat.log2 := by
    omega
  rw [hround]
  unfold UnpackedFloat.round decreaseExponent
  rw [targetExponent_eq]
  dsimp only
  rw [hshift, zero_sub]

theorem reaches_toFloat {n : UInt64} (hn : 0 < n.toNat) : Reaches 0 n.toFloat := by
  rw [toFloat_eq hn]
  exact reaches_shifted hn (by omega)

/-- The number 1, by which a whole number of 64 bits is multiplied. -/
theorem unpack_one : Float.exactlyRepresentablePowersOfTen[0].toModel.unpack =
    .finite .positive (2 ^ 52) (-52) (by decide) := by
  unfold Float.exactlyRepresentablePowersOfTen
  rfl

theorem ofNat_small {n : ℕ} (hn : n < 2 ^ 53) : Float.ofNat n =
    n.toUInt64.toFloat * Float.exactlyRepresentablePowersOfTen[0] ∧ n.toUInt64.toNat = n := by
  refine ⟨?_, Nat.mod_eq_of_lt (by omega)⟩
  change Float.ofScientific n false 0 = _
  unfold Float.ofScientific
  exact dif_pos ⟨hn, by decide⟩

theorem ofNat_large {n : ℕ} (hn : 2 ^ 53 ≤ n) : Float.ofNat n =
    ⟨Float.Model.pack (roundWithAccuracy Format.binary64 .positive (n <<< 53) (-53) .exact)⟩ := by
  have hround : Float.Model.UnpackedFloat.ofScientific Format.binary64 n 0 =
      roundWithAccuracy Format.binary64 .positive (n <<< 53 * 1) (-53 + 0) .exact := by
    unfold UnpackedFloat.ofScientific
    have hexponents : (0 : ℤ) ≤ 2 ^ Format.binary64.exponentBits := by positivity
    rw [dif_neg (by omega), if_neg (by omega), if_neg (by omega), if_pos le_rfl]
    rfl
  rw [mul_one, add_zero] at hround
  rw [← hround]
  change Float.ofScientific n false 0 = _
  unfold Float.ofScientific
  exact dif_neg (by omega)

theorem reaches_ofNat {n : ℕ} (hn : 0 < n) : Reaches 0 (Float.ofNat n) := by
  by_cases hsmall : n < 2 ^ 53
  · obtain ⟨hprod, hword⟩ := ofNat_small hsmall
    rw [hprod]
    exact (reaches_toFloat (by omega)).mul
      (.inr ⟨_, _, _, unpack_one, ⟨by decide, by decide, .inl le_rfl⟩, by decide⟩)
  · rw [ofNat_large (by omega)]
    exact reaches_shifted hn (by omega)

/-- A positive share of some rows is more than nothing. -/
theorem pos_mul_ofNat {n : ℕ} (hx : 0.0 < x) (hn : 0 < n) : 0.0 < x * Float.ofNat n :=
  ((reaches_of_pos hx).mul (reaches_ofNat hn)).pos

end ColumnFlow.Decimal
