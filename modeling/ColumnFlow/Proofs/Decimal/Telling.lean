import ColumnFlow.Proofs.Decimal.Notation
import ColumnFlow.Proofs.Decimal.Rounding

/-!
# Shortest decimals tell numbers apart

A binary number is the nearest one for an interval around it, and the intervals of two numbers
share no point: where their ends meet, the ends belong to the number with the even mantissa only.
The search for the shortest decimal ends in a point of the interval, at the latest on the grid of
17 digits, which is finer than the interval. So the text of a number determines the number.
-/
namespace ColumnFlow.Decimal

variable {m m' n d : ℕ} {e e' : ℤ} {q : ℚ} {b b' : Binary}

/-! Intervals. -/

/-- The end of the interval below a number, which lies closer to powers of two. -/
def lowerEnd (m : ℕ) (e : ℤ) : ℚ :=
  m * 2 ^ e - if m = hiddenBit ∧ e ≠ -1074 then 2 ^ e / 4 else 2 ^ e / 2

def upperEnd (m : ℕ) (e : ℤ) : ℚ := m * 2 ^ e + 2 ^ e / 2

/-- What is read as `m * 2 ^ e`. -/
def IsReadAs (m : ℕ) (e : ℤ) (q : ℚ) : Prop :=
  if m % 2 = 0 then lowerEnd m e ≤ q ∧ q ≤ upperEnd m e else lowerEnd m e < q ∧ q < upperEnd m e

theorem IsReadAs.bounds (h : IsReadAs m e q) : lowerEnd m e ≤ q ∧ q ≤ upperEnd m e := by
  unfold IsReadAs at h
  split at h
  · exact h
  · exact ⟨h.1.le, h.2.le⟩

theorem IsReadAs.even_of_eq (h : IsReadAs m e q) (heq : q = lowerEnd m e ∨ q = upperEnd m e) :
    m % 2 = 0 := by
  by_contra hodd
  rw [IsReadAs, if_neg hodd] at h
  rcases heq with rfl | rfl
  · exact lt_irrefl _ h.1
  · exact lt_irrefl _ h.2

theorem lowerEnd_ge (m : ℕ) (e : ℤ) : (m - 1 / 2) * 2 ^ e ≤ lowerEnd m e := by
  have hunit : (0 : ℚ) < 2 ^ e := by positivity
  unfold lowerEnd
  split <;> linarith

/-- Among numbers of one exponent the next interval starts where the last ended, and one of the
two mantissas is odd. -/
theorem ends_of_lt (h : m < m') :
    upperEnd m e ≤ lowerEnd m' e ∧ (upperEnd m e = lowerEnd m' e → m % 2 = 0 → m' % 2 ≠ 0) := by
  have hunit : (0 : ℚ) < 2 ^ e := by positivity
  have hlower := lowerEnd_ge m' e
  have hupper : upperEnd m e = (m + 1 / 2) * 2 ^ e := by
    unfold upperEnd
    ring
  have hnext : ((m : ℚ) + 1) ≤ m' := by exact_mod_cast h
  rw [hupper]
  refine ⟨?_, fun heq heven heven' => ?_⟩
  · exact (mul_le_mul_of_nonneg_right (by linarith) hunit.le).trans hlower
  · have hfar : ((m : ℚ) + 2) ≤ m' := by exact_mod_cast (by omega : m + 2 ≤ m')
    have hgap : ((m : ℚ) + 1 / 2) * 2 ^ e < (m' - 1 / 2) * 2 ^ e :=
      mul_lt_mul_of_pos_right (by linarith) hunit
    linarith

/-- Among numbers of a greater exponent the least mantissa has the highest bit. -/
theorem ends_of_exponent_lt (h : Stored m e) (h' : Stored m' e') (hlt : e < e') :
    upperEnd m e ≤ lowerEnd m' e' ∧ (upperEnd m e = lowerEnd m' e' → m % 2 ≠ 0) := by
  have hunit : (0 : ℚ) < 2 ^ e := by positivity
  have hleast := h.least
  have hfull : 2 ^ 52 ≤ m' := h'.full.resolve_right (by omega)
  have hdouble : (2 : ℚ) * 2 ^ e ≤ 2 ^ e' := by
    rw [← zpow_one_add₀ (by norm_num)]
    exact zpow_le_zpow_right₀ (by norm_num) (by omega)
  have hlower : ((2 : ℚ) ^ 52 - 1 / 4) * 2 ^ e' ≤ lowerEnd m' e' := by
    have hunit' : (0 : ℚ) < 2 ^ e' := by positivity
    unfold lowerEnd
    split
    · next hpower =>
      have hm : (m' : ℚ) = 2 ^ 52 := by exact_mod_cast hpower.1
      rw [hm]
      linarith
    · next hpower =>
      have hm : ((2 : ℚ) ^ 52 + 1) ≤ m' := by
        have hne : m' ≠ 2 ^ 52 := fun heq => hpower ⟨heq, by omega⟩
        exact_mod_cast (by omega : 2 ^ 52 + 1 ≤ m')
      have hscaled := mul_le_mul_of_nonneg_right hm hunit'.le
      linarith
  have hbelow : ((2 : ℚ) ^ 53 - 1 / 2) * 2 ^ e ≤ lowerEnd m' e' := by linarith
  have hupper : upperEnd m e = (m + 1 / 2) * 2 ^ e := by
    unfold upperEnd
    ring
  have hm : (m : ℚ) + 1 ≤ 2 ^ 53 := by exact_mod_cast h.lt
  rw [hupper]
  refine ⟨(mul_le_mul_of_nonneg_right (by linarith) hunit.le).trans hbelow, fun heq heven => ?_⟩
  have hlt' : (m : ℚ) + 2 ≤ 2 ^ 53 := by
    have := h.lt
    exact_mod_cast (by omega : m + 2 ≤ 2 ^ 53)
  have hgap : ((m : ℚ) + 1 / 2) * 2 ^ e < (2 ^ 53 - 1 / 2) * 2 ^ e :=
    mul_lt_mul_of_pos_right (by linarith) hunit
  linarith

/-- Numbers in an order have intervals in that order. -/
theorem not_read_twice (h : Stored m e) (h' : Stored m' e')
    (hlt : e < e' ∨ e = e' ∧ m < m') (hq : IsReadAs m e q) : ¬IsReadAs m' e' q := by
  intro hq'
  obtain ⟨hle, hmeet⟩ : upperEnd m e ≤ lowerEnd m' e' ∧
      (upperEnd m e = lowerEnd m' e' → m % 2 = 0 → m' % 2 ≠ 0) := by
    rcases hlt with hlt | ⟨rfl, hlt⟩
    · obtain ⟨hle, hmeet⟩ := ends_of_exponent_lt h h' hlt
      exact ⟨hle, fun heq heven => absurd heven (hmeet heq)⟩
    · exact ends_of_lt hlt
  have hupper := hq.bounds.2
  have hlower := hq'.bounds.1
  have heq : upperEnd m e = lowerEnd m' e' := by linarith
  exact hmeet heq (hq.even_of_eq (.inr (by linarith))) (hq'.even_of_eq (.inl (by linarith)))

/-- One number is read from a point. -/
theorem read_unique (h : Stored m e) (h' : Stored m' e') (hq : IsReadAs m e q)
    (hq' : IsReadAs m' e' q) : m = m' ∧ e = e' := by
  by_contra hne
  rcases lt_trichotomy e e' with hlt | rfl | hlt
  · exact not_read_twice h h' (.inl hlt) hq hq'
  · rcases lt_trichotomy m m' with hlt | rfl | hlt
    · exact not_read_twice h h' (.inr ⟨rfl, hlt⟩) hq hq'
    · exact hne ⟨rfl, rfl⟩
    · exact not_read_twice h' h (.inr ⟨rfl, hlt⟩) hq' hq
  · exact not_read_twice h' h (.inl hlt) hq' hq

/-! Grids. -/

/-- The fraction is the mantissa times a unit. -/
theorem exists_ratio (b : Binary) :
    ∃ s t : ℕ, b.ratio = (b.mantissa * s, t) ∧ 0 < s ∧ 0 < t ∧ (s : ℚ) = 2 ^ b.exponent * t := by
  unfold Binary.ratio
  split
  · next hle =>
    refine ⟨2 ^ b.exponent.toNat, 1, rfl, Nat.two_pow_pos _, Nat.one_pos, ?_⟩
    rw [Nat.cast_one, mul_one, Nat.cast_pow, Nat.cast_ofNat, ← zpow_natCast,
      Int.toNat_of_nonneg hle]
  · next hlt =>
    refine ⟨1, 2 ^ (-b.exponent).toNat, by rw [mul_one]; rfl, Nat.one_pos, Nat.two_pow_pos _, ?_⟩
    rw [Nat.cast_one, Nat.cast_pow, Nat.cast_ofNat, ← zpow_natCast,
      Int.toNat_of_nonneg (by omega), ← zpow_add₀ (by norm_num), add_neg_cancel, zpow_zero]

/-- So is the fraction that has been shifted. -/
theorem exists_unit (b : Binary) (k : ℤ) :
    ∃ w den : ℕ, shiftDown b.ratio.1 b.ratio.2 k = (b.mantissa * w, den) ∧ 0 < w ∧ 0 < den ∧
      (w : ℚ) * 10 ^ k = 2 ^ b.exponent * den := by
  obtain ⟨s, t, hratio, hs, ht, hscale⟩ := exists_ratio b
  rw [hratio]
  unfold shiftDown
  split
  · next hle =>
    refine ⟨s, t * 10 ^ k.toNat, rfl, hs, Nat.mul_pos ht (Nat.pow_pos (by decide)), ?_⟩
    rw [Nat.cast_mul, Nat.cast_pow, Nat.cast_ofNat, ← zpow_natCast, Int.toNat_of_nonneg hle, hscale,
      mul_assoc]
  · next hlt =>
    refine ⟨s * 10 ^ (-k).toNat, t, by rw [← mul_assoc]; rfl,
      Nat.mul_pos hs (Nat.pow_pos (by decide)), ht, ?_⟩
    have hpower : (10 : ℚ) ^ (-k).toNat * 10 ^ k = 1 := by
      rw [← zpow_natCast, Int.toNat_of_nonneg (by omega), ← zpow_add₀ (by norm_num),
        neg_add_cancel, zpow_zero]
    rw [Nat.cast_mul, Nat.cast_pow, Nat.cast_ofNat, mul_assoc, hpower, mul_one, hscale]

/-- The guess is kept where the fraction reaches it. -/
theorem magnitude_cases (n d : ℕ) :
    let guess : ℤ := (digitCount n : ℤ) - digitCount d
    magnitude n d = guess ∧ (10 : ℚ) ^ guess * d ≤ n ∨ magnitude n d = guess - 1 := by
  intro guess
  have hmagnitude : magnitude n d = if (if 0 ≤ guess then decide (d * 10 ^ guess.toNat ≤ n)
      else decide (d ≤ n * 10 ^ (-guess).toNat)) = true then guess else guess - 1 := rfl
  rw [hmagnitude]
  clear hmagnitude
  by_cases hguess : 0 ≤ guess
  · rw [if_pos hguess]
    split
    · next h =>
      have hcast : (d : ℚ) * 10 ^ guess.toNat ≤ n := by exact_mod_cast of_decide_eq_true h
      rw [← zpow_natCast, Int.toNat_of_nonneg hguess, mul_comm] at hcast
      exact .inl ⟨rfl, hcast⟩
    · exact .inr rfl
  · rw [if_neg hguess]
    split
    · next h =>
      have hcast : (d : ℚ) ≤ n * 10 ^ (-guess).toNat := by exact_mod_cast of_decide_eq_true h
      rw [← zpow_natCast, Int.toNat_of_nonneg (by omega), zpow_neg, ← div_eq_mul_inv,
        le_div_iff₀ (by positivity), mul_comm] at hcast
      exact .inl ⟨rfl, hcast⟩
    · exact .inr rfl

theorem digitCount_pos (n : ℕ) : 0 < digitCount n := Nat.length_repr_pos

theorem lt_of_digitCount (n : ℕ) : n < 10 ^ digitCount n :=
  (Nat.length_repr_le_iff (digitCount_pos n)).1 le_rfl

theorem le_of_digitCount (hn : 0 < n) : 10 ^ (digitCount n - 1) ≤ n := by
  have hpos := digitCount_pos n
  by_contra hlt
  rcases Nat.eq_zero_or_pos (digitCount n - 1) with hzero | hmany
  · rw [hzero, pow_zero] at hlt
    exact hlt hn
  · have hfew : digitCount n ≤ digitCount n - 1 := (Nat.length_repr_le_iff hmany).2 (not_le.1 hlt)
    omega

/-- The leading digit of a fraction has the place that `magnitude` says, or a higher one. -/
theorem magnitude_le (hn : 0 < n) : (10 : ℚ) ^ magnitude n d * d ≤ n := by
  obtain ⟨hmagnitude, hle⟩ | hmagnitude := magnitude_cases n d <;> rw [hmagnitude]
  · exact hle
  · have hpos := digitCount_pos n
    have hlower : ((10 : ℚ) ^ (digitCount n - 1)) ≤ n := by exact_mod_cast le_of_digitCount hn
    have hupper : (d : ℚ) ≤ 10 ^ digitCount d := by exact_mod_cast (lt_of_digitCount d).le
    have hsplit : (10 : ℚ) ^ ((digitCount n : ℤ) - digitCount d - 1) * 10 ^ digitCount d =
        10 ^ (digitCount n - 1) := by
      rw [← zpow_natCast, ← zpow_natCast, ← zpow_add₀ (by norm_num)]
      congr 1
      omega
    calc (10 : ℚ) ^ ((digitCount n : ℤ) - digitCount d - 1) * d
        ≤ 10 ^ ((digitCount n : ℤ) - digitCount d - 1) * 10 ^ digitCount d :=
          mul_le_mul_of_nonneg_left hupper (by positivity)
      _ = 10 ^ (digitCount n - 1) := hsplit
      _ ≤ n := hlower

theorem stripZeros_value (fuel digits : ℕ) (k : ℤ) :
    (stripZeros fuel digits k).value = digits * 10 ^ k := by
  induction fuel generalizing digits k with
  | zero => rfl
  | succ fuel ih =>
    unfold stripZeros
    split
    · next h =>
      have hten : (digits : ℚ) = (digits / 10 : ℕ) * 10 := by
        exact_mod_cast (by omega : digits = digits / 10 * 10)
      rw [ih, hten, zpow_add_one₀ (by norm_num)]
      ring
    · rfl

/-! Searching. -/

variable {low step value lower upper p w den : ℕ} {closed : Bool} {k : ℤ}

theorem inside_of_nearest (h : nearestInside low step value lower upper closed = some p) :
    if closed then lower ≤ p * step ∧ p * step ≤ upper
      else lower < p * step ∧ p * step < upper := by
  unfold nearestInside at h
  dsimp only at h
  cases closed <;> simp only [if_true, if_false, Bool.false_eq_true] at h ⊢ <;> split at h <;>
    simp only [Bool.and_eq_true, Bool.and_eq_false_iff, decide_eq_true_eq, decide_eq_false_iff_not,
      Option.some.injEq, reduceCtorEq] at * <;> grind

/-- A grid without a point between the bounds is too coarse. -/
theorem coarse_of_nearest (h : nearestInside low step value lower upper closed = none)
    (hlow : low * step ≤ value) (hhigh : value < (low + 1) * step) (hlower : lower < value)
    (hupper : value < upper) : upper ≤ lower + step := by
  unfold nearestInside at h
  dsimp only at h
  rw [Nat.add_mul, Nat.one_mul] at *
  cases closed <;> simp only [if_true, if_false, Bool.false_eq_true] at h <;> split at h <;>
    simp only [Bool.and_eq_true, Bool.and_eq_false_iff, decide_eq_true_eq, decide_eq_false_iff_not,
      reduceCtorEq] at * <;> omega

/-- The lower end in quarters of the unit. -/
def lowerQuarters (m : ℕ) (e : ℤ) : ℕ := 4 * m - if m = hiddenBit ∧ e ≠ -1074 then 1 else 2

theorem lowerEnd_eq (hm : 0 < m) : lowerEnd m e = lowerQuarters m e * (2 ^ e / 4) := by
  unfold lowerEnd lowerQuarters
  split
  · rw [Nat.cast_sub (by omega)]
    push_cast
    ring
  · rw [Nat.cast_sub (by omega)]
    push_cast
    ring

theorem upperEnd_eq : upperEnd m e = (4 * m + 2 : ℕ) * (2 ^ e / 4) := by
  unfold upperEnd
  push_cast
  ring

/-- A grid point is compared with the ends in multiples of a quarter of the unit. -/
theorem isReadAs_of_nearest (hm : 0 < m) (hden : 0 < den)
    (hunit : (w : ℚ) * 10 ^ k = 2 ^ e * den)
    (h : nearestInside low (4 * den) value (lowerQuarters m e * w) ((4 * m + 2) * w)
      (m % 2 == 0) = some p) : IsReadAs m e (p * 10 ^ k) := by
  have hden' : (0 : ℚ) < 4 * den := by positivity
  have hscale : (0 : ℚ) < 10 ^ k / (4 * den) := by positivity
  have hpoint : ((p * (4 * den) : ℕ) : ℚ) * (10 ^ k / (4 * den)) = p * 10 ^ k := by
    push_cast
    field_simp
  have hend : ∀ a : ℕ, ((a * w : ℕ) : ℚ) * (10 ^ k / (4 * den)) = a * (2 ^ e / 4) := by
    intro a
    have hcancel : (w : ℚ) * 10 ^ k / (4 * den) = 2 ^ e / 4 := by
      rw [hunit]
      field_simp
    rw [Nat.cast_mul, mul_assoc, ← mul_div_assoc, hcancel]
  have hinside := inside_of_nearest h
  unfold IsReadAs
  rw [lowerEnd_eq hm, upperEnd_eq, ← hpoint, ← hend, ← hend]
  simp only [beq_iff_eq] at hinside
  split at hinside
  · next heven =>
    rw [if_pos heven]
    exact ⟨mul_le_mul_of_nonneg_right (Nat.cast_le.2 hinside.1) hscale.le,
      mul_le_mul_of_nonneg_right (Nat.cast_le.2 hinside.2) hscale.le⟩
  · next hodd =>
    rw [if_neg hodd]
    exact ⟨mul_lt_mul_of_pos_right (Nat.cast_lt.2 hinside.1) hscale,
      mul_lt_mul_of_pos_right (Nat.cast_lt.2 hinside.2) hscale⟩

/-- Seventeen digits are always enough. -/
theorem nearest_of_fine (h : Stored m e) (hm : 0 < m) (hden : 0 < den) (hw : 0 < w)
    (hfine : 10 ^ 16 * den ≤ m * w) :
    nearestInside (m * w / den) (4 * den) (4 * (m * w)) (lowerQuarters m e * w) ((4 * m + 2) * w)
      (m % 2 == 0) ≠ none := by
  intro hnone
  have hdiv := Nat.div_add_mod (m * w) den
  have hmod := Nat.mod_lt (m * w) hden
  have hfloor : m * w / den * (4 * den) = 4 * (den * (m * w / den)) := by ring
  have hvalue : 4 * (m * w) = 4 * m * w := by ring
  have hcoarse := coarse_of_nearest hnone (by omega) (by rw [Nat.add_mul]; omega)
    (by
      rw [hvalue]
      refine Nat.mul_lt_mul_of_pos_right ?_ hw
      unfold lowerQuarters
      split <;> omega)
    (by
      rw [hvalue]
      exact Nat.mul_lt_mul_of_pos_right (by omega) hw)
  rw [Nat.add_mul] at hcoarse
  have hlt := h.lt
  unfold lowerQuarters at hcoarse
  split at hcoarse
  · next hpower =>
    rw [Nat.sub_mul, Nat.one_mul] at hcoarse
    have hthree : 3 * w ≤ 4 * den := by
      have : w ≤ 4 * m * w := Nat.le_mul_of_pos_left w (by omega)
      omega
    have hscaled : m * (3 * w) ≤ m * (4 * den) := Nat.mul_le_mul_left m hthree
    have hbound : m * (4 * den) = 4 * 2 ^ 52 * den := by
      have hbit : hiddenBit = 2 ^ 52 := rfl
      rw [hpower.1, hbit]
      ring
    have : m * (3 * w) = 3 * (m * w) := by ring
    omega
  · rw [Nat.sub_mul] at hcoarse
    have hone : w ≤ den := by
      have : 2 * w ≤ 4 * m * w := Nat.mul_le_mul_right w (by omega)
      omega
    have hscaled : m * w ≤ m * den := Nat.mul_le_mul_left m hone
    have hbound : m * den < 2 ^ 53 * den := Nat.mul_lt_mul_of_pos_right hlt hden
    omega

/-- One grid is searched; without a point the next one is. -/
theorem searchGrids_succ (hm : 0 < b.mantissa) (top : ℤ) (fuel count : ℕ) :
    ∃ w den : ℕ, 0 < w ∧ 0 < den ∧
      (w : ℚ) * 10 ^ (top - count + 1) = 2 ^ b.exponent * den ∧
      searchGrids b top (fuel + 1) count =
        (nearestInside (b.mantissa * w / den) (4 * den) (4 * (b.mantissa * w))
          (lowerQuarters b.mantissa b.exponent * w) ((4 * b.mantissa + 2) * w)
          (b.mantissa % 2 == 0)).elim (searchGrids b top fuel (count + 1))
            fun digits => stripZeros 20 digits (top - count + 1) := by
  obtain ⟨w, den, hshift, hw, hden, hunit⟩ := exists_unit b (top - count + 1)
  refine ⟨w, den, hw, hden, hunit, ?_⟩
  have hquotient : b.mantissa * w / b.mantissa = w := Nat.mul_div_cancel_left w hm
  have hupper : 4 * (b.mantissa * w) + 2 * w = (4 * b.mantissa + 2) * w := by ring
  have hlower : 4 * (b.mantissa * w) -
      (if (b.mantissa == hiddenBit && b.exponent != -1074) = true then w else 2 * w) =
      lowerQuarters b.mantissa b.exponent * w := by
    unfold lowerQuarters
    rw [Nat.sub_mul, mul_assoc]
    simp only [Bool.and_eq_true, beq_iff_eq, bne_iff_ne, ite_mul, one_mul]
  rw [searchGrids]
  simp only [hshift, hm.ne', if_false, hquotient, hupper, hlower]
  cases nearestInside _ _ _ _ _ _ <;> rfl

/-- The search ends in a point that is read as the number. -/
theorem searchGrids_isReadAs (h : Stored b.mantissa b.exponent) (hm : 0 < b.mantissa) (top : ℤ)
    (htop : (10 : ℚ) ^ top ≤ b.mantissa * 2 ^ b.exponent) (fuel count : ℕ)
    (hfuel : fuel + count = 18) (hcount : count ≤ 17) :
    IsReadAs b.mantissa b.exponent (searchGrids b top fuel count).value := by
  induction fuel generalizing count with
  | zero => omega
  | succ fuel ih =>
    obtain ⟨w, den, hw, hden, hunit, hsearch⟩ := searchGrids_succ hm top fuel count
    rw [hsearch]
    cases hnearest : nearestInside (b.mantissa * w / den) (4 * den) (4 * (b.mantissa * w))
        (lowerQuarters b.mantissa b.exponent * w) ((4 * b.mantissa + 2) * w)
        (b.mantissa % 2 == 0) with
    | some digits =>
      rw [Option.elim_some, stripZeros_value]
      exact isReadAs_of_nearest hm hden hunit hnearest
    | none =>
      refine ih (count + 1) (by omega) ?_
      by_contra hlast
      obtain rfl : count = 17 := by omega
      refine nearest_of_fine h hm hden hw ?_ hnearest
      have hpower : (10 : ℚ) ^ top = 10 ^ 16 * 10 ^ (top - (17 : ℕ) + 1) := by
        rw [← zpow_natCast, ← zpow_add₀ (by norm_num)]
        congr 1
        push_cast
        ring
      have hgrid : (0 : ℚ) < 10 ^ (top - (17 : ℕ) + 1) := by positivity
      rw [hpower] at htop
      have hscaled : (10 ^ 16 * den : ℚ) * 10 ^ (top - (17 : ℕ) + 1) ≤
          (b.mantissa * w : ℚ) * 10 ^ (top - (17 : ℕ) + 1) := by
        calc (10 ^ 16 * den : ℚ) * 10 ^ (top - (17 : ℕ) + 1)
            = 10 ^ 16 * 10 ^ (top - (17 : ℕ) + 1) * den := by ring
          _ ≤ b.mantissa * 2 ^ b.exponent * den :=
              mul_le_mul_of_nonneg_right htop (Nat.cast_nonneg den)
          _ = b.mantissa * (w * 10 ^ (top - (17 : ℕ) + 1)) := by rw [hunit, mul_assoc]
          _ = b.mantissa * w * 10 ^ (top - (17 : ℕ) + 1) := by ring
      exact_mod_cast le_of_mul_le_mul_right hscaled hgrid

/-- The shortest decimal of a number is read as the number. -/
theorem shortest_isReadAs (h : Stored b.mantissa b.exponent) :
    IsReadAs b.mantissa b.exponent (shortest b).value := by
  unfold shortest
  split
  · next hzero =>
    have hunit : (0 : ℚ) < 2 ^ b.exponent := by positivity
    have hlower := lowerEnd_ge b.mantissa b.exponent
    simp only [IsReadAs, lowerEnd, upperEnd, Numeral.value, hzero, Nat.zero_mod, if_true,
      Nat.cast_zero, zero_mul, zero_add, zero_sub]
    constructor
    · split <;> linarith
    · linarith
  · next hm =>
    obtain ⟨s, t, hratio, hs, ht, hscale⟩ := exists_ratio b
    have hpos : 0 < b.mantissa := Nat.pos_of_ne_zero hm
    rw [hratio]
    refine searchGrids_isReadAs h hpos _ ?_ 17 1 rfl (by decide)
    have hle := magnitude_le (d := t) (Nat.mul_pos hpos hs)
    have ht' : (0 : ℚ) < t := Nat.cast_pos.2 ht
    rw [Nat.cast_mul, hscale, ← mul_assoc] at hle
    exact le_of_mul_le_mul_right hle ht'

/-- Numbers with the same shortest decimal are the same up to the sign. -/
theorem eq_of_shortest (h : Stored b.mantissa b.exponent) (h' : Stored b'.mantissa b'.exponent)
    (heq : (shortest b).value = (shortest b').value) :
    b.mantissa = b'.mantissa ∧ b.exponent = b'.exponent :=
  read_unique h h' (shortest_isReadAs h) (heq ▸ shortest_isReadAs h')

end ColumnFlow.Decimal
