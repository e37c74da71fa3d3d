import Mathlib
import ColumnFlow.Metric.Table
import ColumnFlow.Proofs.Decimal.Rounding

/-!
# What a metric prefers

Finite numbers are in the order of their standing: the sign first, then the exponent, then the
mantissa, and downwards below zero. So among finite scores a metric prefers some to others like a
linear order does, in either direction; only zeros of both signs stand in one place.
-/
namespace ColumnFlow

open Float.Model in
/-- Where a finite number stands among all finite numbers. -/
def standing : UnpackedFloat → ℤ ×ₗ ℤ ×ₗ ℤ
  | .finite .positive m e _ => toLex (1, toLex (e, m))
  | .finite .negative m e _ => toLex (-1, toLex (-e, -m))
  | _ => toLex (0, toLex (0, 0))

theorem standing_lt_iff {a b c a' b' c' : ℤ} :
    toLex (a, toLex (b, c)) < toLex (a', toLex (b', c')) ↔
      a < a' ∨ a = a' ∧ (b < b' ∨ b = b' ∧ c < c') := by
  simp [Prod.Lex.toLex_lt_toLex]

theorem then_compare_eq_lt_iff {e e' : ℤ} {m m' : ℕ} :
    (compare e e').then (compare m m') = .lt ↔ e < e' ∨ e = e' ∧ m < m' := by
  rw [Ordering.then_eq_lt, compare_lt_iff_lt, compare_eq_iff_eq, compare_lt_iff_lt]

theorem then_compare_eq_gt_iff {e e' : ℤ} {m m' : ℕ} :
    (compare e e').then (compare m m') = .gt ↔ e' < e ∨ e = e' ∧ m' < m := by
  rw [Ordering.then_eq_gt, compare_gt_iff_gt, compare_eq_iff_eq, compare_gt_iff_gt]

open Float.Model in
theorem compare_eq_lt_iff {x y : UnpackedFloat} (hx : x.isFinite = true) (hy : y.isFinite = true) :
    x.compare y = some .lt ↔ standing x < standing y := by
  cases x with
  | notANumber | infinity s => cases hx
  | zero s =>
    cases y with
    | notANumber | infinity s' => cases hy
    | zero s' => simp [UnpackedFloat.compare, standing]
    | finite s' m' e' h' => cases s' <;> simp [UnpackedFloat.compare, standing, standing_lt_iff]
  | finite s m e h =>
    cases y with
    | notANumber | infinity s' => cases hy
    | zero s' => cases s <;> simp [UnpackedFloat.compare, standing, standing_lt_iff]
    | finite s' m' e' h' =>
      cases s <;> cases s' <;> simp only [UnpackedFloat.compare, standing, standing_lt_iff]
      case negative.negative =>
        rw [Option.some.injEq, Ordering.swap_eq_lt, then_compare_eq_gt_iff]
        simp only [lt_irrefl, true_and, false_or]
        omega
      case positive.positive =>
        rw [Option.some.injEq, then_compare_eq_lt_iff]
        simp only [lt_irrefl, true_and, false_or]
        omega
      all_goals simp

theorem isFinite_eq (x : Float) : x.isFinite = !(x.isNaN || x.isInf) := by
  change x.toModel.unpack.isFinite = !(x.toModel.unpack.isNaN || x.toModel.unpack.isInf)
  cases x.toModel.unpack <;> rfl

theorem lt_iff_standing_lt {x y : Float} (hx : x.isFinite = true) (hy : y.isFinite = true) :
    x < y ↔ standing x.toModel.unpack < standing y.toModel.unpack := by
  rw [Decimal.lt_iff, compare_eq_lt_iff hx hy]

namespace Metric

variable {metric : Metric} {x y z : Float}

theorem isBetter_iff (hx : x.isFinite = true) (hy : y.isFinite = true) :
    metric.isBetter x y = true ↔
      if metric.greaterIsBetter then standing y.toModel.unpack < standing x.toModel.unpack
      else standing x.toModel.unpack < standing y.toModel.unpack := by
  unfold isBetter
  cases metric.greaterIsBetter
  · simp [lt_iff_standing_lt hx hy]
  · simp [lt_iff_standing_lt hy hx]

/-- No score is better than itself. -/
theorem isBetter_self (hx : x.isFinite = true) : metric.isBetter x x = false := by
  refine Bool.eq_false_iff.2 fun h => ?_
  rw [isBetter_iff hx hx] at h
  split at h <;> exact lt_irrefl _ h

theorem isBetter_asymm (hx : x.isFinite = true) (hy : y.isFinite = true)
    (h : metric.isBetter x y = true) : metric.isBetter y x = false := by
  refine Bool.eq_false_iff.2 fun h' => ?_
  rw [isBetter_iff hx hy] at h
  rw [isBetter_iff hy hx] at h'
  cases hdirection : metric.greaterIsBetter <;>
    simp only [hdirection, if_true, Bool.false_eq_true, if_false] at h h'
  · exact lt_asymm h h'
  · exact lt_asymm h h'

/-- What is better than a score is better than all that are not better than that score. -/
theorem isBetter_of_isBetter (hx : x.isFinite = true) (hy : y.isFinite = true)
    (hz : z.isFinite = true) (h : metric.isBetter z y = true) (hxy : metric.isBetter x y = false) :
    metric.isBetter z x = true := by
  rw [Bool.eq_false_iff, ne_eq, isBetter_iff hx hy] at hxy
  rw [isBetter_iff hz hy] at h
  rw [isBetter_iff hz hx]
  cases hdirection : metric.greaterIsBetter <;>
    simp only [hdirection, if_true, Bool.false_eq_true, if_false, not_lt] at h hxy ⊢
  · exact lt_of_lt_of_le h hxy
  · exact lt_of_le_of_lt hxy h

end Metric
end ColumnFlow
