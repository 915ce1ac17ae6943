import Mathlib.Algebra.Order.Field.Rat
import Mathlib.Tactic.Positivity

/-! Fractions of a fee and a size, and the two orders the source wraps them in: by ratio
only, and by ratio with the smaller size as the greater of two equal ratios. -/

set_option autoImplicit false

namespace Sharecoin

structure FeeFrac where
  fee : Int := 0
  size : Int := 0
deriving DecidableEq

namespace FeeFrac

instance : Add FeeFrac := ⟨fun left right => ⟨left.fee + right.fee, left.size + right.size⟩⟩

def compareByRatio (left right : FeeFrac) : Ordering :=
  compare (left.fee * right.size) (right.fee * left.size)

def compareByRatioNegSize (left right : FeeFrac) : Ordering :=
  (left.compareByRatio right).then (compare right.size left.size)

/-- `std::max<ByRatioNegSize>`, which keeps the first of two equal ones. -/
def maxByRatioNegSize (left right : FeeFrac) : FeeFrac :=
  if left.compareByRatioNegSize right = .lt then right else left

/-! ## The orders as orders of the ratio -/

def ratio (feefrac : FeeFrac) : ℚ := feefrac.fee / feefrac.size

section Ratio

variable {left right : FeeFrac}

section

variable (leftPositive : 0 < left.size) (rightPositive : 0 < right.size)

include leftPositive rightPositive

theorem ratio_lt_iff : left.ratio < right.ratio ↔ left.fee * right.size < right.fee * left.size := by
  have leftCast : (0 : ℚ) < left.size := Int.cast_pos.mpr leftPositive
  have rightCast : (0 : ℚ) < right.size := Int.cast_pos.mpr rightPositive
  rw [ratio, ratio, div_lt_div_iff₀ leftCast rightCast]
  exact_mod_cast Iff.rfl

theorem compareByRatio_gt_iff : left.compareByRatio right = .gt ↔ right.ratio < left.ratio := by
  rw [compareByRatio, compare_gt_iff_gt, ratio_lt_iff rightPositive leftPositive]

theorem ratio_le_of_lt (less : left.compareByRatioNegSize right = .lt) : left.ratio ≤ right.ratio := by
  by_contra greater
  have gt := (compareByRatio_gt_iff leftPositive rightPositive).mpr (not_le.mp greater)
  rw [compareByRatioNegSize, gt] at less
  cases less

theorem ratio_le_of_not_lt (notLess : left.compareByRatioNegSize right ≠ .lt) : right.ratio ≤ left.ratio := by
  by_contra greater
  have lt : left.compareByRatio right = .lt := by
    rw [compareByRatio, compare_lt_iff_lt]
    exact (ratio_lt_iff leftPositive rightPositive).mp (not_le.mp greater)
  rw [compareByRatioNegSize, lt] at notLess
  exact notLess rfl

theorem maxByRatioNegSize_size_pos : 0 < (left.maxByRatioNegSize right).size := by
  unfold maxByRatioNegSize
  split
  · exact rightPositive
  · exact leftPositive

theorem ratio_maxByRatioNegSize : (left.maxByRatioNegSize right).ratio = max left.ratio right.ratio := by
  unfold maxByRatioNegSize
  split
  next less => exact (max_eq_right (ratio_le_of_lt leftPositive rightPositive less)).symm
  next notLess => exact (max_eq_left (ratio_le_of_not_lt leftPositive rightPositive notLess)).symm

end

end Ratio

end FeeFrac

end Sharecoin
