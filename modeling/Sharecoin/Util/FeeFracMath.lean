import Sharecoin.Policy.FeeRate
import Mathlib.Data.Rat.Floor

/-! The 96-bit products and quotients behind fee fractions, on the platforms with and without a
128-bit type. Every intermediate value is checked: an operation that overflows its type has no
result. -/

set_option autoImplicit false

namespace Sharecoin

open Lib

/-! ## Checked values -/

/-- A value of the signed type with this many bits. -/
def IsSigned (bits : Nat) (value : Int) : Prop := -2 ^ (bits - 1) ≤ value ∧ value < 2 ^ (bits - 1)

instance (bits : Nat) (value : Int) : Decidable (IsSigned bits value) :=
  inferInstanceAs (Decidable (_ ∧ _))

def signed (bits : Nat) (value : Int) : Option Int := if IsSigned bits value then some value else none

def unsigned (bits : Nat) (value : Int) : Option Int :=
  if 0 ≤ value ∧ value < 2 ^ bits then some value else none

variable {bits : Nat}

theorem signed_eq {value : Int} (fits : IsSigned bits value) :
    signed bits value = some value := if_pos fits

namespace FeeFrac

/-! ## Products and quotients -/

def mulFallback (a b : Int) : Option (Int × Int) := do
  let low ← signed 64 (a % 2 ^ 32 * b)
  let high ← signed 64 (a / 2 ^ 32 * b)
  let first ← signed 64 (high + low / 2 ^ 32)
  some (first, low % 2 ^ 32)

/-- `(mod > 0) - (mod && round_down)`: what a truncated quotient is off by. -/
def correction (mod : Int) (roundDown : Bool) : Int :=
  (if mod > 0 then 1 else 0) - if mod ≠ 0 ∧ roundDown = true then 1 else 0

def divFallback (n : Int × Int) (d : Int) (roundDown : Bool) : Option Int := do
  let quotHigh ← signed 64 (n.1.tdiv d)
  let shifted ← signed 64 (n.1.tmod d * 2 ^ 32)
  let nLow ← signed 64 (shifted + n.2)
  let quotLow ← signed 64 (nLow.tdiv d)
  let modLow ← signed 32 (nLow.tmod d)
  let quotLow ← signed 64 (quotLow + correction modLow roundDown)
  let high ← signed 64 (quotHigh * 2 ^ 32)
  signed 64 (high + quotLow)

def mul (a b : Int) : Option Int := signed 128 (a * b)

def div (n d : Int) (roundDown : Bool) : Option Int := do
  let quot ← signed 64 (n.tdiv d)
  let mod ← signed 32 (n.tmod d)
  signed 64 (quot + correction mod roundDown)

/-- `Div(Mul(a, b), d)`, with or without a 128-bit type. -/
def mulDiv (wide : Bool) (a b d : Int) (roundDown : Bool) : Option Int :=
  if wide then do
    let n ← mul a b
    div n d roundDown
  else do
    let n ← mulFallback a b
    divFallback n d roundDown

def evaluateFee (wide roundDown : Bool) (feefrac : FeeFrac) (atSize : Int) : Option Int :=
  if 0 ≤ feefrac.fee ∧ feefrac.fee < 0x200000000 then do
    let product ← unsigned 64 (feefrac.fee * atSize)
    signed 64 (if roundDown then product / feefrac.size else ceilDiv product feefrac.size)
  else mulDiv wide feefrac.fee atSize feefrac.size roundDown

/-! ## Rounding -/

def rounded (n d : Int) (roundDown : Bool) : Int :=
  if roundDown then ⌊(n / d : ℚ)⌋ else ⌈(n / d : ℚ)⌉

variable {roundDown : Bool} {a b : Int}

section

variable {d : Int} (positive : 0 < d) {n : Int}

include positive

theorem rounded_eq (n : Int) (roundDown : Bool) : rounded n d roundDown = if roundDown then n / d else -(-n / d) := by
  obtain ⟨divisor, rfl⟩ := Int.eq_ofNat_of_zero_le positive.le
  rw [rounded, Int.cast_natCast, Rat.floor_intCast_div_natCast, Rat.ceil_intCast_div_natCast]

theorem ediv_eq_of_parts {q r : Int} (parts : n = d * q + r) (low : 0 ≤ r) (high : r < d) : n / d = q := by
  rw [parts, Int.mul_add_ediv_left _ _ positive.ne', Int.ediv_eq_zero_of_lt low high, add_zero]

theorem tdiv_add_correction (n : Int) (roundDown : Bool) :
    n.tdiv d + correction (n.tmod d) roundDown = rounded n d roundDown := by
  have parts := Int.mul_tdiv_add_tmod n d
  have high := Int.tmod_lt_of_pos n positive
  have low := Int.lt_tmod_of_pos n positive
  rw [rounded_eq positive, correction]
  generalize n.tdiv d = q at parts ⊢
  generalize n.tmod d = r at parts high low ⊢
  cases roundDown with
  | true =>
    by_cases negative : r < 0
    · have floor := ediv_eq_of_parts positive (show n = d * (q - 1) + (r + d) by linarith)
        (by omega) (by omega)
      simp only [floor, if_true, eq_self, and_true]
      split <;> split <;> omega
    · have floor := ediv_eq_of_parts positive parts.symm (by omega) high
      simp only [floor, if_true, eq_self, and_true]
      split <;> split <;> omega
  | false =>
    by_cases above : 0 < r
    · have ceiling := ediv_eq_of_parts positive (show -n = d * (-q - 1) + (d - r) by linarith)
        (by omega) (by omega)
      simp only [ceiling, above, if_true, Bool.false_eq_true, and_false, if_false]
      omega
    have ceiling := ediv_eq_of_parts positive (show -n = d * -q + -r by linarith)
      (by omega) (by omega)
    simp only [ceiling, above, if_false, Bool.false_eq_true, and_false]
    omega

theorem rounded_mul_add (q n : Int) (roundDown : Bool) :
    rounded (d * q + n) d roundDown = q + rounded n d roundDown := by
  rw [rounded_eq positive, rounded_eq positive]
  cases roundDown with
  | true => exact Int.mul_add_ediv_left _ _ positive.ne'
  | false =>
    have split : -(d * q + n) = d * -q + -n := by ring
    simp only [Bool.false_eq_true, if_false, split, Int.mul_add_ediv_left _ _ positive.ne']
    ring

theorem rounded_range (n : Int) (roundDown : Bool) :
    min n 0 ≤ rounded n d roundDown ∧ rounded n d roundDown ≤ max n 0 := by
  have shrinks (n : Int) : min n 0 ≤ n / d ∧ n / d ≤ max n 0 := by
    constructor
    · rw [Int.le_ediv_iff_mul_le positive]
      rcases le_total n 0 with sign | sign
      · rw [min_eq_left sign]
        nlinarith
      · rwa [min_eq_right sign, zero_mul]
    · rcases le_total n 0 with sign | sign
      · exact (Int.ediv_le_ediv positive sign).trans (by simp)
      · exact (Int.ediv_le_self _ sign).trans (le_max_left _ _)
  have below := shrinks n
  have above := shrinks (-n)
  rw [rounded_eq positive]
  split <;> omega

theorem tdiv_sign (n : Int) : 0 ≤ n ∧ 0 ≤ n.tdiv d ∧ 0 ≤ n.tmod d ∨ n < 0 ∧ n.tdiv d ≤ 0 ∧ n.tmod d ≤ 0 := by
  rcases lt_or_ge n 0 with negative | nonneg
  · have quotient := Int.tdiv_nonneg (show 0 ≤ -n by omega) positive.le
    have remainder := Int.tmod_nonneg d (show 0 ≤ -n by omega)
    rw [Int.neg_tdiv] at quotient
    rw [Int.neg_tmod] at remainder
    omega
  · exact .inl ⟨nonneg, Int.tdiv_nonneg nonneg positive.le, Int.tmod_nonneg d nonneg⟩

theorem tdiv_between (n : Int) (roundDown : Bool) : 0 ≤ n.tdiv d ∧ n.tdiv d ≤ rounded n d roundDown ∨
      rounded n d roundDown ≤ n.tdiv d ∧ n.tdiv d ≤ 0 := by
  rw [← tdiv_add_correction positive, correction]
  have sign := tdiv_sign positive n
  split <;> split <;> omega

/-! ## Quotients are exact -/

theorem isSigned_tmod (narrow : IsSigned bits d) : IsSigned bits (n.tmod d) := by
  have high := Int.tmod_lt_of_pos n positive
  have low := Int.lt_tmod_of_pos n positive
  exact ⟨by have := narrow.2; omega, high.trans narrow.2⟩

theorem isSigned_tdiv (fits : IsSigned bits (rounded n d roundDown)) : IsSigned bits (n.tdiv d) := by
  have between := tdiv_between positive n roundDown
  have room : (0 : Int) < 2 ^ (bits - 1) := by positivity
  obtain ⟨low, high⟩ := fits
  constructor <;> omega

theorem div_eq (narrow : IsSigned 32 d) (fits : IsSigned 64 (rounded n d roundDown)) :
    div n d roundDown = some (rounded n d roundDown) := by
  simp only [div, signed_eq (isSigned_tdiv positive fits), signed_eq (isSigned_tmod positive narrow),
    bind, Option.bind_some, tdiv_add_correction positive, signed_eq fits]

theorem divFallback_eq (narrow : IsSigned 32 d) {n : Int × Int} (second : 0 ≤ n.2 ∧ n.2 < 2 ^ 32)
    (fits : IsSigned 64 (rounded (n.1 * 2 ^ 32 + n.2) d roundDown)) :
    divFallback n d roundDown = some (rounded (n.1 * 2 ^ 32 + n.2) d roundDown) := by
  have parts := Int.mul_tdiv_add_tmod n.1 d
  have sign := tdiv_sign positive n.1
  have below := Int.tmod_lt_of_pos n.1 positive
  have above := Int.lt_tmod_of_pos n.1 positive
  have least := narrow.2
  have result : rounded (n.1 * 2 ^ 32 + n.2) d roundDown = n.1.tdiv d * 2 ^ 32 +
      rounded (n.1.tmod d * 2 ^ 32 + n.2) d roundDown := by
    rw [← rounded_mul_add positive]
    congr 1
    nth_rewrite 1 [← parts]
    ring
  rw [result] at fits ⊢
  have range := rounded_range positive (n.1.tmod d * 2 ^ 32 + n.2) roundDown
  have lowFits : IsSigned 64 (rounded (n.1.tmod d * 2 ^ 32 + n.2) d roundDown) := by
    unfold IsSigned
    omega
  have highFits : IsSigned 64 (n.1.tdiv d * 2 ^ 32) := by
    unfold IsSigned at fits ⊢
    omega
  have quotFits : IsSigned 64 (n.1.tdiv d) := by
    unfold IsSigned at highFits ⊢
    omega
  have shiftFits : IsSigned 64 (n.1.tmod d * 2 ^ 32) := by
    unfold IsSigned
    omega
  have sumFits : IsSigned 64 (n.1.tmod d * 2 ^ 32 + n.2) := by
    unfold IsSigned
    omega
  simp only [divFallback, signed_eq quotFits, signed_eq shiftFits, signed_eq sumFits,
    signed_eq (isSigned_tdiv positive lowFits), signed_eq (isSigned_tmod positive narrow),
    tdiv_add_correction positive, signed_eq lowFits, signed_eq highFits, bind, Option.bind_some,
    signed_eq fits]

end

/-! ## Products are exact -/

theorem mul_range {x y m k : Int} (left : |x| ≤ m) (right : |y| ≤ k) : -(m * k) ≤ x * y ∧ x * y ≤ m * k := by
  rw [← abs_le, abs_mul]
  exact mul_le_mul left right (abs_nonneg y) ((abs_nonneg x).trans left)

theorem mulFallback_eq (wide : IsSigned 64 a) (narrow : IsSigned 32 b) :
    ∃ n, mulFallback a b = some n ∧ n.1 * 2 ^ 32 + n.2 = a * b ∧ 0 ≤ n.2 ∧ n.2 < 2 ^ 32 := by
  unfold IsSigned at wide narrow
  have factor : |b| ≤ 2 ^ 31 := abs_le.mpr (by omega)
  have low := mul_range (show |a % 2 ^ 32| ≤ 2 ^ 32 - 1 from abs_le.mpr (by omega)) factor
  have high := mul_range (show |a / 2 ^ 32| ≤ 2 ^ 31 from abs_le.mpr (by omega)) factor
  have product : a * b = a / 2 ^ 32 * b * 2 ^ 32 + a % 2 ^ 32 * b := by
    nth_rewrite 1 [← Int.mul_ediv_add_emod a (2 ^ 32)]
    ring
  have lowFits : IsSigned 64 (a % 2 ^ 32 * b) := by
    unfold IsSigned
    omega
  have highFits : IsSigned 64 (a / 2 ^ 32 * b) := by
    unfold IsSigned
    omega
  have sumFits : IsSigned 64 (a / 2 ^ 32 * b + a % 2 ^ 32 * b / 2 ^ 32) := by
    unfold IsSigned
    omega
  refine ⟨(a / 2 ^ 32 * b + a % 2 ^ 32 * b / 2 ^ 32, a % 2 ^ 32 * b % 2 ^ 32), ?_, ?_, ?_⟩
  · simp only [mulFallback, signed_eq lowFits, signed_eq highFits, bind, Option.bind_some, signed_eq sumFits]
  · rw [product]
    dsimp only
    omega
  · dsimp only
    omega

theorem mul_eq (wide : IsSigned 64 a) (narrow : IsSigned 32 b) : mul a b = some (a * b) := by
  unfold IsSigned at wide narrow
  have product := mul_range (show |a| ≤ 2 ^ 63 from abs_le.mpr (by omega))
    (show |b| ≤ 2 ^ 31 from abs_le.mpr (by omega))
  refine signed_eq ?_
  unfold IsSigned
  omega

theorem compareLex_eq {left right : Int × Int} (leftLow : 0 ≤ left.2 ∧ left.2 < 2 ^ 32)
    (rightLow : 0 ≤ right.2 ∧ right.2 < 2 ^ 32) :
    (compare left.1 right.1).then (compare left.2 right.2) =
      compare (left.1 * 2 ^ 32 + left.2) (right.1 * 2 ^ 32 + right.2) := by
  rcases lt_trichotomy left.1 right.1 with less | same | greater
  · have whole : left.1 * 2 ^ 32 + left.2 < right.1 * 2 ^ 32 + right.2 := by omega
    rw [compare_lt_iff_lt.mpr less, compare_lt_iff_lt.mpr whole]
    rfl
  · rw [same, compare_eq_iff_eq.mpr rfl]
    simp only [Ordering.then, compare, compareOfLessAndEq, Int.add_lt_add_iff_left, Int.add_right_inj]
  · have whole : right.1 * 2 ^ 32 + right.2 < left.1 * 2 ^ 32 + left.2 := by omega
    rw [compare_gt_iff_gt.mpr greater, compare_gt_iff_gt.mpr whole]
    rfl

theorem mulDiv_eq (wide : Bool) {d : Int} (aFits : IsSigned 64 a) (bFits : IsSigned 32 b)
    (positive : 0 < d) (narrow : IsSigned 32 d) (fits : IsSigned 64 (rounded (a * b) d roundDown)) :
    mulDiv wide a b d roundDown = some (rounded (a * b) d roundDown) := by
  obtain ⟨n, multiplied, holds, second⟩ := mulFallback_eq aFits bFits
  cases wide with
  | true => simp only [mulDiv, if_true, mul_eq aFits bFits, bind, Option.bind_some,
      div_eq positive narrow fits]
  | false =>
    rw [← holds] at fits ⊢
    simp only [mulDiv, Bool.false_eq_true, if_false, multiplied, bind, Option.bind_some,
      divFallback_eq positive narrow second fits]

theorem ceilDiv_eq {n d : Int} (positive : 0 < d) : ceilDiv n d = rounded n d false := by
  refine eq_of_forall_ge_iff fun bound => ?_
  rw [ceilDiv_le_iff positive, rounded]
  have cast : (0 : ℚ) < d := Int.cast_pos.mpr positive
  simp only [Bool.false_eq_true, if_false, Int.ceil_le, div_le_iff₀ cast]
  exact_mod_cast Iff.rfl

theorem evaluateFee_eq (wide roundDown : Bool) {feefrac : FeeFrac} {atSize : Int} (fee : IsSigned 64 feefrac.fee)
    (size : IsSigned 32 feefrac.size) (positive : 0 < feefrac.size) (nonneg : 0 ≤ atSize)
    (narrow : IsSigned 32 atSize) (fits : IsSigned 64 (rounded (feefrac.fee * atSize) feefrac.size roundDown)) :
    feefrac.evaluateFee wide roundDown atSize = some (rounded (feefrac.fee * atSize) feefrac.size roundDown) := by
  unfold evaluateFee
  split
  next small =>
    have product : 0 ≤ feefrac.fee * atSize ∧ feefrac.fee * atSize < 2 ^ 64 := by
      have bound := mul_range (show |feefrac.fee| ≤ 2 ^ 33 - 1 from abs_le.mpr (by omega))
        (show |atSize| ≤ 2 ^ 31 from abs_le.mpr (by unfold IsSigned at narrow; omega))
      exact ⟨mul_nonneg small.1 nonneg, by omega⟩
    have quotient : (if roundDown then feefrac.fee * atSize / feefrac.size
        else ceilDiv (feefrac.fee * atSize) feefrac.size) =
          rounded (feefrac.fee * atSize) feefrac.size roundDown := by
      cases roundDown with
      | true => exact (rounded_eq positive _ true).symm
      | false => exact ceilDiv_eq positive
    simp only [unsigned, product, and_self, if_true, bind, Option.bind_some, quotient, signed_eq fits]
  next => exact mulDiv_eq wide fee narrow positive size fits

/-! ## The order with reversed sizes -/

section

variable {left right : FeeFrac} (leftPositive : 0 < left.size) (rightPositive : 0 < right.size)

include leftPositive rightPositive

theorem compareByRatio_eq : left.compareByRatio right = compare left.ratio right.ratio := by
  have less := ratio_lt_iff leftPositive rightPositive
  have greater := ratio_lt_iff rightPositive leftPositive
  rcases lt_trichotomy left.ratio right.ratio with order | order | order
  · rw [compareByRatio, compare_lt_iff_lt.mpr order, compare_lt_iff_lt]
    exact less.mp order
  · rw [compareByRatio, compare_eq_iff_eq.mpr order, compare_eq_iff_eq]
    have := mt less.mpr order.not_lt
    have := mt greater.mpr order.not_gt
    omega
  · rw [compareByRatio, compare_gt_iff_gt.mpr order, compare_gt_iff_gt]
    exact greater.mp order

theorem compareByRatioNegSize_ne_gt_iff : left.compareByRatioNegSize right ≠ .gt ↔
    left.ratio < right.ratio ∨ left.ratio = right.ratio ∧ right.size ≤ left.size := by
  rw [compareByRatioNegSize, compareByRatio_eq leftPositive rightPositive]
  rcases lt_trichotomy left.ratio right.ratio with order | order | order
  · simp [compare_lt_iff_lt.mpr order, order]
  · simp [order, compare_gt_iff_gt]
  · simp [compare_gt_iff_gt.mpr order, order.not_gt, order.ne']

theorem compareByRatioNegSize_eq_iff : left.compareByRatioNegSize right = .eq ↔ left = right := by
  constructor
  · intro same
    rw [compareByRatioNegSize, Ordering.then_eq_eq, compareByRatio, compare_eq_iff_eq, compare_eq_iff_eq] at same
    obtain ⟨fees, sizes⟩ := same
    rw [sizes] at fees
    cases left
    cases right
    have fees := mul_right_cancel₀ leftPositive.ne' fees
    cases fees
    cases sizes
    rfl
  · rintro rfl
    rw [compareByRatioNegSize, compareByRatio, Ordering.then_eq_eq, compare_eq_iff_eq, compare_eq_iff_eq]
    exact ⟨rfl, rfl⟩

end

theorem compareByRatioNegSize_swap (left right : FeeFrac) :
    (left.compareByRatioNegSize right).swap = right.compareByRatioNegSize left := by
  rw [compareByRatioNegSize, compareByRatioNegSize, Ordering.swap_then, compareByRatio,
    compareByRatio, ← Std.OrientedOrd.eq_swap, ← Std.OrientedOrd.eq_swap]

theorem compareByRatioNegSize_trans {first second third : FeeFrac} (firstPositive : 0 < first.size)
    (secondPositive : 0 < second.size) (thirdPositive : 0 < third.size)
    (left : first.compareByRatioNegSize second ≠ .gt) (right : second.compareByRatioNegSize third ≠ .gt) :
    first.compareByRatioNegSize third ≠ .gt := by
  rw [compareByRatioNegSize_ne_gt_iff] at left right ⊢
  all_goals try assumption
  rcases left with left | left <;> rcases right with right | right
  · exact .inl (left.trans right)
  · exact .inl (right.1 ▸ left)
  · exact .inl (left.1 ▸ right)
  · exact .inr ⟨left.1.trans right.1, right.2.trans left.2⟩

/-- Products are compared, divided and evaluated as integers are, on every path, and the order with
reversed sizes is total. -/
theorem feeFrac_arithmetic_exact : (∀ a b c d, IsSigned 64 a → IsSigned 32 b → IsSigned 64 c → IsSigned 32 d →
      ∃ left right, mulFallback a b = some left ∧ mulFallback c d = some right ∧
        (compare left.1 right.1).then (compare left.2 right.2) = compare (a * b) (c * d)) ∧
    (∀ (n : Int × Int) d roundDown, IsSigned 64 n.1 → 0 ≤ n.2 ∧ n.2 < 2 ^ 32 → 0 < d →
      IsSigned 32 d → IsSigned 64 (rounded (n.1 * 2 ^ 32 + n.2) d roundDown) →
      divFallback n d roundDown = some (rounded (n.1 * 2 ^ 32 + n.2) d roundDown) ∧
      div (n.1 * 2 ^ 32 + n.2) d roundDown = some (rounded (n.1 * 2 ^ 32 + n.2) d roundDown)) ∧
    (∀ wide roundDown (feefrac : FeeFrac) atSize, IsSigned 64 feefrac.fee →
      IsSigned 32 feefrac.size → 0 < feefrac.size → 0 ≤ atSize → IsSigned 32 atSize →
      IsSigned 64 (rounded (feefrac.fee * atSize) feefrac.size roundDown) →
      feefrac.evaluateFee wide roundDown atSize = some (rounded (feefrac.fee * atSize) feefrac.size roundDown)) ∧
    ∀ first second third : FeeFrac, 0 < first.size → 0 < second.size → 0 < third.size →
      (first.compareByRatioNegSize second = .eq ↔ first = second) ∧
      (first.compareByRatioNegSize second).swap = second.compareByRatioNegSize first ∧
      (first.compareByRatioNegSize second ≠ .gt → second.compareByRatioNegSize third ≠ .gt →
        first.compareByRatioNegSize third ≠ .gt) := by
  refine ⟨?_, ?_, ?_, ?_⟩
  · intro a b c d aFits bFits cFits dFits
    obtain ⟨left, multiplied, holds, second⟩ := mulFallback_eq aFits bFits
    obtain ⟨right, multiplied', holds', second'⟩ := mulFallback_eq cFits dFits
    refine ⟨left, right, multiplied, multiplied', ?_⟩
    rw [compareLex_eq second second', holds, holds']
  · intro n d roundDown _ second positive narrow fits
    exact ⟨divFallback_eq positive narrow second fits, div_eq positive narrow fits⟩
  · intro wide roundDown feefrac atSize fee size positive nonneg narrow fits
    exact evaluateFee_eq wide roundDown fee size positive nonneg narrow fits
  · intro first second third firstPositive secondPositive thirdPositive
    exact ⟨compareByRatioNegSize_eq_iff firstPositive secondPositive, compareByRatioNegSize_swap first second,
      compareByRatioNegSize_trans firstPositive secondPositive thirdPositive⟩

end FeeFrac

end Sharecoin
