import Sharecoin.Pow.CompactTarget
import Mathlib.Algebra.BigOperators.Ring.Finset
import Mathlib.Data.Rat.Cast.Order
import Mathlib.Tactic.FieldSimp
import Mathlib.Tactic.Positivity

/-! How far one step of the difficulty adjustment goes on the networks whose limit leaves room for the
product: the new bits are always accepted, and the new target stays between two multiples of the
mean of the window. -/

set_option autoImplicit false

namespace Sharecoin

open Lib

section Window

variable (blocks : BlockMap) (pindexLast : Uint256) (params : Params)

def windowTarget (j : Nat) : Nat :=
  (setCompact (windowBlock blocks pindexLast params j).nBits).value.toNat

def meanTarget : ℚ :=
  (∑ j ∈ Finset.Icc 1 params.nLwmaAveragingWindow.toNat,
    (windowTarget blocks pindexLast params j : ℚ)) / params.nLwmaAveragingWindow

/-- The most a step can reach: every solvetime at its limit. -/
def stepCeiling : ℚ :=
  6 * params.nPowTargetSpacing * params.nLwmaAveragingWindow * (params.nLwmaAveragingWindow + 1) / 2 *
    (meanTarget blocks pindexLast params / (params.nLwmaAdjustedWeight * params.nLwmaAveragingWindow))

/-- The least a step can reach: the weighted time at its floor, and every target rounded down. -/
def stepFloor : ℚ :=
  (params.nLwmaAveragingWindow * params.nLwmaAdjustedWeight / params.nLwmaMinDenominator : Int) *
    (meanTarget blocks pindexLast params /
        (params.nLwmaAdjustedWeight * params.nLwmaAveragingWindow) - params.nLwmaAveragingWindow)

variable {blocks pindexLast params}

/-- Each target loses less than one unit to its division. -/
theorem targetSum_bounds (shipped : params.ShippedLwma) : targetSum blocks pindexLast params 45 * 27888300 ≤
        ∑ j ∈ Finset.Icc 1 45, windowTarget blocks pindexLast params j ∧
      ∑ j ∈ Finset.Icc 1 45, windowTarget blocks pindexLast params j ≤
        (targetSum blocks pindexLast params 45 + 45) * 27888300 := by
  have divided : targetSum blocks pindexLast params 45 =
      ∑ j ∈ Finset.Icc 1 45, windowTarget blocks pindexLast params j / 27888300 := by
    rw [targetSum, windowDivisor_eq shipped]
    rfl
  have counted : (45 : Nat) = ∑ _j ∈ Finset.Icc 1 45, 1 := by simp
  rw [divided]
  constructor
  · rw [Finset.sum_mul]
    exact Finset.sum_le_sum fun j _ => Nat.div_mul_le_self _ _
  nth_rewrite 3 [counted]
  rw [← Finset.sum_add_distrib, Finset.sum_mul]
  refine Finset.sum_le_sum fun j _ => ?_
  omega

theorem meanTarget_scaled (shipped : params.ShippedLwma) : meanTarget blocks pindexLast params /
        (params.nLwmaAdjustedWeight * params.nLwmaAveragingWindow) =
      (∑ j ∈ Finset.Icc 1 45, windowTarget blocks pindexLast params j : Nat) / 27888300 := by
  rw [meanTarget, shipped.window_toNat, shipped.window, shipped.weight]
  push_cast
  ring

theorem lwmaProduct_bounds (shipped : params.ShippedLwma) :
    stepFloor blocks pindexLast params ≤ lwmaProduct blocks pindexLast params ∧
      lwmaProduct blocks pindexLast params ≤ stepCeiling blocks pindexLast params := by
  obtain ⟨timeLow, timeHigh⟩ := lwmaTime_bounds blocks pindexLast shipped
  obtain ⟨sumLow, sumHigh⟩ := @targetSum_bounds blocks pindexLast params shipped
  rw [stepFloor, stepCeiling, meanTarget_scaled shipped, lwmaProduct, shipped.window_toNat,
    shipped.window, shipped.weight, shipped.denominator, shipped.spacing]
  generalize ∑ j ∈ Finset.Icc 1 45, windowTarget blocks pindexLast params j = total at sumLow sumHigh ⊢
  generalize targetSum blocks pindexLast params 45 = sum at sumLow sumHigh ⊢
  obtain ⟨time, same⟩ := Int.eq_ofNat_of_zero_le (show 0 ≤ lwmaTime blocks pindexLast params by omega)
  rw [same] at timeLow timeHigh ⊢
  rw [Int.toNat_natCast, Nat.cast_mul]
  have low : (61974 : ℚ) ≤ time := by exact_mod_cast timeLow
  have high : (time : ℚ) ≤ 3726000 := by exact_mod_cast timeHigh
  have below : (sum : ℚ) * 27888300 ≤ total := by exact_mod_cast sumLow
  have above : (total : ℚ) ≤ (sum + 45) * 27888300 := by exact_mod_cast sumHigh
  have nonneg : (0 : ℚ) ≤ sum := Nat.cast_nonneg sum
  constructor
  · calc _ = 61974 * ((total : ℚ) / 27888300 - 45) := by norm_num
      _ ≤ 61974 * sum := by linarith
      _ ≤ time * sum := mul_le_mul_of_nonneg_right low nonneg
  · calc (time : ℚ) * sum ≤ 3726000 * sum := mul_le_mul_of_nonneg_right high nonneg
      _ ≤ 3726000 * ((total : ℚ) / 27888300) := by linarith
      _ = _ := by norm_num

end Window

/-! ## One step -/

section Step

variable (sha256d : Bytes → Uint256) {chain : ChainType} {blocks : BlockMap} {pindexLast : Uint256} {last : CBlockIndex}

/-- Targets of at least the divisor leave something of each of them. -/
theorem lwmaProduct_pos {params : Params} (shipped : params.ShippedLwma)
    (large : ∀ j, 1 ≤ j → j ≤ 45 → windowDivisor params ≤ windowTarget blocks pindexLast params j) :
    0 < lwmaProduct blocks pindexLast params := by
  have time := (lwmaTime_bounds blocks pindexLast shipped).1
  rw [lwmaProduct, shipped.window_toNat]
  refine Nat.mul_pos (by omega) (Finset.sum_pos (fun j member => ?_) ⟨1, by decide⟩)
  obtain ⟨low, high⟩ := Finset.mem_Icc.mp member
  exact Nat.div_pos (large j low high) (by rw [windowDivisor_eq shipped]; decide)

/-- The bits of a positive number within the limit are accepted, and give no more than the number. -/
theorem deriveTarget_getCompact {number : ArithUint256} {powLimit : Uint256}
    (positive : 0 < number.toNat) (within : number.toNat ≤ powLimit.toNat) :
    ∃ target, deriveTarget (getCompact number) powLimit = some target ∧ target.toNat ≤ number.toNat := by
  obtain ⟨unsigned, rounded, kept⟩ := compactNumber_getCompact number
  have same : (BitVec.ofNat 256 (compactNumber (getCompact number))).toNat = compactNumber (getCompact number) := by
    rw [BitVec.toNat_ofNat, Nat.mod_eq_of_lt (rounded.trans_lt number.isLt)]
  exact ⟨_, deriveTarget_eq_some_iff.mpr ⟨unsigned, kept positive, rounded.trans within, same⟩, same.le.trans rounded⟩

/-- Whatever the times are, the next bits are accepted, their target is no easier than the ceiling of
the step, and the number they were rounded from is no harder than its floor. -/
theorem getNextWorkRequired_bounded (other : chain ≠ .regtest) (linked : Linked blocks)
    (found : blocks.lookup pindexLast = some last)
    (tall : (chainParams sha256d chain).consensus.nLwmaAveragingWindow ≤ last.nHeight)
    (inRange : ∀ j, 1 ≤ j → j ≤ (chainParams sha256d chain).consensus.nLwmaAveragingWindow.toNat →
      windowDivisor (chainParams sha256d chain).consensus ≤
          windowTarget blocks pindexLast (chainParams sha256d chain).consensus j ∧
        windowTarget blocks pindexLast (chainParams sha256d chain).consensus j ≤
          (chainParams sha256d chain).consensus.powLimit.toNat) :
    ∃ (unrounded target : ArithUint256), getNextWorkRequired blocks pindexLast (chainParams sha256d chain).consensus =
          some (getCompact unrounded) ∧
        unrounded.toNat = min (chainParams sha256d chain).consensus.powLimit.toNat
          (lwmaProduct blocks pindexLast (chainParams sha256d chain).consensus) ∧
        deriveTarget (getCompact unrounded) (chainParams sha256d chain).consensus.powLimit = some target ∧
        (target.toNat : ℚ) ≤ min ((chainParams sha256d chain).consensus.powLimit.toNat : ℚ)
          (stepCeiling blocks pindexLast (chainParams sha256d chain).consensus) ∧
        min ((chainParams sha256d chain).consensus.powLimit.toNat : ℚ)
          (stepFloor blocks pindexLast (chainParams sha256d chain).consensus) ≤ unrounded.toNat := by
  have shipped := shippedLwma_chainParams sha256d chain
  have limit : (chainParams sha256d chain).consensus.powLimit.toNat = powLimitOf chain :=
    (toNat_uintToArith256 _).symm.trans (toNat_powLimit sha256d chain)
  have retargets : (chainParams sha256d chain).consensus.fPowNoRetargeting = false := by
    cases chain <;> rfl
  generalize (chainParams sha256d chain).consensus = params at *
  rw [shipped.window] at tall
  rw [shipped.window_toNat] at inRange
  have fits : lwmaProduct blocks pindexLast params < 2 ^ 256 :=
    lwmaProduct_lt shipped (fun j low high => limit ▸ (inRange j low high).2) (powLimitOf_lt_of_ne other)
  have positive := lwmaProduct_pos shipped fun j low high => (inRange j low high).1
  obtain ⟨above, below⟩ := @lwmaProduct_bounds blocks pindexLast _ shipped
  have next : getNextWorkRequired blocks pindexLast params = lwmaCalculateNextWorkRequired blocks pindexLast params := by
    simp only [getNextWorkRequired, found, bind, Option.bind_some, retargets, Bool.false_eq_true, if_false]
    rw [if_neg (by rw [shipped.window]; omega)]
  rw [next, lwmaCalculateNextWorkRequired_eq shipped linked found tall]
  generalize limited : (if BitVec.ofNat 256 (lwmaProduct blocks pindexLast _) > _ then _ else _) =
    unrounded
  have value : unrounded.toNat = min params.powLimit.toNat (lwmaProduct blocks pindexLast params) := by
    have product : (BitVec.ofNat 256 (lwmaProduct blocks pindexLast params)).toNat = _ :=
      (BitVec.toNat_ofNat _ _).trans (Nat.mod_eq_of_lt fits)
    rw [← limited, apply_ite BitVec.toNat]
    simp only [gt_iff_lt, BitVec.lt_def, toNat_uintToArith256, product]
    split <;> omega
  have limitPositive : 0 < params.powLimit.toNat := by
    rw [limit]
    cases chain <;> decide
  obtain ⟨target, derived, rounded⟩ := @deriveTarget_getCompact unrounded params.powLimit (by omega) (by omega)
  refine ⟨unrounded, target, rfl, value, derived, le_min ?_ ?_, ?_⟩
  · exact_mod_cast rounded.trans (value ▸ min_le_left _ _)
  · refine le_trans ?_ below
    exact_mod_cast rounded.trans (value ▸ min_le_right _ _)
  · rw [value, Nat.cast_min]
    exact min_le_min le_rfl above

end Step

theorem getNextWorkRequired_at_start : ∃ (unrounded target : ArithUint256),
      getNextWorkRequired (spacedChain 600 0x1d00ffff 46) (.ofNat 45)
          (chainParams (fun _ => .zero) .main).consensus = some (getCompact unrounded) ∧
        deriveTarget (getCompact unrounded) (chainParams (fun _ => .zero) .main).consensus.powLimit =
          some target := by
  have carried : ∀ j, windowTarget (spacedChain 600 0x1d00ffff 46) (.ofNat 45)
      (chainParams (fun _ => .zero) .main).consensus j = 0xffff * 2 ^ 208 := by
    intro j
    rw [windowTarget, show (windowBlock (spacedChain 600 0x1d00ffff 46) (.ofNat 45)
      (chainParams (fun _ => .zero) .main).consensus j).nBits = 0x1d00ffff from
        nBits_blockBehind_spacedChain (by decide) (show 45 - j < 46 by omega)]
    decide +kernel
  have linked : Linked (spacedChain 600 0x1d00ffff 46) := linked_straightChain (by decide)
  have found : (spacedChain 600 0x1d00ffff 46).lookup (.ofNat 45) = some _ :=
    lookup_straightChain_top (by decide) (by decide)
  obtain ⟨unrounded, target, next, _, derived, _⟩ := getNextWorkRequired_bounded (fun _ => .zero)
    (show ChainType.main ≠ .regtest by decide) linked found (by decide) fun j _ _ => by
      rw [carried]
      decide +kernel
  exact ⟨unrounded, target, next, derived⟩

end Sharecoin
