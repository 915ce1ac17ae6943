import Sharecoin.Chain.Ancestors
import Sharecoin.Pow
import Mathlib.Algebra.BigOperators.Intervals
import Mathlib.Algebra.Order.BigOperators.Group.Finset
import Mathlib.Algebra.Order.Ring.Abs
import Mathlib.Data.Nat.Bitwise

/-! What `LwmaCalculateNextWorkRequired` computes, over integers without a bound. The
difficulty loop itself stays exact: times fit in 64 bits and the sum of targets in 256.
The product of the two is reduced modulo `2 ^ 256` before it meets the limit, and only the
easy limit of the live network leaves room for that. -/

set_option autoImplicit false

namespace Sharecoin

open Lib

/-! ## Sums without a bound -/

section Sums

variable (blocks : BlockMap) (pindexLast : Uint256) (params : Params)

/-- The entry a number of parents behind the tip. -/
def blockBehind (steps : Nat) : CBlockIndex :=
  ((ancestor (parentOf blocks) steps pindexLast).bind blocks.lookup).getD {}

/-- Block `j` of the window, counted from the oldest one. -/
def windowBlock (j : Nat) : CBlockIndex :=
  blockBehind blocks pindexLast (params.nLwmaAveragingWindow.toNat - j)

def windowSolvetime (j : Nat) : Int :=
  (windowBlock blocks pindexLast params j).getBlockTime -
    (blockBehind blocks pindexLast (params.nLwmaAveragingWindow.toNat - j + 1)).getBlockTime

/-- The weighted solvetimes of the first blocks of the window. -/
def weightedTime (count : Nat) : Int :=
  ∑ j ∈ Finset.Icc 1 count, j * min (windowSolvetime blocks pindexLast params j) (6 * params.nPowTargetSpacing)

def windowDivisor : Nat :=
  (params.nLwmaAdjustedWeight * params.nLwmaAveragingWindow * params.nLwmaAveragingWindow).toNat

def targetSum (count : Nat) : Nat :=
  ∑ j ∈ Finset.Icc 1 count,
    (setCompact (windowBlock blocks pindexLast params j).nBits).value.toNat / windowDivisor params

/-- The time the next target is scaled with, after the floor. -/
def lwmaTime : Int :=
  max (weightedTime blocks pindexLast params params.nLwmaAveragingWindow.toNat)
    (params.nLwmaAveragingWindow * params.nLwmaAdjustedWeight / params.nLwmaMinDenominator)

/-- The next target before the limit. -/
def lwmaProduct : Nat :=
  (lwmaTime blocks pindexLast params).toNat * targetSum blocks pindexLast params params.nLwmaAveragingWindow.toNat

/-- The sum and the product that are computed are those without a bound. -/
def LwmaExact (last : CBlockIndex) : Prop :=
  ∃ sums, lwmaLoop blocks pindexLast params params.nLwmaAveragingWindow.toNat
      (last.nHeight + 1 - params.nLwmaAveragingWindow) {} = some sums ∧
    sums.sumTarget.toNat = targetSum blocks pindexLast params params.nLwmaAveragingWindow.toNat ∧
    (arithOfInt64 (max sums.t ((params.nLwmaAveragingWindow * params.nLwmaAdjustedWeight).tdiv
      params.nLwmaMinDenominator)) * sums.sumTarget).toNat = lwmaProduct blocks pindexLast params

/-- How long the blocks of the window may take, given their bits. -/
def LwmaRoom : Prop :=
  targetSum blocks pindexLast params params.nLwmaAveragingWindow.toNat = 0 ∨
    weightedTime blocks pindexLast params params.nLwmaAveragingWindow.toNat ≤
      ((2 ^ 256 - 1) / targetSum blocks pindexLast params params.nLwmaAveragingWindow.toNat : Nat)

/-- What the loop holds after a number of blocks. -/
def sumsAfter (count : Nat) : LwmaSums :=
  { t := weightedTime blocks pindexLast params count
    j := count
    sumTarget := BitVec.ofNat 256 (targetSum blocks pindexLast params count) }

end Sums

/-! ## The shipped parameters -/

/-- The retargeting fields every network ships with. -/
structure Params.ShippedLwma (params : Params) : Prop where
  window : params.nLwmaAveragingWindow = 45
  weight : params.nLwmaAdjustedWeight = 13772
  denominator : params.nLwmaMinDenominator = 10
  spacing : params.nPowTargetSpacing = 600
  limited : params.fLwmaSolvetimeLimitation = true

theorem Params.ShippedLwma.window_toNat {params : Params} (shipped : params.ShippedLwma) :
    params.nLwmaAveragingWindow.toNat = 45 := by
  rw [shipped.window]
  rfl

theorem shippedLwma_chainParams (sha256d : Bytes → Uint256) (chain : ChainType) :
    (chainParams sha256d chain).consensus.ShippedLwma := by
  cases chain <;> exact ⟨rfl, rfl, rfl, rfl, rfl⟩

def powLimitOf : ChainType → Nat
  | .main | .testnet | .testnet4 =>
    0x00000000ffffffffffffffffffffffffffffffffffffffffffffffffffffffff
  | .signet => 0x00000377ae000000000000000000000000000000000000000000000000000000
  | .regtest => 0x7fffffffffffffffffffffffffffffffffffffffffffffffffffffffffffffff

theorem powLimitOf_lt (chain : ChainType) : powLimitOf chain < 2 ^ 255 := by
  cases chain <;> decide

theorem powLimitOf_lt_of_ne {chain : ChainType} (other : chain ≠ .regtest) : powLimitOf chain < 2 ^ 234 := by
  cases chain with
  | regtest => exact absurd rfl other
  | _ => decide

theorem toNat_powLimit (sha256d : Bytes → Uint256) (chain : ChainType) :
    (uintToArith256 (chainParams sha256d chain).consensus.powLimit).toNat = powLimitOf chain := by
  have fits : powLimitOf chain < 2 ^ 256 := (powLimitOf_lt chain).trans (by decide)
  cases chain <;> exact toNat_uintToArith256_ofNat fits

/-! ## The window -/

section Window

variable {blocks : BlockMap} {pindexLast : Uint256} {last : CBlockIndex} {params : Params} {count : Nat}

theorem Linked.blockBehind_found (linked : Linked blocks) (found : blocks.lookup pindexLast = some last) {steps : Nat}
    (within : (steps : Int) ≤ last.nHeight) :
    ∃ hash, ancestor (parentOf blocks) steps pindexLast = some hash ∧
      blocks.lookup hash = some (blockBehind blocks pindexLast steps) ∧
      (blockBehind blocks pindexLast steps).nHeight = last.nHeight - steps := by
  obtain ⟨hash, entry, climbed, listed, height⟩ := linked.ancestor_found steps found within
  have behind : blockBehind blocks pindexLast steps = entry := by
    rw [blockBehind, climbed, Option.bind_some, listed, Option.getD_some]
  exact ⟨hash, climbed, behind ▸ listed, behind ▸ height⟩

section

variable (blocks pindexLast)

section

variable (params)

theorem abs_windowSolvetime_lt (j : Nat) : |windowSolvetime blocks pindexLast params j| < 2 ^ 32 := by
  unfold windowSolvetime
  have range (entry : CBlockIndex) : 0 ≤ entry.getBlockTime ∧ entry.getBlockTime < 2 ^ 32 :=
    ⟨Int.natCast_nonneg _, Int.ofNat_lt.mpr entry.nTime.toNat_lt⟩
  have late := range (windowBlock blocks pindexLast params j)
  have early := range (blockBehind blocks pindexLast (params.nLwmaAveragingWindow.toNat - j + 1))
  rw [abs_lt]
  omega

theorem weightedTime_succ (count : Nat) : weightedTime blocks pindexLast params (count + 1) =
      weightedTime blocks pindexLast params count + (count + 1 : Nat) *
        min (windowSolvetime blocks pindexLast params (count + 1)) (6 * params.nPowTargetSpacing) :=
  Finset.sum_Icc_succ_top (Nat.le_add_left 1 count) _

end

variable (shipped : params.ShippedLwma)

include shipped

theorem abs_weighted_le {j : Nat} (inWindow : j ≤ 45) :
    |(j : Int) * min (windowSolvetime blocks pindexLast params j) (6 * params.nPowTargetSpacing)| ≤
      45 * 2 ^ 32 := by
  have solvetime := abs_lt.mp (abs_windowSolvetime_lt blocks pindexLast params j)
  have clamped : |min (windowSolvetime blocks pindexLast params j) (6 * params.nPowTargetSpacing)| ≤ 2 ^ 32 := by
    rw [shipped.spacing, abs_le]
    omega
  rw [abs_mul, Nat.abs_cast]
  exact mul_le_mul (by omega) clamped (abs_nonneg _) (by omega)

theorem abs_weightedTime_le (inWindow : count ≤ 45) :
    |weightedTime blocks pindexLast params count| ≤ count * (45 * 2 ^ 32) := by
  induction count with
  | zero => simp [weightedTime]
  | succ count ih =>
    have before := ih (by omega)
    have added := abs_weighted_le blocks pindexLast shipped inWindow
    rw [weightedTime_succ]
    refine (abs_add_le _ _).trans ?_
    push_cast at before added ⊢
    linarith

theorem weightedTime_le : weightedTime blocks pindexLast params 45 ≤ 3726000 := by
  have each : ∀ j ∈ Finset.Icc (1 : Nat) 45,
      (j : Int) * min (windowSolvetime blocks pindexLast params j) (6 * params.nPowTargetSpacing) ≤
        (j : Int) * 3600 := by
    intro j _
    refine mul_le_mul_of_nonneg_left ?_ (Int.natCast_nonneg j)
    rw [shipped.spacing]
    omega
  exact (Finset.sum_le_sum each).trans (by decide)

theorem lwmaTime_bounds : 61974 ≤ lwmaTime blocks pindexLast params ∧ lwmaTime blocks pindexLast params ≤ 3726000 := by
  have high := weightedTime_le blocks pindexLast shipped
  rw [lwmaTime, shipped.window_toNat, shipped.window, shipped.weight, shipped.denominator]
  omega

end

/-! ## The loop is exact -/

theorem arithOfInt64_eq {value : Int} (nonneg : 0 ≤ value) (fits : value < 2 ^ 63) :
    arithOfInt64 value = BitVec.ofNat 256 value.toNat := by
  rw [arithOfInt64, Int.emod_eq_of_lt nonneg (by omega)]

theorem udiv_eq_ofNat (value : ArithUint256) {divisor : Nat} (fits : divisor < 2 ^ 256) :
    value / BitVec.ofNat 256 divisor = BitVec.ofNat 256 (value.toNat / divisor) := by
  apply BitVec.eq_of_toNat_eq
  have small : value.toNat / divisor < 2 ^ 256 := (Nat.div_le_self _ _).trans_lt value.isLt
  rw [BitVec.toNat_udiv, BitVec.toNat_ofNat, BitVec.toNat_ofNat, Nat.mod_eq_of_lt fits, Nat.mod_eq_of_lt small]

section

variable (shipped : params.ShippedLwma)

include shipped

theorem windowDivisor_eq : windowDivisor params = 27888300 := by
  rw [windowDivisor, shipped.weight, shipped.window]
  rfl

section

variable (linked : Linked blocks) (found : blocks.lookup pindexLast = some last) (tall : 45 ≤ last.nHeight)

include linked found tall

omit shipped in
theorem Linked.window_found (inWindow : count < 45) :
    ∃ block blockPrev, getAncestor blocks pindexLast (last.nHeight + 1 - 45 + count) = some block ∧
      getAncestor blocks block (last.nHeight + 1 - 45 + count - 1) = some blockPrev ∧
      blocks.lookup block = some (blockBehind blocks pindexLast (45 - (count + 1))) ∧
      blocks.lookup blockPrev = some (blockBehind blocks pindexLast (45 - (count + 1) + 1)) := by
  obtain ⟨block, climbed, listed, height⟩ :=
    linked.blockBehind_found found (show ((45 - (count + 1) : Nat) : Int) ≤ _ by omega)
  obtain ⟨blockPrev, climbedPrev, listedPrev, -⟩ :=
    linked.blockBehind_found found (show ((45 - (count + 1) + 1 : Nat) : Int) ≤ _ by omega)
  refine ⟨block, blockPrev, ?_, ?_, listed, listedPrev⟩
  · rw [getAncestor_eq linked found (by omega) (by omega), ← climbed]
    congr 1
    omega
  rw [ancestor_add, climbed, Option.bind_some] at climbedPrev
  rw [getAncestor_eq linked listed (by omega) (by omega), ← climbedPrev]
  congr 1
  omega

theorem lwmaBlock_sumsAfter (inWindow : count < 45) :
    lwmaBlock blocks pindexLast params (last.nHeight + 1 - 45 + count) (sumsAfter blocks pindexLast params count) =
      some (sumsAfter blocks pindexLast params (count + 1)) := by
  obtain ⟨block, blockPrev, climbed, climbedPrev, listed, listedPrev⟩ := linked.window_found found tall inWindow
  have divisor : arithOfInt64 (params.nLwmaAdjustedWeight * params.nLwmaAveragingWindow *
      params.nLwmaAveragingWindow) = BitVec.ofNat 256 (windowDivisor params) := by
    rw [windowDivisor, arithOfInt64_eq] <;> rw [shipped.weight, shipped.window] <;> decide
  have nonzero : ¬ BitVec.ofNat 256 (windowDivisor params) = 0 := by
    rw [windowDivisor_eq shipped]
    decide
  have solved : (blockBehind blocks pindexLast (45 - (count + 1))).getBlockTime -
      (blockBehind blocks pindexLast (45 - (count + 1) + 1)).getBlockTime =
        windowSolvetime blocks pindexLast params (count + 1) := by
    rw [windowSolvetime, windowBlock, shipped.window_toNat]
  have clamped (time limit : Int) : (if params.fLwmaSolvetimeLimitation && decide (time > limit) then limit else time) =
        min time limit := by
    rw [shipped.limited, Bool.true_and]
    simp only [decide_eq_true_eq]
    split <;> omega
  have exactTime : wrap64 (weightedTime blocks pindexLast params count +
      wrap64 (min (windowSolvetime blocks pindexLast params (count + 1))
        (6 * params.nPowTargetSpacing) * ((count : Int) + 1))) =
        weightedTime blocks pindexLast params (count + 1) := by
    have timed := abs_le.mp (abs_weightedTime_le blocks pindexLast shipped inWindow)
    have added := abs_le.mp (abs_weighted_le blocks pindexLast shipped (show count + 1 ≤ 45 from inWindow))
    rw [weightedTime_succ] at timed ⊢
    rw [mul_comm _ ((count : Int) + 1)]
    push_cast at timed added ⊢
    generalize ((count : Int) + 1) * min _ _ = term at timed added ⊢
    have inner : wrap64 term = term := wrap64_eq_self (by omega) (by omega)
    rw [inner, wrap64_eq_self (by omega) (by omega)]
  simp only [lwmaBlock, climbed, climbedPrev, listed, listedPrev, bind, Option.bind_some, solved,
    clamped, divisor, nonzero, if_false, sumsAfter, exactTime]
  congr 2
  have grown : targetSum blocks pindexLast params (count + 1) = targetSum blocks pindexLast params count + _ :=
    Finset.sum_Icc_succ_top (Nat.le_add_left 1 count) _
  rw [grown, udiv_eq_ofNat _ (by rw [windowDivisor_eq shipped]; decide), BitVec.ofNat_add,
    windowBlock, shipped.window_toNat]

theorem lwmaLoop_sumsAfter (turns : Nat) (inWindow : count + turns ≤ 45) :
    lwmaLoop blocks pindexLast params turns (last.nHeight + 1 - 45 + count) (sumsAfter blocks pindexLast params count) =
      some (sumsAfter blocks pindexLast params (count + turns)) := by
  induction turns generalizing count with
  | zero => rfl
  | succ turns ih =>
    have stepped := lwmaBlock_sumsAfter shipped linked found tall (show count < 45 by omega)
    have rest := @ih (count + 1) (by omega)
    have next : last.nHeight + 1 - 45 + (count : Int) + 1 = last.nHeight + 1 - 45 + (count + 1 : Nat) := by omega
    simp only [lwmaLoop, stepped, bind, Option.bind_some, next, rest]
    rw [show count + 1 + turns = count + (turns + 1) by omega]

/-! ## The next target -/

theorem lwmaLoop_eq : lwmaLoop blocks pindexLast params params.nLwmaAveragingWindow.toNat
      (last.nHeight + 1 - params.nLwmaAveragingWindow) {} = some (sumsAfter blocks pindexLast params 45) := by
  have looped := lwmaLoop_sumsAfter shipped linked found tall 45 (show 0 + 45 ≤ 45 by omega)
  have start : sumsAfter blocks pindexLast params 0 = {} := by
    simp [sumsAfter, weightedTime, targetSum]
  rw [start, Nat.zero_add, Int.natCast_zero, add_zero] at looped
  rw [shipped.window_toNat, shipped.window, looped]

omit linked found tall in
theorem nextTarget_eq : arithOfInt64 (max (weightedTime blocks pindexLast params 45)
        ((params.nLwmaAveragingWindow * params.nLwmaAdjustedWeight).tdiv params.nLwmaMinDenominator)) *
      BitVec.ofNat 256 (targetSum blocks pindexLast params 45) =
        BitVec.ofNat 256 (lwmaProduct blocks pindexLast params) := by
  have bounds := lwmaTime_bounds blocks pindexLast shipped
  have floored : max (weightedTime blocks pindexLast params 45)
      ((params.nLwmaAveragingWindow * params.nLwmaAdjustedWeight).tdiv params.nLwmaMinDenominator) =
        lwmaTime blocks pindexLast params := by
    rw [lwmaTime, shipped.window_toNat, shipped.window, shipped.weight, shipped.denominator]
    rfl
  rw [floored, arithOfInt64_eq (by omega) (by omega), lwmaProduct, shipped.window_toNat, BitVec.ofNat_mul]

/-- The returned bits are those of the product, reduced to 256 bits and then limited. -/
theorem lwmaCalculateNextWorkRequired_eq : lwmaCalculateNextWorkRequired blocks pindexLast params = some (getCompact
        (if BitVec.ofNat 256 (lwmaProduct blocks pindexLast params) > uintToArith256 params.powLimit
          then uintToArith256 params.powLimit
          else BitVec.ofNat 256 (lwmaProduct blocks pindexLast params))) := by
  have enough : ¬ (¬ last.nHeight + 1 > params.nLwmaAveragingWindow ∨ params.nLwmaMinDenominator = 0) := by
    rw [shipped.window, shipped.denominator]
    omega
  simp only [lwmaCalculateNextWorkRequired, found, bind, Option.bind_some, if_neg enough,
    lwmaLoop_eq shipped linked found tall, sumsAfter, ← max_def_lt, nextTarget_eq shipped]

theorem lwmaExact_iff (summed : targetSum blocks pindexLast params 45 < 2 ^ 256) :
    LwmaExact blocks pindexLast params last ↔ lwmaProduct blocks pindexLast params < 2 ^ 256 := by
  have value : (BitVec.ofNat 256 (lwmaProduct blocks pindexLast params)).toNat =
      lwmaProduct blocks pindexLast params % 2 ^ 256 := BitVec.toNat_ofNat _ _
  rw [LwmaExact, lwmaLoop_eq shipped linked found tall, shipped.window_toNat]
  constructor
  · rintro ⟨_, ⟨⟩, -, unreduced⟩
    rw [sumsAfter, nextTarget_eq shipped] at unreduced
    omega
  · intro fits
    refine ⟨_, rfl, ?_, ?_⟩
    · rw [sumsAfter, BitVec.toNat_ofNat, Nat.mod_eq_of_lt summed]
    · rw [sumsAfter, nextTarget_eq shipped]
      omega

end

variable {powLimit : Nat} (accepted : ∀ j, 1 ≤ j → j ≤ 45 →
  (setCompact (windowBlock blocks pindexLast params j).nBits).value.toNat ≤ powLimit)

include accepted

theorem targetSum_le : targetSum blocks pindexLast params 45 * 619740 ≤ powLimit := by
  have each : ∀ j ∈ Finset.Icc (1 : Nat) 45,
      (setCompact (windowBlock blocks pindexLast params j).nBits).value.toNat / windowDivisor params ≤
        powLimit / 27888300 := by
    intro j member
    have range := Finset.mem_Icc.mp member
    rw [windowDivisor_eq shipped]
    exact Nat.div_le_div_right (accepted j range.1 range.2)
  have total : targetSum blocks pindexLast params 45 ≤ 45 * (powLimit / 27888300) := by
    have summed := Finset.sum_le_card_nsmul _ _ _ each
    simpa [targetSum] using summed
  omega

theorem lwmaProduct_scaled : lwmaProduct blocks pindexLast params * 619740 ≤
      (lwmaTime blocks pindexLast params).toNat * powLimit := by
  rw [lwmaProduct, shipped.window_toNat, Nat.mul_assoc]
  exact Nat.mul_le_mul_left _ (targetSum_le shipped accepted)

/-- Only the easy limit of the live network leaves room to reach `2 ^ 256`. -/
theorem lwmaProduct_lt (small : powLimit < 2 ^ 234) : lwmaProduct blocks pindexLast params < 2 ^ 256 := by
  have bounds := lwmaTime_bounds blocks pindexLast shipped
  have time : (lwmaTime blocks pindexLast params).toNat ≤ 3726000 := by omega
  have bounded := (lwmaProduct_scaled shipped accepted).trans (Nat.mul_le_mul_right _ time)
  omega

/-- The floor of the time leaves room at any bits. -/
theorem lwmaRoom_iff (small : powLimit < 2 ^ 255) :
    LwmaRoom blocks pindexLast params ↔ lwmaProduct blocks pindexLast params < 2 ^ 256 := by
  have summed := targetSum_le shipped accepted
  have floored : (lwmaTime blocks pindexLast params).toNat =
      max (weightedTime blocks pindexLast params 45).toNat 61974 := by
    rw [lwmaTime, shipped.window_toNat, shipped.window, shipped.weight, shipped.denominator]
    omega
  rw [LwmaRoom, lwmaProduct, floored, shipped.window_toNat]
  generalize targetSum blocks pindexLast params 45 = total at *
  generalize weightedTime blocks pindexLast params 45 = time
  rcases Nat.eq_zero_or_pos total with none | some
  · simp [none]
  have scaled : time.toNat ≤ (2 ^ 256 - 1) / total ↔ time.toNat * total ≤ 2 ^ 256 - 1 := Nat.le_div_iff_mul_le some
  rw [← Int.toNat_le, scaled, max_mul]
  omega

end

end Window

/-! ## Compact form -/

theorem value_le_of_deriveTarget {nBits : UInt32} {powLimit : Uint256}
    (accepted : (deriveTarget nBits powLimit).isSome) :
    (setCompact nBits).value.toNat ≤ (uintToArith256 powLimit).toNat := by
  by_contra above
  have refused : deriveTarget nBits powLimit = none := by
    rw [deriveTarget, if_pos]
    simp only [Bool.or_eq_true, decide_eq_true_eq]
    exact .inr (BitVec.lt_def.mpr (by omega))
  rw [refused] at accepted
  cases accepted

variable {number : ArithUint256} {size : Nat}

theorem bits_le (small : number.toNat < 2 ^ size) : bits number ≤ size := by
  unfold bits
  split
  · exact Nat.zero_le _
  · exact Nat.succ_le_of_lt ((Nat.log2_lt ‹_›).mpr small)

def compactSize (number : ArithUint256) : Nat := (bits number + 7) / 8

/-- The leading three bytes `GetCompact` takes. -/
def compactWord (number : ArithUint256) : Nat :=
  if compactSize number ≤ 3 then number.toNat <<< (8 * (3 - compactSize number))
  else number.toNat >>> (8 * (compactSize number - 3))

theorem lt_two_pow_compactSize (number : ArithUint256) : number.toNat < 2 ^ (8 * compactSize number) := by
  have fits : number.toNat < 2 ^ bits number := by
    unfold bits
    split
    · rename_i zero
      rw [zero]
      exact Nat.two_pow_pos 0
    · exact Nat.lt_log2_self
  refine fits.trans_le (Nat.pow_le_pow_right (by omega) ?_)
  unfold compactSize
  omega

theorem compactWord_lt (number : ArithUint256) : compactWord number < 2 ^ 24 := by
  have fits := lt_two_pow_compactSize number
  unfold compactWord
  split
  · rename_i short
    rw [Nat.shiftLeft_eq]
    calc number.toNat * 2 ^ (8 * (3 - compactSize number))
        < 2 ^ (8 * compactSize number) * 2 ^ (8 * (3 - compactSize number)) :=
          Nat.mul_lt_mul_of_pos_right fits (Nat.two_pow_pos _)
      _ = 2 ^ 24 := by
          rw [← Nat.pow_add]
          congr 1
          omega
  · rw [Nat.shiftRight_eq_div_pow]
    apply Nat.div_lt_of_lt_mul
    rwa [← Nat.pow_add, show 8 * (compactSize number - 3) + 24 = 8 * compactSize number by omega]

theorem toNat_or_shifted {word : Nat} (narrow : word < 2 ^ 24) (small : size < 256) :
    (UInt32.ofNat word ||| (UInt32.ofNat size <<< 24)).toNat = size * 2 ^ 24 + word := by
  have shifted : (UInt32.ofNat size <<< 24).toNat = size <<< 24 := by
    rw [UInt32.toNat_shiftLeft, UInt32.toNat_ofNat', Nat.shiftLeft_eq, Nat.shiftLeft_eq]
    change size % 2 ^ 32 * 2 ^ 24 % 2 ^ 32 = size * 2 ^ 24
    omega
  have kept : (UInt32.ofNat word).toNat = word := by
    simp only [UInt32.toNat_ofNat']
    omega
  rw [UInt32.toNat_or, shifted, kept, Nat.or_comm, ← Nat.shiftLeft_add_eq_or_of_lt narrow, Nat.shiftLeft_eq]

/-- The compact form of a number, apart from the sign bit it must not set. -/
theorem toNat_getCompact (number : ArithUint256) : compactWord number < 2 ^ 23 ∧
        (getCompact number).toNat = compactSize number * 2 ^ 24 + compactWord number ∨
      2 ^ 23 ≤ compactWord number ∧
        (getCompact number).toNat = (compactSize number + 1) * 2 ^ 24 + compactWord number / 256 := by
  have narrow := compactWord_lt number
  have size : compactSize number ≤ 32 := by
    have wide : bits number ≤ 256 := bits_le number.isLt
    unfold compactSize
    omega
  have word : (if compactSize number ≤ 3
      then UInt32.ofNat (number.toNat <<< (8 * (3 - compactSize number)))
      else UInt32.ofNat (number.toNat >>> (8 * (compactSize number - 3)))) =
        UInt32.ofNat (compactWord number) := by
    unfold compactWord
    split <;> rfl
  have unfolded : getCompact number = if (UInt32.ofNat (compactWord number) &&& 0x00800000) != 0 then
        (UInt32.ofNat (compactWord number) >>> 8) ||| (UInt32.ofNat (compactSize number + 1) <<< 24)
      else UInt32.ofNat (compactWord number) ||| (UInt32.ofNat (compactSize number) <<< 24) := by
    rw [← word]
    rfl
  have flag : (UInt32.ofNat (compactWord number) &&& 0x00800000).toNat = 2 ^ 23 * (compactWord number / 2 ^ 23) := by
    rw [UInt32.toNat_and, UInt32.toNat_ofNat', Nat.mod_eq_of_lt (by omega)]
    change compactWord number &&& 2 ^ 23 = _
    rw [Nat.and_two_pow, Nat.mul_comm, Nat.toNat_testBit]
    omega
  rw [unfolded]
  split
  · rename_i signed
    right
    have shifted : UInt32.ofNat (compactWord number) >>> 8 = UInt32.ofNat (compactWord number / 256) := by
      apply UInt32.toNat_inj.mp
      rw [UInt32.toNat_shiftRight, UInt32.toNat_ofNat', UInt32.toNat_ofNat', Nat.shiftRight_eq_div_pow]
      change compactWord number % 2 ^ 32 / 2 ^ 8 = compactWord number / 256 % 2 ^ 32
      omega
    refine ⟨?_, ?_⟩
    · by_contra below
      have unset : UInt32.ofNat (compactWord number) &&& 0x00800000 = 0 :=
        UInt32.toNat_inj.mp (by rw [flag, UInt32.toNat_zero]; omega)
      simp [unset] at signed
    · rw [shifted, toNat_or_shifted (by omega) (by omega)]
  · rename_i unsigned
    rw [bne_iff_ne, not_not] at unsigned
    rw [unsigned, UInt32.toNat_zero] at flag
    exact .inl ⟨by omega, toNat_or_shifted narrow (by omega)⟩

/-! ## When the product is right -/

section Networks

variable (sha256d : Bytes → Uint256) (chain : ChainType) {params : Params} {blocks : BlockMap} {pindexLast : Uint256}
  {last : CBlockIndex}

/-- The returned bits are the right ones, and neither the sum nor the product is reduced, exactly if the
blocks of the window took no longer than their bits leave room for. Only the limit of the live network
can leave too little. There a weighted time up to about twice the aim is safe, and at its easiest bits
nothing above that is. -/
theorem lwmaCalculateNextWorkRequired_exact_iff (network : params = (chainParams sha256d chain).consensus)
    (linked : Linked blocks) (found : blocks.lookup pindexLast = some last)
    (tall : params.nLwmaAveragingWindow ≤ last.nHeight)
    (accepted : ∀ j, 1 ≤ j → j ≤ params.nLwmaAveragingWindow.toNat →
      (deriveTarget (windowBlock blocks pindexLast params j).nBits params.powLimit).isSome) :
    (lwmaCalculateNextWorkRequired blocks pindexLast params =
          some (getCompact (BitVec.ofNat 256 (min (powLimitOf chain) (lwmaProduct blocks pindexLast params)))) ∧
        LwmaExact blocks pindexLast params last ↔ LwmaRoom blocks pindexLast params) ∧
      (chain ≠ .regtest → LwmaRoom blocks pindexLast params) ∧
      (weightedTime blocks pindexLast params 45 ≤ 1239480 → LwmaRoom blocks pindexLast params) ∧
      ((∀ j, 1 ≤ j → j ≤ 45 → (windowBlock blocks pindexLast params j).nBits = 0x207fffff) →
        LwmaRoom blocks pindexLast params → weightedTime blocks pindexLast params 45 ≤ 1239480) := by
  have shipped := shippedLwma_chainParams sha256d chain
  have limit := toNat_powLimit sha256d chain
  have limitSmall := powLimitOf_lt chain
  rw [← network] at shipped limit
  rw [shipped.window] at tall
  rw [shipped.window_toNat] at accepted
  have within : ∀ j, 1 ≤ j → j ≤ 45 →
      (setCompact (windowBlock blocks pindexLast params j).nBits).value.toNat ≤ powLimitOf chain := by
    intro j low high
    rw [← limit]
    exact value_le_of_deriveTarget (accepted j low high)
  have summed := targetSum_le shipped within
  have room := lwmaRoom_iff shipped within limitSmall
  refine ⟨?_, fun other => ?_, fun safe => ?_, fun easiest roomy => ?_⟩
  · rw [lwmaExact_iff shipped linked found tall (by omega), room]
    refine and_iff_right_of_imp fun fits => ?_
    rw [lwmaCalculateNextWorkRequired_eq shipped linked found tall, ← limit]
    have whole : (BitVec.ofNat 256 (lwmaProduct blocks pindexLast params)).toNat =
        lwmaProduct blocks pindexLast params := by
      rw [BitVec.toNat_ofNat, Nat.mod_eq_of_lt fits]
    split
    next above =>
      rw [gt_iff_lt, BitVec.lt_def, whole] at above
      rw [min_eq_left above.le, BitVec.ofNat_toNat, BitVec.setWidth_eq]
    next below =>
      rw [gt_iff_lt, BitVec.lt_def, whole, not_lt] at below
      rw [min_eq_right below]
  · exact room.mpr (lwmaProduct_lt shipped within (powLimitOf_lt_of_ne other))
  · refine room.mpr ?_
    have time : (lwmaTime blocks pindexLast params).toNat ≤ 1239480 := by
      rw [lwmaTime, shipped.window_toNat, shipped.window, shipped.weight, shipped.denominator]
      omega
    have bounded := (lwmaProduct_scaled shipped within).trans (Nat.mul_le_mul_right _ time)
    omega
  · have each : targetSum blocks pindexLast params 45 =
        ∑ _j ∈ Finset.Icc 1 45, (setCompact 0x207fffff).value.toNat / 27888300 := by
      refine Finset.sum_congr rfl fun j member => ?_
      have range := Finset.mem_Icc.mp member
      rw [easiest j range.1 range.2, windowDivisor_eq shipped]
    have most : (2 ^ 256 - 1) / targetSum blocks pindexLast params 45 = 1239480 := by
      rw [each]
      decide +kernel
    rw [LwmaRoom, shipped.window_toNat, most] at roomy
    rcases roomy with none | bounded
    · rw [none] at most
      cases most
    · exact bounded

end Networks

/-! ## Evenly spaced blocks -/

/-- A chain of blocks that all took the same time at the same target. -/
def spacedChain (spacing nBits : UInt32) : Nat → BlockMap :=
  straightChain fun height => { nTime := 1296688602 + spacing * UInt32.ofNat height, nBits }

theorem nBits_blockBehind_spacedChain {spacing nBits : UInt32} {steps : Nat} (fits : size < 2 ^ 256)
    (within : steps < size) :
    (blockBehind (spacedChain spacing nBits size) (.ofNat (size - 1)) steps).nBits = nBits := by
  obtain ⟨hash, -, listed, -⟩ := (linked_straightChain fits).blockBehind_found
    (lookup_straightChain_top fits (show size - 1 < size by omega))
    (show (steps : Int) ≤ _ by simp only [straightEntry]; omega)
  obtain ⟨height, -, -, same⟩ := (lookup_straightChain fits).mp listed
  rw [spacedChain, same]
  rfl

theorem accepted_spacedChain (spacing : UInt32) (j : Nat) :
    (deriveTarget (windowBlock (spacedChain spacing 0x207fffff 46) (.ofNat 45)
      (regtestParams fun _ => .zero).consensus j).nBits
        (regtestParams fun _ => .zero).consensus.powLimit).isSome := by
  have carried : (windowBlock (spacedChain spacing 0x207fffff 46) (.ofNat 45)
      (regtestParams fun _ => .zero).consensus j).nBits = 0x207fffff :=
    nBits_blockBehind_spacedChain (by decide) (show 45 - j < 46 by omega)
  rw [carried]
  decide +kernel

theorem lwma_exact_at_spacing : lwmaCalculateNextWorkRequired (spacedChain 600 0x207fffff 46) (.ofNat 45)
        (chainParams (fun _ => .zero) .regtest).consensus =
      some (getCompact (BitVec.ofNat 256 (min (powLimitOf .regtest)
        (lwmaProduct (spacedChain 600 0x207fffff 46) (.ofNat 45)
          (chainParams (fun _ => .zero) .regtest).consensus)))) := by
  obtain ⟨exact_, -, safe, -⟩ := lwmaCalculateNextWorkRequired_exact_iff (fun _ => .zero) .regtest rfl
    (linked_straightChain (by decide)) (lookup_straightChain_top (by decide) (by decide))
    (by decide) fun j _ _ => accepted_spacedChain 600 j
  exact (exact_.mpr (safe (by decide +kernel))).1

/-- Blocks of one hour at the easiest target of the live network. The product is more than `2 ^ 256`, and
what is left of it is a target over eighty times harder than the easiest one that is due. -/
theorem lwma_wraps_after_slow_blocks : Linked (spacedChain 3600 0x207fffff 46) ∧
      (∀ j, 1 ≤ j → j ≤ 45 → (deriveTarget (windowBlock (spacedChain 3600 0x207fffff 46) (.ofNat 45)
          (regtestParams fun _ => .zero).consensus j).nBits
            (regtestParams fun _ => .zero).consensus.powLimit).isSome) ∧
      lwmaCalculateNextWorkRequired (spacedChain 3600 0x207fffff 46) (.ofNat 45)
          (regtestParams fun _ => .zero).consensus ≠
        some (getCompact (BitVec.ofNat 256 (min (powLimitOf .regtest)
          (lwmaProduct (spacedChain 3600 0x207fffff 46) (.ofNat 45) (regtestParams fun _ => .zero).consensus)))) := by
  exact ⟨linked_straightChain (by decide), fun j _ _ => accepted_spacedChain 3600 j, by decide +kernel⟩

end Sharecoin
