import Sharecoin.Lib.Machine
import Sharecoin.Primitives.Transaction
import Sharecoin.Script.SigOps
import Sharecoin.Util.FeeFrac
import Mathlib.Tactic.Linarith

/-! Fee rates: the fee of a size, rounded up, and the outputs that are dust at a rate. The sizes
are 32-bit and the fees 64-bit integers. -/

set_option autoImplicit false

namespace Sharecoin

open Lib

def MAX_STANDARD_TX_WEIGHT : Int := 400000
def MIN_STANDARD_TX_NONWITNESS_SIZE : Int := 65

/-- `CeilDiv` of unsigned integers. -/
def ceilDiv (dividend divisor : Int) : Int :=
  dividend / divisor + if dividend % divisor ≠ 0 then 1 else 0

variable {dividend divisor : Int}

theorem ceilDiv_le_iff (positive : 0 < divisor) (bound : Int) :
    ceilDiv dividend divisor ≤ bound ↔ dividend ≤ bound * divisor := by
  have parts := Int.mul_ediv_add_emod dividend divisor
  have low := Int.emod_nonneg dividend positive.ne'
  have high := Int.emod_lt_of_pos dividend positive
  unfold ceilDiv
  split
  next rest =>
    constructor
    · intro below
      nlinarith
    intro covered
    have : divisor * (dividend / divisor) < divisor * bound := by
      rw [mul_comm divisor bound]
      omega
    have := lt_of_mul_lt_mul_left this positive.le
    omega
  next exact =>
    have whole : dividend = divisor * (dividend / divisor) := by omega
    constructor
    · intro below
      nlinarith
    intro covered
    have : divisor * (dividend / divisor) ≤ divisor * bound := by
      rw [mul_comm divisor bound]
      omega
    have := le_of_mul_le_mul_left this positive
    omega

theorem ceilDiv_nonneg (positive : 0 < divisor) (nonneg : 0 ≤ dividend) :
    0 ≤ ceilDiv dividend divisor := by
  have := Int.ediv_nonneg nonneg positive.le
  unfold ceilDiv
  split <;> omega

namespace FeeFrac

/-- `EvaluateFeeUp`: small fees are multiplied as unsigned 64-bit integers, the others with 128
bits. -/
def evaluateFeeUp (feefrac : FeeFrac) (atSize : Int) : Int :=
  if 0 ≤ feefrac.fee ∧ feefrac.fee < 0x200000000 then
    wrap64 (ceilDiv (feefrac.fee * atSize % 2 ^ 64) (feefrac.size % 2 ^ 32))
  else
    let n := feefrac.fee * atSize
    wrap64 (wrap64 (n.tdiv feefrac.size) + if 0 < n.tmod feefrac.size then 1 else 0)

end FeeFrac

structure CFeeRate where
  feerate : FeeFrac := {}
deriving DecidableEq

namespace CFeeRate

/-- The constructor from satoshis for a thousand bytes. -/
def perKvB (fee : Int) : CFeeRate := ⟨⟨fee, 1000⟩⟩

def getFee (rate : CFeeRate) (virtualBytes : Int) : Int :=
  if rate.feerate.size = 0 then 0
  else
    let nFee := rate.feerate.evaluateFeeUp virtualBytes
    if nFee = 0 ∧ virtualBytes ≠ 0 ∧ rate.feerate.fee < 0 then -1 else nFee

/-! ## The fee as a ceiling -/

/-- A rate that is not negative, of at most `bytes`, with a fee that fits for each of them. -/
structure Fits (rate : CFeeRate) (bytes : Int) : Prop where
  feeNonneg : 0 ≤ rate.feerate.fee
  sizePos : 0 < rate.feerate.size
  sizeLt : rate.feerate.size < 2 ^ 31
  bytesLt : bytes < 2 ^ 31
  feeLt : rate.feerate.fee * bytes ≤ (2 ^ 63 - 1) * rate.feerate.size

section Fits

variable {rate : CFeeRate} {bytes : Int}

theorem Fits.mono (fits : rate.Fits bytes) {fewer : Int} (le : fewer ≤ bytes) : rate.Fits fewer where
  feeNonneg := fits.feeNonneg
  sizePos := fits.sizePos
  sizeLt := fits.sizeLt
  bytesLt := le.trans_lt fits.bytesLt
  feeLt := (mul_le_mul_of_nonneg_left le fits.feeNonneg).trans fits.feeLt

theorem tdiv_add_eq_ceilDiv (nonneg : 0 ≤ dividend) :
    dividend.tdiv divisor + (if 0 < dividend.tmod divisor then 1 else 0) =
      ceilDiv dividend divisor := by
  rw [Int.tdiv_eq_ediv_of_nonneg nonneg, Int.tmod_eq_emod_of_nonneg nonneg, ceilDiv]
  by_cases zero : divisor = 0
  · subst zero
    simp only [Int.emod_zero]
    split <;> split <;> omega
  · have := Int.emod_nonneg dividend zero
    split <;> split <;> omega

section

variable (fits : rate.Fits bytes) (nonneg : 0 ≤ bytes)

include fits nonneg

theorem getFee_eq_ceilDiv : rate.getFee bytes = ceilDiv (rate.feerate.fee * bytes) rate.feerate.size := by
  have productNonneg : 0 ≤ rate.feerate.fee * bytes := mul_nonneg fits.feeNonneg nonneg
  have feeNonneg := ceilDiv_nonneg fits.sizePos productNonneg
  have feeLt := (ceilDiv_le_iff fits.sizePos _).mpr fits.feeLt
  have evaluated : rate.feerate.evaluateFeeUp bytes = ceilDiv (rate.feerate.fee * bytes) rate.feerate.size := by
    unfold FeeFrac.evaluateFeeUp
    split
    next small =>
      have product : rate.feerate.fee * bytes < 2 ^ 64 := by
        have := fits.bytesLt
        nlinarith
      have sizeLt := fits.sizeLt
      rw [Int.emod_eq_of_lt productNonneg product,
        Int.emod_eq_of_lt fits.sizePos.le (by omega), wrap64_eq_self (by omega) (by omega)]
    next =>
      have parts := @tdiv_add_eq_ceilDiv _ rate.feerate.size productNonneg
      have quotient : 0 ≤ (rate.feerate.fee * bytes).tdiv rate.feerate.size :=
        Int.tdiv_nonneg productNonneg fits.sizePos.le
      have quotientLt : (rate.feerate.fee * bytes).tdiv rate.feerate.size < 2 ^ 63 := by
        split at parts <;> omega
      dsimp only
      rw [wrap64_eq_self (by omega) quotientLt, parts, wrap64_eq_self (by omega) (by omega)]
  have sizePos := fits.sizePos
  have rateNonneg := fits.feeNonneg
  rw [getFee, if_neg sizePos.ne', evaluated, if_neg (by omega)]

theorem getFee_le_iff (paid : Int) :
    rate.getFee bytes ≤ paid ↔ rate.feerate.fee * bytes ≤ paid * rate.feerate.size := by
  rw [getFee_eq_ceilDiv fits nonneg, ceilDiv_le_iff fits.sizePos]

theorem le_getFee : rate.feerate.fee * bytes ≤ rate.getFee bytes * rate.feerate.size :=
  (getFee_le_iff fits nonneg _).mp le_rfl

theorem getFee_nonneg : 0 ≤ rate.getFee bytes := by
  rw [getFee_eq_ceilDiv fits nonneg]
  exact ceilDiv_nonneg fits.sizePos (mul_nonneg fits.feeNonneg nonneg)

theorem getFee_of_whole {each : Int}
    (whole : rate.feerate.fee = each * rate.feerate.size) : rate.getFee bytes = each * bytes := by
  apply le_antisymm
  · rw [getFee_le_iff fits nonneg, whole]
    exact le_of_eq (by ring)
  have covered := le_getFee fits nonneg
  rw [whole] at covered
  have : each * bytes * rate.feerate.size ≤ rate.getFee bytes * rate.feerate.size := by
    rwa [mul_assoc, mul_comm bytes, ← mul_assoc]
  exact le_of_mul_le_mul_right this fits.sizePos

end

/-- The fee pays the rate for so many bytes, and no more at a whole rate. -/
structure PaysFor (rate : CFeeRate) (fee bytes : Int) : Prop where
  covers : rate.feerate.fee * bytes ≤ fee * rate.feerate.size
  nonneg : 0 ≤ fee
  whole : ∀ each, rate.feerate.fee = each * rate.feerate.size → fee = each * bytes

theorem PaysFor.zero : rate.PaysFor 0 0 := ⟨by simp, le_rfl, by simp⟩

theorem PaysFor.getFee (fits : rate.Fits bytes) (nonneg : 0 ≤ bytes) : rate.PaysFor (rate.getFee bytes) bytes :=
  ⟨le_getFee fits nonneg, getFee_nonneg fits nonneg, fun _ => getFee_of_whole fits nonneg⟩

theorem PaysFor.add {fee more moreBytes : Int} (pays : rate.PaysFor fee bytes)
    (paysMore : rate.PaysFor more moreBytes) : rate.PaysFor (fee + more) (bytes + moreBytes) where
  covers := by
    rw [mul_add, add_mul]
    exact add_le_add pays.covers paysMore.covers
  nonneg := add_nonneg pays.nonneg paysMore.nonneg
  whole each rate := by rw [pays.whole each rate, paysMore.whole each rate, mul_add]

end Fits

end CFeeRate

/-! ## Dust -/

def CTxOut.getSerializeSize (txout : CTxOut) : Nat := txout.serialize.length

def getDustThreshold (txout : CTxOut) (dustRelayFee : CFeeRate) : Int :=
  if txout.scriptPubKey.isUnspendable then 0
  else
    let nSize := txout.getSerializeSize + if (CScript.isWitnessProgram txout.scriptPubKey).isSome then
        32 + 4 + 1 + 107 / WITNESS_SCALE_FACTOR + 4
      else 32 + 4 + 1 + 107 + 4
    dustRelayFee.getFee (wrap32 nSize)

def isDust (txout : CTxOut) (dustRelayFee : CFeeRate) : Bool :=
  txout.nValue < getDustThreshold txout dustRelayFee

end Sharecoin
