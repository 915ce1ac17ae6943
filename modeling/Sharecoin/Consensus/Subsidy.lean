import Sharecoin.Consensus.Params
import Sharecoin.Lib.Machine
import Mathlib.Algebra.BigOperators.Intervals
import Mathlib.Algebra.Order.BigOperators.Group.Finset
import Mathlib.Tactic.Linarith

/-! The block subsidy and the total it pays out. Heights fall into eras of one
halving interval each, so a sum over heights is a sum over eras. -/

set_option autoImplicit false

namespace Sharecoin

def getBlockSubsidy (nHeight : Int) (consensusParams : Params) : Int :=
  let halvings := nHeight.tdiv consensusParams.nSubsidyHalvingInterval
  if halvings ≥ 64 then 0 else (50 * COIN) >>> halvings.toNat

def totalSubsidy (consensusParams : Params) (height : Nat) : Int :=
  ∑ i ∈ Finset.range (height + 1), getBlockSubsidy i consensusParams

def eraSubsidy (halvings : Nat) : Int := if halvings ≥ 64 then 0 else (50 * COIN) >>> halvings

theorem eraSubsidy_nonneg (halvings : Nat) : 0 ≤ eraSubsidy halvings := by
  unfold eraSubsidy
  split
  · exact le_rfl
  · rw [Int.shiftRight_eq_div_pow]
    exact Int.ediv_nonneg (by decide) (by positivity)

theorem eraSubsidy_le (halvings : Nat) : eraSubsidy halvings ≤ 50 * COIN := by
  unfold eraSubsidy
  split
  · decide
  · rw [Int.shiftRight_eq_div_pow]
    exact Int.ediv_le_self _ (by decide)

variable (nHeight : Int)

theorem getBlockSubsidy_eq_eraSubsidy (consensusParams : Params) : getBlockSubsidy nHeight consensusParams =
      eraSubsidy (nHeight.tdiv consensusParams.nSubsidyHalvingInterval).toNat := by
  unfold getBlockSubsidy eraSubsidy
  by_cases late : nHeight.tdiv consensusParams.nSubsidyHalvingInterval ≥ 64
  · rw [if_pos late, if_pos (by omega)]
  · rw [if_neg late, if_neg (by omega)]

theorem getBlockSubsidy_nonneg (consensusParams : Params) : 0 ≤ getBlockSubsidy nHeight consensusParams := by
  rw [getBlockSubsidy_eq_eraSubsidy]
  exact eraSubsidy_nonneg _

theorem getBlockSubsidy_le (consensusParams : Params) : getBlockSubsidy nHeight consensusParams ≤ 50 * COIN := by
  rw [getBlockSubsidy_eq_eraSubsidy]
  exact eraSubsidy_le _

variable {consensusParams : Params} {interval : Nat} {height : Nat}

theorem getBlockSubsidy_eq_era (spaced : consensusParams.nSubsidyHalvingInterval = interval)
    (height : Nat) : getBlockSubsidy height consensusParams = eraSubsidy (height / interval) := by
  have halvings : (height : Int).tdiv interval = ((height / interval : Nat) : Int) := by
    rw [Int.tdiv_eq_ediv_of_nonneg (Int.natCast_nonneg height), Int.natCast_ediv]
  simp only [getBlockSubsidy, eraSubsidy, spaced, halvings, Int.toNat_natCast]
  norm_cast

theorem sum_range_mul_div (value : Nat → Int) (positive : 0 < interval) (eras : Nat) :
    ∑ i ∈ Finset.range (interval * eras), value (i / interval) = interval * ∑ era ∈ Finset.range eras, value era := by
  induction eras with
  | zero => simp
  | succ eras ih =>
    have last : ∀ i ∈ Finset.range interval, value ((interval * eras + i) / interval) = value eras := by
      intro i member
      rw [Nat.mul_add_div positive, Nat.div_eq_of_lt (Finset.mem_range.mp member), Nat.add_zero]
    rw [Nat.mul_succ, Finset.sum_range_add, ih, Finset.sum_congr rfl last,
      Finset.sum_range_succ, Finset.sum_const, Finset.card_range]
    simp [mul_add]

theorem sum_eraSubsidy (eras : Nat) :
    ∑ era ∈ Finset.range (64 + eras), eraSubsidy era = ∑ era ∈ Finset.range 64, eraSubsidy era := by
  have exhausted : ∀ era ∈ Finset.range eras, eraSubsidy (64 + era) = 0 := by
    intro era _
    simp [eraSubsidy]
  rw [Finset.sum_range_add, Finset.sum_congr rfl exhausted]
  simp

section

variable (spaced : consensusParams.nSubsidyHalvingInterval = interval)
include spaced

theorem totalSubsidy_eq (height : Nat) :
    totalSubsidy consensusParams height = ∑ i ∈ Finset.range (height + 1), eraSubsidy (i / interval) :=
  Finset.sum_congr rfl fun i _ => getBlockSubsidy_eq_era spaced i

theorem totalSubsidy_le_eras (positive : 0 < interval)
    (height : Nat) : totalSubsidy consensusParams height ≤ interval * ∑ era ∈ Finset.range 64, eraSubsidy era := by
  have covered : Finset.range (height + 1) ⊆ Finset.range (interval * (64 + height)) := by
    apply Finset.range_mono
    calc height + 1 ≤ 64 + height := by omega
      _ ≤ interval * (64 + height) := Nat.le_mul_of_pos_left _ positive
  calc totalSubsidy consensusParams height
      = ∑ i ∈ Finset.range (height + 1), eraSubsidy (i / interval) := totalSubsidy_eq spaced height
    _ ≤ ∑ i ∈ Finset.range (interval * (64 + height)), eraSubsidy (i / interval) :=
        Finset.sum_le_sum_of_subset_of_nonneg covered fun i _ _ => eraSubsidy_nonneg _
    _ = interval * ∑ era ∈ Finset.range 64, eraSubsidy era := by
        rw [sum_range_mul_div _ positive, sum_eraSubsidy]

theorem totalSubsidy_mono {low high : Nat}
    (ordered : low ≤ high) : totalSubsidy consensusParams low ≤ totalSubsidy consensusParams high := by
  rw [totalSubsidy_eq spaced, totalSubsidy_eq spaced]
  apply Finset.sum_le_sum_of_subset_of_nonneg
  · exact Finset.range_mono (Nat.succ_le_succ ordered)
  · exact fun i _ _ => eraSubsidy_nonneg _

theorem totalSubsidy_first_era
    (early : height < interval) : totalSubsidy consensusParams height = (height + 1) * (50 * COIN) := by
  have full : ∀ i ∈ Finset.range (height + 1), eraSubsidy (i / interval) = 50 * COIN := by
    intro i member
    have small : i < interval := lt_of_lt_of_le (Finset.mem_range.mp member) early
    rw [Nat.div_eq_of_lt small]
    decide
  rw [totalSubsidy_eq spaced, Finset.sum_congr rfl full]
  simp

/-! ## The supply bound -/

/-- All subsidies up to a height stay within `MAX_MONEY`, and so does any
selection of blocks that each create at most their subsidy. -/
def SupplyBounded (consensusParams : Params) (height : Nat) : Prop :=
  totalSubsidy consensusParams height ≤ MAX_MONEY ∧
    ∀ (blocks : Finset Nat) (created : Nat → Int), blocks ⊆ Finset.range (height + 1) →
      (∀ i ∈ blocks, 0 ≤ created i ∧ created i ≤ getBlockSubsidy i consensusParams) →
      moneyRange (∑ i ∈ blocks, created i) = true

theorem supplyBounded_of_le
    (bounded : totalSubsidy consensusParams height ≤ MAX_MONEY) : SupplyBounded consensusParams height := by
  refine ⟨bounded, fun blocks created within limited => moneyRange_iff.mpr ⟨?_, ?_⟩⟩
  · exact Finset.sum_nonneg fun i member => (limited i member).1
  have paid : ∑ i ∈ blocks, created i ≤ ∑ i ∈ blocks, getBlockSubsidy i consensusParams :=
    Finset.sum_le_sum fun i member => (limited i member).2
  have selected : ∑ i ∈ blocks, getBlockSubsidy i consensusParams ≤ totalSubsidy consensusParams height := by
    apply Finset.sum_le_sum_of_subset_of_nonneg within
    intro i _ _
    rw [getBlockSubsidy_eq_era spaced]
    exact eraSubsidy_nonneg _
  exact paid.trans (selected.trans bounded)

end

theorem supplyBounded_of_interval_210000 (spaced : consensusParams.nSubsidyHalvingInterval = (210000 : Nat))
    (height : Nat) : SupplyBounded consensusParams height := by
  apply supplyBounded_of_le spaced
  apply (totalSubsidy_le_eras spaced (by decide) height).trans
  decide +kernel

theorem supplyBounded_interval_5000000_iff (spaced : consensusParams.nSubsidyHalvingInterval = (5000000 : Nat))
    (height : Nat) : SupplyBounded consensusParams height ↔ height < 420000 := by
  constructor
  · intro bounded
    by_contra late
    have grown := totalSubsidy_mono spaced (Nat.not_lt.mp late)
    rw [totalSubsidy_first_era spaced (by decide : 420000 < 5000000)] at grown
    have exceeded : MAX_MONEY < (((420000 : Nat) : Int) + 1) * (50 * COIN) := by decide
    exact absurd (grown.trans bounded.1) (not_le.mpr exceeded)
  · intro early
    apply supplyBounded_of_le spaced
    rw [totalSubsidy_first_era spaced (by omega)]
    simp only [COIN, MAX_MONEY]
    omega

/-- The bound holds at every height on every chain but regtest, whose longer
halving interval breaks it from height 420000 on. -/
theorem supplyBounded_iff (sha256d : Lib.Bytes → Uint256) (chain : ChainType) (height : Nat) :
    SupplyBounded (chainParams sha256d chain).consensus height ↔ chain ≠ .regtest ∨ height < 420000 := by
  cases chain with
  | regtest =>
    rw [supplyBounded_interval_5000000_iff rfl]
    simp
  | main | testnet | testnet4 | signet =>
    simp only [ne_eq, reduceCtorEq, not_false_eq_true, true_or, iff_true]
    exact supplyBounded_of_interval_210000 rfl height

theorem regtest_supply_exceeds_at_420000 :
    MAX_MONEY < totalSubsidy (chainParams Sha256.doubleDigest .regtest).consensus 420000 ∧
      ¬ SupplyBounded (chainParams Sha256.doubleDigest .regtest).consensus 420000 := by
  constructor
  · rw [totalSubsidy_first_era (show _ = ((5000000 : Nat) : Int) from rfl) (by decide)]
    decide
  · intro bounded
    exact absurd ((supplyBounded_interval_5000000_iff rfl 420000).mp bounded) (by decide)

end Sharecoin
