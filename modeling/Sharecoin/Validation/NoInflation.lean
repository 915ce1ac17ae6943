import Sharecoin.Coins.Stack
import Sharecoin.Validation.ConnectBlockProperties

/-! Connecting a block creates no money beyond the subsidy. -/

set_option autoImplicit false

namespace Sharecoin

open Lib Program

/-- The unspent outputs after a block that `ConnectBlock` accepts are worth at most
those before it and the subsidy, where the block overwrites none of them. -/
theorem connectBlock_no_inflation (env : ConnectEnv) (block : CBlock) (pindex : Uint256) (entry : CBlockIndex)
    (view after : CCoinsView) (before below : CoinMap) (deeper : List CoinMap) (result : ConnectedBlock)
    (indexed : env.blocks.lookup pindex = some entry) (represents : Represents view before (below :: deeper))
    (bip30 : Bip30Holds env.hashes.sha256d before block)
    (connected : Returns (connectBlock env block pindex false) view result after) :
    ∃ coins, Represents after coins (below :: deeper) ∧
      totalValue coins ≤ totalValue before + getBlockSubsidy entry.nHeight env.params := by
  rcases connectBlock_effect represents connected indexed (fun _ _ => .inr bip30) with
    ⟨_, same⟩ | ⟨blockundo, fees, reward, next, connects, bounded, _, stands⟩
  · have nonneg := getBlockSubsidy_nonneg entry.nHeight env.params
    exact ⟨before, same, by omega⟩
  · have sums := connects.totalValue_le
    exact ⟨next, stands, by omega⟩

/-! ## A block on regtest -/

def firstOutpoint : COutPoint := ⟨.ofNat 1, 0⟩
def siblingOutpoint : COutPoint := ⟨.ofNat 1, 1⟩
def secondOutpoint : COutPoint := ⟨.ofNat 2, 0⟩

def spendingTx : CTransaction :=
  { vin := [{ prevout := firstOutpoint }, { prevout := secondOutpoint }]
    vout := [{ nValue := 7, scriptPubKey := [OP_1] }, { nValue := 1, scriptPubKey := [OP_RETURN] }] }

/-- Takes the subsidy and the fee of two. -/
def rewardCoinbase : CTransaction :=
  { vin := [{ prevout := .null, scriptSig := [0x52, 0x00] }]
    vout := [{ nValue := 50 * COIN + 2, scriptPubKey := [OP_1] }] }

def parentHash : Uint256 := .ofNat 5

def spendingBlock : CBlock :=
  { header :=
      { nVersion := 4
        hashPrevBlock := parentHash
        hashMerkleRoot := .ofNat 0x8ebf8f7927a1a990ac16e42333e8e642d5d3385869f47343c38d788d96a40f20
        nTime := 1296689000
        nBits := 0x207fffff
        nHeight := 2
        nNonce64 := 0
        mixHash := .zero }
    vtx := [rewardCoinbase, spendingTx] }

def spendingHash : Uint256 :=
  .ofNat 0x53376b810c9c251571f6609c29e2d7becae2e0ca00be1f0133493999baeabaad

def spendingEntry : CBlockIndex :=
  { CBlockIndex.ofHeader spendingBlock.header with pprev := some parentHash, nHeight := 2 }

/-- Every script verifies, and every proof of work. -/
def spendingEnv : ConnectEnv :=
  { hashes := { sha256d := Sha256.doubleDigest, progpowVerify := fun _ _ _ _ _ _ => true }
    params := (regtestParams Sha256.doubleDigest).consensus
    blocks := AList.insert spendingHash spendingEntry (AList.singleton parentHash { nHeight := 1, nTime := 1296688700 })
    flags := { p2sh := true, witness := true, p2sh_of_witness := fun _ => rfl }
    fScriptChecks := true
    hasThreads := false
    verifyScripts := fun _ _ => none
    writeBlockUndo := fun _ => none }

def heldCoin (nValue : Int) (script : CScript) (nHeight : Int) : Coin :=
  .ofOutput { nValue, scriptPubKey := script } nHeight false

def spendingDB (first second : Coin) : CoinsDB :=
  ((CoinsDB.single siblingOutpoint (heldCoin 3 [OP_1] 1) (by decide) parentHash).writeEntry
    firstOutpoint { coin := first, dirty := true }).writeEntry
      secondOutpoint { coin := second, dirty := true }

def ordinaryDB : CoinsDB := spendingDB (heldCoin 6 [OP_1] 1) (heldCoin 4 [OP_1] 1)

theorem spendingBlock_connects : ∃ result after, Returns (connectBlock spendingEnv spendingBlock spendingHash false)
      (.emptyStack ordinaryDB 1) result after ∧ result.blockundo.isSome = true := by
  have connects : ((connectBlock spendingEnv spendingBlock spendingHash false).outcome
      (.emptyStack ordinaryDB 1)).any (fun outcome => outcome.1.blockundo.isSome) = true := by decide +kernel
  obtain ⟨⟨result, after⟩, returned, written⟩ := (Option.any_eq_true _ _).mp connects
  exact ⟨result, after, returns_of_outcome returned, written⟩

theorem spendingBlock_bip30 : Bip30Holds Sha256.doubleDigest ordinaryDB.coins.toFinmap spendingBlock := by
  unfold Bip30Holds OutputsAbsent
  decide +kernel

theorem connectBlock_no_inflation_spendingBlock :
    ∃ result after coins, Returns (connectBlock spendingEnv spendingBlock spendingHash false)
        (.emptyStack ordinaryDB 1) result after ∧
      Represents after coins [ordinaryDB.coins.toFinmap] ∧
      totalValue coins ≤ totalValue ordinaryDB.coins.toFinmap + 50 * COIN := by
  obtain ⟨result, after, connected, _⟩ := spendingBlock_connects
  obtain ⟨coins, stands, bounded⟩ := connectBlock_no_inflation spendingEnv spendingBlock spendingHash
    spendingEntry _ after ordinaryDB.coins.toFinmap ordinaryDB.coins.toFinmap [] result
    (AList.lookup_insert _) (emptyStack_represents ordinaryDB 1) spendingBlock_bip30 connected
  have subsidy : getBlockSubsidy spendingEntry.nHeight spendingEnv.params = 50 * COIN := by decide +kernel
  rw [subsidy] at bounded
  exact ⟨result, after, coins, connected, stands, bounded⟩

end Sharecoin
