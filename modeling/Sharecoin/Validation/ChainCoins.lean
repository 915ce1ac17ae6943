import Sharecoin.Validation.DisconnectBlockProperties
import Sharecoin.Validation.MutatedArrivals

/-! The coins of a whole chain. Blocks are connected one after the other, each over any
stack of caches that stands for the coins of the chain so far, so flushes and reads in
between do not matter. All coins together never exceed the subsidies, and the chain can
be taken back block by block. -/

set_option autoImplicit false

namespace Sharecoin

open Lib Program

/-- A call of `ConnectBlock` that took the coins of a chain of the given height to those
of a chain one block higher, without a BIP30 exception. Block index, script checks and
undo file are those of the moment. -/
structure BlockConnection (params : Params) (height : Nat) (coins next : CoinMap) where
  env : ConnectEnv
  block : CBlock
  pindex : Uint256
  pprev : Uint256
  entry : CBlockIndex
  view : CCoinsView
  after : CCoinsView
  result : ConnectedBlock
  below : CoinMap
  deeper : List CoinMap
  params_eq : env.params = params
  indexed : env.blocks.lookup pindex = some entry
  linked : entry.pprev = some pprev
  counted : entry.nHeight = height + 1
  fits : entry.nHeight < 2 ^ 31
  bip30 : enforcesBIP30 env pindex entry.nHeight pprev = true ∨ Bip30Holds env.hashes.sha256d coins block
  before : Represents view coins (below :: deeper)
  ran : Returns (connectBlock env block pindex false) view result after
  -- the genesis block leaves no undo data
  written : result.blockundo.isSome = true
  reached : Represents after next (below :: deeper)

/-- The blocks of a chain from height 1 on, with the coins after them. -/
inductive ChainCoins (params : Params) : Nat → CoinMap → Type where
  | genesis : ChainCoins params 0 ∅
  | connect {height : Nat} {coins next : CoinMap} (earlier : ChainCoins params height coins)
      (step : BlockConnection params height coins next) : ChainCoins params (height + 1) next

/-! ## One block -/

variable {params : Params} {height : Nat} {coins next below : CoinMap} {deeper : List CoinMap} {view : CCoinsView}

namespace BlockConnection

variable (step : BlockConnection params height coins next)

/-- `DisconnectBlock` with the undo data of the block. -/
def disconnect (view : CCoinsView) : Except Abort (DisconnectResult × CCoinsView) :=
  disconnectBlock step.env.hashes.sha256d step.block step.pindex step.entry step.result.blockundo view

theorem positive : 1 ≤ step.entry.nHeight := by
  rw [step.counted]
  omega

theorem connects : ∃ blockundo fees reward, step.result.blockundo = some blockundo ∧
      reward ≤ fees + getBlockSubsidy (height + 1) params ∧
      ConnectsBlock step.env.hashes.sha256d step.entry.nHeight coins step.block.vtx blockundo fees reward next := by
  rcases connectBlock_effect step.before step.ran step.indexed
      (fun _ same => Option.some.inj (step.linked.symm.trans same) ▸ step.bip30) with
    ⟨unwritten, _⟩ | ⟨blockundo, fees, reward, known, connects, bounded, saved, stands⟩
  · simpa [unwritten] using step.written
  · rw [step.params_eq, step.counted] at bounded
    exact ⟨blockundo, fees, reward, saved, bounded, step.reached.unique stands ▸ connects⟩

include step

theorem allRestorable (restorable : AllRestorable coins) : AllRestorable next := by
  obtain ⟨_, _, _, _, _, _, _, applies, _, nonneg, rest⟩ := step.connects
  exact rest.allRestorable step.positive step.fits
    (restorable.applies step.positive step.fits (fun _ _ _ => trivial) nonneg applies)

theorem totalValue_le : totalValue next ≤ totalValue coins + getBlockSubsidy (height + 1) params := by
  obtain ⟨_, fees, reward, _, bounded, connects⟩ := step.connects
  have sums := connects.totalValue_le
  omega

theorem disconnect_returns (restorable : AllRestorable coins) (stands : Represents view next (below :: deeper)) :
    ∃ restored, step.disconnect view = .ok (.disconnectOk, restored) ∧ Represents restored coins (below :: deeper) := by
  obtain ⟨blockundo, _, _, saved, _, connects⟩ := step.connects
  rw [disconnect, saved]
  exact disconnectBlock_of_connectsBlock step.linked step.positive step.fits restorable
    (fun _ _ _ _ => trivial) connects stands

end BlockConnection

/-! ## A chain -/

theorem totalSubsidy_succ (params : Params) (height : Nat) : totalSubsidy params (height + 1) =
      totalSubsidy params height + getBlockSubsidy (height + 1) params := by
  rw [totalSubsidy, Finset.sum_range_succ, ← totalSubsidy, Nat.cast_add, Nat.cast_one]

namespace ChainCoins

/-- The coins of the chain without its last blocks. -/
def coinsBelow {height : Nat} {coins : CoinMap} : ChainCoins params height coins → Nat → CoinMap
  | connect earlier _, count + 1 => earlier.coinsBelow count
  | _, _ => coins

/-- Disconnects the last blocks, the last one first. -/
def disconnectBlocks {height : Nat} {coins : CoinMap} :
    ChainCoins params height coins → Nat → CCoinsView → Option CCoinsView
  | connect earlier step, count + 1, view =>
    match step.disconnect view with
    | .ok (.disconnectOk, restored) => earlier.disconnectBlocks count restored
    | _ => none
  | _, _, view => some view

variable (chain : ChainCoins params height coins)

include chain

theorem allRestorable : AllRestorable coins := by
  induction chain with
  | genesis =>
    intro outpoint coin _ found
    rw [Finmap.lookup_empty] at found
    cases found
  | connect _ step ih => exact step.allRestorable ih

/-- All coins together are worth at most the subsidies of the blocks, without that of the
genesis block, whose coinbase is never connected. -/
theorem totalValue_le : totalValue coins + getBlockSubsidy 0 params ≤ totalSubsidy params height := by
  induction chain with
  | genesis =>
    have nothing : totalValue ∅ = 0 := rfl
    simp [nothing, totalSubsidy]
  | connect _ step ih =>
    have grown := step.totalValue_le
    rw [totalSubsidy_succ]
    omega

end ChainCoins

/-! ## A chain with a spend

A coinbase can be spent a hundred blocks later, so the first block that spends a coin is the one
at height 101. -/

def minedParams : Params := { (regtestParams quickHash).consensus with nSubsidyHalvingInterval := 210000 }

/-- Only the first subsidy is paid to somebody. -/
def minedCoinbase (height : Nat) : CTransaction :=
  createCoinbase minedParams (if height = 1 then [OP_1] else [OP_RETURN]) height 0

/-- The coin that has just become mature is spent. -/
def minedTransactions (height : Nat) : List CTransaction :=
  let spent : COutPoint := ⟨(minedCoinbase (height - 100)).getHash quickHash, 0⟩
  minedCoinbase height :: if 100 < height then [{ vin := [{ prevout := spent }], vout := spendingTx.vout }] else []

def minedBlock (height : Nat) (pprev : Uint256) : CBlock :=
  let vtx := minedTransactions height
  let root := computeMerkleRoot quickHash (vtx.map (CTransaction.getHash quickHash))
  { header :=
      { spendingBlock.header with hashPrevBlock := pprev, hashMerkleRoot := root.1, nHeight := .ofNat height }
    vtx }

def minedHash (height : Nat) (pprev : Uint256) : Uint256 := (minedBlock height pprev).header.getHash quickHash

def minedEntry (height : Nat) (pprev : Uint256) : CBlockIndex :=
  { CBlockIndex.ofHeader (minedBlock height pprev).header with pprev := some pprev, nHeight := height }

def minedEnv (height : Nat) (pprev : Uint256) : ConnectEnv :=
  { spendingEnv with
    hashes := signetEnv.hashes
    params := minedParams
    blocks := AList.insert (minedHash height pprev) (minedEntry height pprev)
      (AList.singleton pprev { nHeight := height - 1 }) }

def noCoins : CoinsDB := ⟨∅, by simp, parentHash⟩

def mine : Nat → Option (Uint256 × CCoinsView)
  | 0 => some (parentHash, .emptyStack noCoins 1)
  | height + 1 => do
    let (pprev, view) ← mine height
    let env := minedEnv (height + 1) pprev
    let pindex := minedHash (height + 1) pprev
    let (result, after) ← (connectBlock env (minedBlock (height + 1) pprev) pindex false).outcome view
    if enforcesBIP30 env pindex (height + 1) pprev ∧ result.blockundo.isSome then some (pindex, after) else none

theorem mine_chain {height : Nat} (small : height < 2 ^ 31) {tip : Uint256} {view : CCoinsView}
    (mined : mine height = some (tip, view)) :
    ∃ coins, Nonempty (ChainCoins minedParams height coins) ∧ Represents view coins [∅] := by
  induction height generalizing tip view with
  | zero =>
    cases mined
    exact ⟨∅, ⟨.genesis⟩, emptyStack_represents noCoins 1⟩
  | succ height ih =>
    obtain ⟨⟨pprev, before⟩, earlier, mined⟩ := Option.bind_eq_some_iff.mp mined
    obtain ⟨⟨result, after⟩, returned, mined⟩ := Option.bind_eq_some_iff.mp mined
    obtain ⟨⟨bip30, written⟩, mined⟩ := Option.ite_none_right_eq_some.mp mined
    cases mined
    obtain ⟨coins, ⟨chain⟩, stands⟩ := ih (by omega) earlier
    have ran := returns_of_outcome returned
    rcases connectBlock_effect stands ran (AList.lookup_insert _) (fun _ same => .inl (Option.some.inj same ▸ bip30)) with
      ⟨unwritten, _⟩ | ⟨_, _, _, next, _, _, _, reached⟩
    · simp [unwritten] at written
    · have fits : ((height + 1 : Nat) : Int) < 2 ^ 31 := by omega
      exact ⟨next, ⟨chain.connect ⟨_, _, _, pprev, _, _, _, result, _, _, rfl, AList.lookup_insert _, rfl, rfl,
        by exact fits, .inl bip30, stands, ran, written, reached⟩⟩, reached⟩

theorem mined_chain : ∃ view coins, Nonempty (ChainCoins minedParams 101 coins) ∧ Represents view coins [∅] := by
  have mined : (mine 101).isSome = true := by decide +kernel
  obtain ⟨⟨tip, view⟩, mined⟩ := Option.isSome_iff_exists.mp mined
  exact ⟨view, mine_chain (by decide) mined⟩

/-! ## What holds of every chain -/

/-- Every chain but regtest halves its subsidy in this interval. -/
theorem ChainCoins.totalValue_le_maxMoney (chain : ChainCoins params height coins)
    (spaced : params.nSubsidyHalvingInterval = (210000 : Nat)) : totalValue coins ≤ MAX_MONEY := by
  have supply := (supplyBounded_of_interval_210000 spaced height).1
  have nonneg := getBlockSubsidy_nonneg 0 params
  have paid := chain.totalValue_le
  omega

theorem mined_supply : ∃ coins, Nonempty (ChainCoins minedParams 101 coins) ∧ totalValue coins ≤ MAX_MONEY := by
  obtain ⟨_, coins, ⟨chain⟩, _⟩ := mined_chain
  exact ⟨coins, ⟨chain⟩, chain.totalValue_le_maxMoney rfl⟩

/-- Disconnecting any number of blocks never fails and leads back to the coins of the chain
below them. -/
theorem ChainCoins.disconnectBlocks_returns (chain : ChainCoins params height coins) (count : Nat)
    (stands : Represents view coins (below :: deeper)) :
    ∃ restored, chain.disconnectBlocks count view = some restored ∧
      Represents restored (chain.coinsBelow count) (below :: deeper) := by
  induction chain generalizing view count with
  | genesis => exact ⟨view, rfl, stands⟩
  | connect earlier step ih =>
    cases count with
    | zero => exact ⟨view, rfl, stands⟩
    | succ count =>
      obtain ⟨restored, undone, stands⟩ := step.disconnect_returns earlier.allRestorable stands
      rw [disconnectBlocks, undone]
      exact ih count stands

/-- The spend and the coinbase below it are taken back. -/
theorem mined_disconnects : ∃ coins, ∃ chain : ChainCoins minedParams 101 coins, ∃ view restored,
      chain.disconnectBlocks 2 view = some restored ∧ Represents restored (chain.coinsBelow 2) [∅] := by
  obtain ⟨view, coins, ⟨chain⟩, stands⟩ := mined_chain
  exact ⟨coins, chain, view, chain.disconnectBlocks_returns 2 stands⟩

end Sharecoin
