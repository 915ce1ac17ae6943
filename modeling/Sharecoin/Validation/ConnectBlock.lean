import Sharecoin.Chain.AcceptHeader
import Sharecoin.Consensus.Merkle
import Sharecoin.Consensus.Subsidy
import Sharecoin.Consensus.TxVerify

/-! `CheckBlock` and `ConnectBlock`: the checks on a block alone, and its connection to
a coins view transaction by transaction. -/

set_option autoImplicit false

namespace Sharecoin

open Lib Program

/-! ## The block alone -/

def blockCheck (holds : Bool) (reject : BlockReject) : Except HeaderError Unit :=
  if holds then .ok () else .error (.invalid reject)

def checkMerkleRoot (sha256d : Bytes → Uint256) (block : CBlock) : Except HeaderError Unit := do
  let (merkleRoot, mutated) := blockMerkleRoot sha256d block
  blockCheck (block.header.hashMerkleRoot = merkleRoot) ⟨.blockMutated, "bad-txnmrklroot", "hashMerkleRoot mismatch"⟩
  blockCheck (!mutated) ⟨.blockMutated, "bad-txns-duplicate", "duplicate transaction"⟩

def checkTransactions (sha256d : Bytes → Uint256) : List CTransaction → Except HeaderError Unit
  | [] => .ok ()
  | tx :: vtx =>
    match checkTransaction tx with
    | .ok () => checkTransactions sha256d vtx
    | .error reject =>
      .error (.invalid ⟨.blockConsensus, reject.rejectReason,
        "Transaction check failed (tx hash " ++ (tx.getHash sha256d).getHex ++ ") " ++ reject.debugMessage⟩)

/-- `CheckBlock` from the size limits on. -/
def checkBlockBody (sha256d : Bytes → Uint256) (block : CBlock) : Except HeaderError Unit := do
  blockCheck (!block.vtx.isEmpty && decide (block.vtx.length * WITNESS_SCALE_FACTOR ≤ MAX_BLOCK_WEIGHT) &&
      decide (block.strippedSize * WITNESS_SCALE_FACTOR ≤ MAX_BLOCK_WEIGHT))
    ⟨.blockConsensus, "bad-blk-length", "size limits failed"⟩
  blockCheck (block.vtx.head?.any CTransaction.isCoinBase)
    ⟨.blockConsensus, "bad-cb-missing", "first tx is not coinbase"⟩
  blockCheck (block.vtx.tail.all fun tx => !tx.isCoinBase)
    ⟨.blockConsensus, "bad-cb-multiple", "more than one coinbase"⟩
  checkTransactions sha256d block.vtx
  let nSigOps := (block.vtx.map getLegacySigOpCount).sum
  blockCheck (nSigOps * WITNESS_SCALE_FACTOR ≤ MAX_BLOCK_SIGOPS_COST)
    ⟨.blockConsensus, "bad-blk-sigops", "out-of-bounds SigOpCount"⟩

/-- `CheckBlock`, for a block that was not checked before. The signature of a signet
block is a parameter. -/
def checkBlock (env : HashEnv) (checkSignetBlockSolution : CBlock → Bool) (params : Params)
    (block : CBlock) (fCheckPOW fCheckMerkleRoot : Bool) : Except HeaderError Unit := do
  (if fCheckPOW then (checkBlockHeader env block.header params).1 else .ok ())
  blockCheck (!(params.signetBlocks && fCheckPOW && !checkSignetBlockSolution block))
    ⟨.blockConsensus, "bad-signet-blksig", "signet block signature validation failure"⟩
  (if fCheckMerkleRoot then checkMerkleRoot env.sha256d block else .ok ())
  checkBlockBody env.sha256d block

/-! ## Undo data -/

structure CTxUndo where
  vprevout : List Coin := []
deriving DecidableEq

structure CBlockUndo where
  vtxundo : List CTxUndo := []
deriving DecidableEq

/-! ## Connecting -/

structure ScriptFailure where
  scriptError : String
  debugMessage : String
deriving DecidableEq

/-- What `ConnectBlock` takes from outside: the block index, ProgPoW and the hash
function, script verification and the outcome of writing the undo file. Whether
scripts are checked at all, and by a queue with threads, is fixed for a call. -/
structure ConnectEnv where
  hashes : HashEnv
  params : Params
  blocks : BlockMap
  checkSignetBlockSolution : CBlock → Bool := fun _ => true
  flags : ScriptFlags
  fScriptChecks : Bool
  hasThreads : Bool
  verifyScripts : CTransaction → List CTxOut → Option ScriptFailure
  writeBlockUndo : CBlockUndo → Option String

inductive ConnectFailure where
  | invalid (reject : BlockReject)
  | error (message : String)
deriving DecidableEq

abbrev ConnectM (α : Type) := ViewM ConnectFailure α

def consensusFailure (rejectReason debugMessage : String) : ConnectFailure :=
  .invalid ⟨.blockConsensus, rejectReason, debugMessage⟩

def spendInputs {φ : Type} : List CTxIn → ViewM φ (List Coin)
  | [] => pure []
  | txin :: vin => do
    let moved ← ViewM.spendCoin txin.prevout
    match moved with
    | none => abort (.assertion "is_spent")
    | some coin => do
      let coins ← spendInputs vin
      pure (coin :: coins)

def updateCoins {φ : Type} (sha256d : Bytes → Uint256) (tx : CTransaction) (nHeight : Int) : ViewM φ CTxUndo := do
  let vprevout ← (if tx.isCoinBase then pure [] else spendInputs tx.vin)
  ViewM.addCoins sha256d tx nHeight false
  pure { vprevout }

/-! ### Overwrites of unspent outputs -/

def isBIP30Repeat (nHeight : Int) (hash : Uint256) : Bool :=
  (decide (nHeight = 91842) && decide (hash =
      .ofNat 0x00000000000a4d0a398161ffc163c503763b1f4360639393e0e4c8e300e0caec)) ||
    (decide (nHeight = 91880) && decide (hash =
      .ofNat 0x00000000000743f190a18c5577a3c2d2a1f610ae9601ac046a38084ccb7cd721))

def BIP34_IMPLIES_BIP30_LIMIT : Int := 1983702

/-- Whether a block must not overwrite unspent outputs. The check is left out after the
block of BIP34 on the known chain, up to a limit. -/
def enforcesBIP30 (env : ConnectEnv) (hash : Uint256) (nHeight : Int) (pprev : Uint256) : Bool :=
  let bip34 := getAncestor env.blocks pprev env.params.bip34Height
  (!isBIP30Repeat nHeight hash && decide (bip34 ≠ some env.params.bip34Hash)) ||
    decide (nHeight ≥ BIP34_IMPLIES_BIP30_LIMIT)

def overwritesOutputs {φ : Type} (txid : Uint256) : Nat → List CTxOut → ViewM φ Bool
  | _, [] => pure false
  | o, _ :: vout => do
    let found ← ViewM.haveCoin ⟨txid, UInt32.ofNat o⟩
    let more ← overwritesOutputs txid (o + 1) vout
    pure (found || more)

def overwritesCoins {φ : Type} (sha256d : Bytes → Uint256) : List CTransaction → ViewM φ Bool
  | [] => pure false
  | tx :: vtx => do
    let found ← overwritesOutputs (tx.getHash sha256d) 0 tx.vout
    let more ← overwritesCoins sha256d vtx
    pure (found || more)

/-! ### One transaction -/

/-- What the loop over the transactions keeps. Checks handed to the queue are looked at
after the loop; the first that fails is kept. -/
structure ConnectSums where
  nFees : Int := 0
  nSigOpsCost : Nat := 0
  vtxundo : List CTxUndo := []
  queued : Option ScriptFailure := none
deriving DecidableEq

def coinHeights {φ : Type} : List CTxIn → ViewM φ (List Int)
  | [] => pure []
  | txin :: vin => do
    let coin ← ViewM.accessCoin txin.prevout
    let heights ← coinHeights vin
    pure ((coin.nHeight.toNat : Int) :: heights)

section Transaction

variable (env : ConnectEnv) (pindex : Uint256) (nHeight : Int)

/-- The checks on the inputs of a transaction that is no coinbase; returns the fees of
the block so far. -/
def checkSpends (tx : CTransaction) (nFees : Int) : ConnectM Int := do
  let txid := (tx.getHash env.hashes.sha256d).getHex
  let txfee ← reporting (fun reject : TxReject =>
      consensusFailure reject.rejectReason (reject.debugMessage ++ " in transaction " ++ txid))
    (checkTxInputs tx nHeight)
  let nFees := wrap64 (nFees + txfee)
  require (moneyRange nFees) (consensusFailure "bad-txns-accumulated-fee-outofrange"
      "accumulated fee in the block out of range")
  let prevheights ← coinHeights tx.vin
  let verifySequence := decide (nHeight ≥ env.params.csvHeight)
  match sequenceLocks env.blocks pindex tx verifySequence prevheights with
  | none => abort (.assertion "block.GetAncestor(std::max(nCoinHeight - 1, 0))")
  | some final => do
    require final (consensusFailure "bad-txns-nonfinal" ("contains a non-BIP68-final transaction " ++ txid))
    pure nFees

def checkInputScripts (tx : CTransaction) : ConnectM (Option ScriptFailure) := do
  let prevouts ← ViewM.spentOutputs tx.vin
  pure (env.verifyScripts tx prevouts)

def scriptReject (failure : ScriptFailure) : ConnectFailure :=
  consensusFailure ("block-script-verify-flag-failed (" ++ failure.scriptError ++ ")") failure.debugMessage

def checkScripts (tx : CTransaction) (queued : Option ScriptFailure) : ConnectM (Option ScriptFailure) := do
  let failed ← checkInputScripts env tx
  match failed with
  | none => pure queued
  | some failure => if env.hasThreads then pure (queued <|> some failure) else throw (scriptReject failure)

/-- One turn of the loop over the transactions. The undo record of the coinbase is
dropped. -/
def connectTransaction (first : Bool) (tx : CTransaction) (sums : ConnectSums) : ConnectM ConnectSums := do
  let nFees ← (if tx.isCoinBase then pure sums.nFees
    else checkSpends env pindex nHeight tx sums.nFees)
  let cost ← getTransactionSigOpCost env.flags tx
  require (sums.nSigOpsCost + cost ≤ MAX_BLOCK_SIGOPS_COST) (consensusFailure "bad-blk-sigops" "too many sigops")
  let queued ← (if !tx.isCoinBase && env.fScriptChecks then checkScripts env tx sums.queued
    else pure sums.queued)
  let txundo ← updateCoins env.hashes.sha256d tx nHeight
  pure
    { nFees
      nSigOpsCost := sums.nSigOpsCost + cost
      vtxundo := if first then sums.vtxundo else sums.vtxundo ++ [txundo]
      queued }

def connectTransactions : Bool → List CTransaction → ConnectSums → ConnectM ConnectSums
  | _, [], sums => pure sums
  | first, tx :: vtx, sums => do
    let sums ← connectTransaction env pindex nHeight first tx sums
    connectTransactions false vtx sums

end Transaction

/-! ### The block -/

structure ConnectedBlock where
  pindex : CBlockIndex
  blockundo : Option CBlockUndo := none
deriving DecidableEq

section Block

variable (env : ConnectEnv) (block : CBlock) (pindex : Uint256) (entry : CBlockIndex)

/-- `CheckBlock` again. A mutated block cannot have been stored. -/
def recheckBlock (fJustCheck : Bool) : ConnectM Unit :=
  match checkBlock env.hashes env.checkSignetBlockSolution env.params block (!fJustCheck) (!fJustCheck) with
  | .ok () => pure ()
  | .error .undefined => abort (.assertion "CheckBlock")
  | .error (.invalid reject) =>
    if reject.result = .blockMutated then
      throw (.error "Corrupt block found indicating potential hardware failure.")
    else throw (.invalid reject)

def checkOverwrites (pprev : Uint256) : ConnectM Unit :=
  if enforcesBIP30 env pindex entry.nHeight pprev then do
    let overwrites ← overwritesCoins env.hashes.sha256d block.vtx
    require (!overwrites) (consensusFailure "bad-txns-BIP30" "tried to overwrite transaction")
  else pure ()

def checkReward (sums : ConnectSums) : ConnectM Unit :=
  let blockReward := wrap64 (sums.nFees + getBlockSubsidy entry.nHeight env.params)
  match block.vtx.head?.bind CTransaction.getValueOut with
  | none => abort (.exception "GetValueOut: value out of range")
  | some valueOut =>
    require (valueOut ≤ blockReward)
      (consensusFailure "bad-cb-amount" ("coinbase pays too much (actual=" ++ toString valueOut ++
        " vs limit=" ++ toString blockReward ++ ")"))

def completeScripts (sums : ConnectSums) : ConnectM Unit :=
  match sums.queued with
  | none => pure ()
  | some failure => throw (scriptReject failure)

def finishConnect (sums : ConnectSums) (fJustCheck : Bool) : ConnectM ConnectedBlock :=
  if fJustCheck then pure { pindex := entry }
  else
    let blockundo : CBlockUndo := { vtxundo := sums.vtxundo }
    match env.writeBlockUndo blockundo with
    | some message => throw (.error message)
    | none => do
      ViewM.setBestBlock pindex
      pure { pindex := entry.raiseValidity BLOCK_VALID_SCRIPTS, blockundo := some blockundo }

def connectAfterGenesis (fJustCheck : Bool) : ConnectM ConnectedBlock :=
  match entry.pprev with
  | none => abort (.assertion "pindex->pprev")
  | some pprev => do
    checkOverwrites env block pindex entry pprev
    let sums ← connectTransactions env pindex entry.nHeight true block.vtx {}
    checkReward env block entry sums
    completeScripts sums
    finishConnect env pindex entry sums fJustCheck

/-- `ConnectBlock`. The transactions of the genesis block are not connected. -/
def connectBlock (fJustCheck : Bool) : ConnectM ConnectedBlock :=
  match env.blocks.lookup pindex with
  | none => abort (.assertion "pindex")
  | some entry => do
    let blockHash := block.header.getHash env.hashes.sha256d
    insist (pindex = blockHash) (.assertion "*pindex->phashBlock == block_hash")
    recheckBlock env block fJustCheck
    let bestBlock ← ViewM.getBestBlock
    insist (entry.pprev.getD .zero = bestBlock) (.assertion "hashPrevBlock == view.GetBestBlock()")
    if blockHash = env.params.hashGenesisBlock then do
      (if fJustCheck then pure () else ViewM.setBestBlock pindex)
      pure { pindex := entry }
    else connectAfterGenesis env block pindex entry fJustCheck

end Block

end Sharecoin
