import Sharecoin.Pow

/-! The header acceptance path of `ChainstateManager`: the checks on a header
alone, the checks against its predecessors, and the insertion into the index. -/

set_option autoImplicit false

namespace Sharecoin

open Lib

inductive BlockValidationResult where
  | blockConsensus
  | blockInvalidHeader
  | blockMutated
  | blockCachedInvalid
  | blockMissingPrev
  | blockInvalidPrev
  | blockTimeFuture
  | blockHeaderLowWork
deriving DecidableEq

structure BlockReject where
  result : BlockValidationResult
  rejectReason : String
  debugMessage : String := ""
deriving DecidableEq

/-- A header is rejected, or validation leaves the defined behaviour of the
source: a null pointer is dereferenced or an assertion fails. -/
inductive HeaderError where
  | invalid (reject : BlockReject)
  | undefined
deriving DecidableEq

def versionHex (nVersion : Int32) : String :=
  "0x" ++ String.ofList ((beBytes 4 nVersion.toUInt32.toNat).flatMap Uint256.hexByte)

def MAX_FUTURE_BLOCK_TIME : Int := 2 * 60 * 60

/-- The parts of the chainstate manager that header acceptance reads and writes,
with the epochs requested so far, latest first. -/
structure ChainstateManager where
  mBlockIndex : BlockMap := ∅
  mBestHeader : Option Uint256 := none
  mDirtyBlockindex : List Uint256 := []
  epochs : List Int := []

def checkBlockHeader (env : HashEnv) (block : CBlockHeader) (consensusParams : Params) :
    Except HeaderError Unit × List Int :=
  match checkProofOfWork env block block.nBits consensusParams with
  | (true, epochs) => (.ok (), epochs)
  | (false, epochs) =>
    (.error (.invalid ⟨.blockInvalidHeader, "high-hash", "proof of work failed"⟩), epochs)

/-- `DeploymentActiveAfter` for a deployment buried at a height. -/
def deploymentActiveAfter (pindexPrev : CBlockIndex) (deploymentHeight : Int) : Bool :=
  decide (pindexPrev.nHeight + 1 ≥ deploymentHeight)

def outdatedVersion (nVersion : Int32) (pindexPrev : CBlockIndex) (params : Params) : Bool :=
  (decide (nVersion < 2) && deploymentActiveAfter pindexPrev params.bip34Height) ||
    (decide (nVersion < 3) && deploymentActiveAfter pindexPrev params.bip66Height) ||
    (decide (nVersion < 4) && deploymentActiveAfter pindexPrev params.bip65Height)

/-- `prev` is the pointer and `pindexPrev` what it points to; `now` is the node
clock in seconds. -/
def contextualCheckBlockHeader (blocks : BlockMap) (params : Params) (now : Int)
    (block : CBlockHeader) (prev : Uint256) (pindexPrev : CBlockIndex) :
    Except HeaderError Unit :=
  let nHeight := pindexPrev.nHeight + 1
  let blockTime : Int := block.nTime.toNat
  match getNextWorkRequired blocks prev params with
  | none => .error .undefined
  | some required =>
    if block.nBits ≠ required then
      .error (.invalid ⟨.blockInvalidHeader, "bad-diffbits", "incorrect proof of work"⟩)
    else if blockTime ≤ getMedianTimePast blocks prev then
      .error (.invalid ⟨.blockInvalidHeader, "time-too-old", "block's timestamp is too early"⟩)
    else if params.enforceBIP94 ∧ nHeight.tmod params.difficultyAdjustmentInterval = 0 ∧
        blockTime < pindexPrev.getBlockTime - MAX_TIMEWARP then
      .error (.invalid ⟨.blockInvalidHeader, "time-timewarp-attack",
        "block's timestamp is too early on diff adjustment block"⟩)
    else if blockTime > now + MAX_FUTURE_BLOCK_TIME then
      .error (.invalid ⟨.blockTimeFuture, "time-too-new", "block timestamp too far in the future"⟩)
    else if outdatedVersion block.nVersion pindexPrev params then
      .error (.invalid ⟨.blockInvalidHeader, "bad-version(" ++ versionHex block.nVersion ++ ")",
        "rejected nVersion=" ++ versionHex block.nVersion ++ " block"⟩)
    else .ok ()

/-- The fields `AddToBlockIndex` sets once the new entry's predecessor is known.
The skip pointer is computed on the index that already holds the new entry. -/
def linkBlockIndex (blocks : BlockMap) (pindexNew : CBlockIndex) (hashPrevBlock : Uint256) :
    CBlockIndex :=
  match blocks.lookup hashPrevBlock with
  | none =>
    { pindexNew with
      nTimeMax := pindexNew.nTime
      nChainWork := getBitsProof pindexNew.nBits }
  | some pprev =>
    let nHeight := wrap32 (pprev.nHeight + 1)
    { pindexNew with
      pprev := some hashPrevBlock
      nHeight
      pskip := getAncestor blocks hashPrevBlock (getSkipHeight nHeight)
      nTimeMax := max pprev.nTimeMax pindexNew.nTime
      nChainWork := pprev.nChainWork + getBitsProof pindexNew.nBits }

def updateBestHeader (blocks : BlockMap) (bestHeader : Option Uint256) (hash : Uint256)
    (work : ArithUint256) : Option Uint256 :=
  match bestHeader.bind blocks.lookup with
  | none => some hash
  | some best => if best.nChainWork < work then some hash else bestHeader

def addToBlockIndex (sha256d : Bytes → Uint256) (block : CBlockHeader)
    (chainman : ChainstateManager) : ChainstateManager :=
  let hash := block.getHash sha256d
  match chainman.mBlockIndex.lookup hash with
  | some _ => chainman
  | none =>
    let pindexNew := CBlockIndex.ofHeader block
    let inserted := chainman.mBlockIndex.insert hash pindexNew
    let linked := (linkBlockIndex inserted pindexNew block.hashPrevBlock).raiseValidity BLOCK_VALID_TREE
    { chainman with
      mBlockIndex := inserted.insert hash linked
      mBestHeader := updateBestHeader inserted chainman.mBestHeader hash linked.nChainWork
      mDirtyBlockindex := hash :: chainman.mDirtyBlockindex }

structure HeaderInput where
  block : CBlockHeader
  minPowChecked : Bool
  now : Int
deriving DecidableEq

def checkNewHeader (env : HashEnv) (params : Params) (input : HeaderInput) (blocks : BlockMap) :
    Except HeaderError Unit × List Int :=
  match checkBlockHeader env input.block params with
  | (.error error, epochs) => (.error error, epochs)
  | (.ok (), epochs) =>
    match blocks.lookup input.block.hashPrevBlock with
    | none => (.error (.invalid ⟨.blockMissingPrev, "prev-blk-not-found", ""⟩), epochs)
    | some pindexPrev =>
      if pindexPrev.failed then
        (.error (.invalid ⟨.blockInvalidPrev, "bad-prevblk", ""⟩), epochs)
      else
        (contextualCheckBlockHeader blocks params input.now input.block input.block.hashPrevBlock pindexPrev, epochs)

def admitHeader (env : HashEnv) (input : HeaderInput) (chainman : ChainstateManager) :
    Except HeaderError Uint256 × ChainstateManager :=
  if input.minPowChecked then
    (.ok (input.block.getHash env.sha256d), addToBlockIndex env.sha256d input.block chainman)
  else
    (.error (.invalid ⟨.blockHeaderLowWork, "too-little-chainwork", ""⟩), chainman)

def acceptBlockHeader (env : HashEnv) (params : Params) (input : HeaderInput)
    (chainman : ChainstateManager) : Except HeaderError Uint256 × ChainstateManager :=
  let hash := input.block.getHash env.sha256d
  if hash = params.hashGenesisBlock then admitHeader env input chainman
  else
    match chainman.mBlockIndex.lookup hash with
    | some pindex =>
      if pindex.failed then
        (.error (.invalid ⟨.blockCachedInvalid, "duplicate-invalid",
          "block " ++ hash.getHex ++ " was previously marked invalid"⟩), chainman)
      else (.ok hash, chainman)
    | none =>
      match checkNewHeader env params input chainman.mBlockIndex with
      | (.error error, epochs) =>
        (.error error, { chainman with epochs := epochs ++ chainman.epochs })
      | (.ok (), epochs) =>
        admitHeader env input { chainman with epochs := epochs ++ chainman.epochs }

def processNewBlockHeaders (env : HashEnv) (params : Params) (minPowChecked : Bool) (now : Int) :
    List CBlockHeader → ChainstateManager → Except HeaderError Unit × ChainstateManager
  | [], chainman => (.ok (), chainman)
  | header :: headers, chainman =>
    match acceptBlockHeader env params ⟨header, minPowChecked, now⟩ chainman with
    | (.error error, chainman) => (.error error, chainman)
    | (.ok _, chainman) => processNewBlockHeaders env params minPowChecked now headers chainman

end Sharecoin
