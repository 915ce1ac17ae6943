import Sharecoin.Consensus.Merkle
import Sharecoin.Consensus.Subsidy
import Sharecoin.Pow

/-! `BlockAssembler::CreateNewBlock`: the block a node builds on its tip, with a
coinbase that pays a given script. Which mempool transactions it takes and what
the validity test of the finished block answers are inputs. -/

set_option autoImplicit false

namespace Sharecoin

open Lib

/-! ## The witness commitment -/

def MINIMUM_WITNESS_COMMITMENT : Nat := 38

def commitmentHeader : Bytes := [OP_RETURN, 0x24, 0xaa, 0x21, 0xa9, 0xed]

def isWitnessCommitment (vout : CTxOut) : Bool :=
  vout.scriptPubKey.length ≥ MINIMUM_WITNESS_COMMITMENT && vout.scriptPubKey.take 6 == commitmentHeader

/-- `GetWitnessCommitmentIndex(block) != NO_WITNESS_COMMITMENT`. -/
def hasWitnessCommitment (block : CBlock) : Bool :=
  match block.vtx with
  | [] => false
  | coinbase :: _ => coinbase.vout.any isWitnessCommitment

def segwitActiveAfter (params : Params) (pindexPrev : CBlockIndex) : Bool :=
  wrap32 (pindexPrev.nHeight + 1) ≥ params.segwitHeight

def witnessNonce : Bytes := List.replicate 32 0

def setWitness : List CTxIn → List CTxIn
  | [] => []
  | txin :: vin => { txin with scriptWitness := [witnessNonce] } :: vin

def updateUncommittedBlockStructures (params : Params) (pindexPrev : CBlockIndex) (block : CBlock) : CBlock :=
  match block.vtx with
  | [] => block
  | coinbase :: vtx =>
    if hasWitnessCommitment block && segwitActiveAfter params pindexPrev && !coinbase.hasWitness then
      { block with vtx := { coinbase with vin := setWitness coinbase.vin } :: vtx }
    else block

def witnessCommitment (sha256d : Bytes → Uint256) (witnessroot : Uint256) : CTxOut :=
  { nValue := 0
    scriptPubKey := commitmentHeader ++ (sha256d (witnessroot.data ++ witnessNonce)).data }

def generateCoinbaseCommitment (sha256d : Bytes → Uint256) (params : Params)
    (pindexPrev : CBlockIndex) (block : CBlock) : CBlock :=
  let committed :=
    match block.vtx with
    | [] => block
    | coinbase :: vtx =>
      if hasWitnessCommitment block then block
      else
        { block with
          vtx :=
            { coinbase with
              vout := coinbase.vout ++ [witnessCommitment sha256d (blockWitnessMerkleRoot sha256d block)] } :: vtx }
  updateUncommittedBlockStructures params pindexPrev committed

/-! ## The time of a block -/

def getMinimumTime (blocks : BlockMap) (pindexPrev : Uint256) (prev : CBlockIndex)
    (difficultyAdjustmentInterval : Int) : Int :=
  let minTime := getMedianTimePast blocks pindexPrev + 1
  let height := wrap32 (prev.nHeight + 1)
  if height.tmod difficultyAdjustmentInterval = 0 then
    max minTime (prev.getBlockTime - MAX_TIMEWARP)
  else minTime

/-- `none` where `GetNextWorkRequired` would fail. -/
def updateTime (params : Params) (blocks : BlockMap) (pindexPrev : Uint256) (prev : CBlockIndex)
    (now : Int) (header : CBlockHeader) : Option CBlockHeader :=
  let newTime := max (getMinimumTime blocks pindexPrev prev params.difficultyAdjustmentInterval) now
  let timed : CBlockHeader :=
    if (header.nTime.toNat : Int) < newTime then { header with nTime := castUInt32 newTime }
    else header
  if params.fPowAllowMinDifficultyBlocks then do
    let nBits ← getNextWorkRequired blocks pindexPrev params
    some { timed with nBits }
  else some timed

/-! ## The block -/

/-- `BIP9GBTStatus::Info`, without the bit number only the reply prints. -/
structure DeploymentInfo where
  mask : UInt32
  gbtOptionalRule : Bool
deriving DecidableEq

structure BIP9GBTStatus where
  signalling : List (String × DeploymentInfo) := []
  lockedIn : List (String × DeploymentInfo) := []
  active : List (String × DeploymentInfo) := []
deriving DecidableEq

/-- What a node knows when a mining call looks at it: the block index and the tip,
the clock, the mempool's change counter, the transactions `addChunks` picks with
their fees, what version bits and `TestBlockValidity` answer, and its peers. -/
structure NodeView where
  blocks : BlockMap
  tip : Uint256
  now : Int
  transactionsUpdated : UInt32
  selected : List CTransaction
  nFees : Int
  blockVersion : Int32
  gbtstatus : BIP9GBTStatus
  testBlockValidity : CBlock → Bool
  nodeCount : Nat
  isInitialBlockDownload : Bool
  isRPCRunning : Bool

section Create

variable (sha256d : Bytes → Uint256) (params : Params)

def coinbaseScriptSig (nHeight : Int) : CScript :=
  let height := CScript.pushInt64 [] nHeight
  if nHeight ≤ 16 then height.pushOp OP_0 else height

def createCoinbase (coinbaseOutputScript : CScript) (nHeight nFees : Int) : CTransaction :=
  { vin :=
      [{ prevout := .null
         scriptSig := coinbaseScriptSig nHeight
         nSequence := CTxIn.MAX_SEQUENCE_NONFINAL }]
    vout :=
      [{ nValue := wrap64 (nFees + getBlockSubsidy nHeight params)
         scriptPubKey := coinbaseOutputScript }]
    nLockTime := castUInt32 (nHeight - 1) }

/-- `CreateNewBlock`; `none` where it throws. -/
def createNewBlock (view : NodeView) (coinbaseOutputScript : CScript) : Option CBlock := do
  let prev ← view.blocks.lookup view.tip
  let nHeight := wrap32 (prev.nHeight + 1)
  if nHeight ≤ 0 then none
  else do
    let fresh : CBlock :=
      { header := { CBlockHeader.null with nVersion := view.blockVersion, nTime := castUInt32 view.now }
        vtx := createCoinbase params coinbaseOutputScript nHeight view.nFees :: view.selected }
    let committed := generateCoinbaseCommitment sha256d params prev fresh
    let timed ← updateTime params view.blocks view.tip prev view.now
      { committed.header with hashPrevBlock := view.tip, nHeight := castUInt32 nHeight }
    let nBits ← getNextWorkRequired view.blocks view.tip params
    let block : CBlock := { committed with header := { timed with nBits, nNonce64 := 0, mixHash := .zero } }
    if view.testBlockValidity block then some block else none

end Create

end Sharecoin
