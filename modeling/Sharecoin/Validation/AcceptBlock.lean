import Sharecoin.Node.Miner
import Sharecoin.Validation.Chainstate
import Sharecoin.Validation.ConnectBlock

/-! `AcceptBlock`: the checks on a block in the place it has in the tree, and what the block
index keeps of a block that passes or fails them. -/

set_option autoImplicit false

namespace Sharecoin

open Lib

/-! ## Witness data -/

/-- The output `GetWitnessCommitmentIndex` points at: the last one that fits. -/
def witnessCommitmentOutput (block : CBlock) : Option CTxOut :=
  match block.vtx with
  | [] => none
  | coinbase :: _ => (coinbase.vout.filter isWitnessCommitment).getLast?

section Witness

variable (sha256d : Bytes → Uint256) (block : CBlock)

def witnessMutated (rejectReason what : String) : BlockReject :=
  ⟨.blockMutated, rejectReason, "CheckWitnessMalleation : " ++ what⟩

def checkNoWitness : Except HeaderError Unit :=
  blockCheck (block.vtx.all fun tx => !tx.hasWitness)
    (witnessMutated "unexpected-witness" "unexpected witness data found")

def checkWitnessCommitment (commitment : CTxOut) : Except HeaderError Unit :=
  match block.vtx.head?.bind fun coinbase => coinbase.vin.head? with
  | none => .error .undefined
  | some txin => do
    let nonce := txin.scriptWitness.headD []
    blockCheck (txin.scriptWitness.length == 1 && nonce.length == 32)
      (witnessMutated "bad-witness-nonce-size" "invalid witness reserved value size")
    blockCheck ((sha256d ((blockWitnessMerkleRoot sha256d block).data ++ nonce)).data ==
        (commitment.scriptPubKey.drop 6).take 32)
      (witnessMutated "bad-witness-merkle-match" "witness merkle commitment mismatch")

def checkWitnessMalleation (expectWitnessCommitment : Bool) : Except HeaderError Unit :=
  match expectWitnessCommitment, witnessCommitmentOutput block with
  | true, some commitment => checkWitnessCommitment sha256d block commitment
  | _, _ => checkNoWitness block

end Witness

/-! ## The block in its place -/

def isFinalTx (tx : CTransaction) (nBlockHeight nBlockTime : Int) : Bool :=
  tx.nLockTime == 0 || decide ((tx.nLockTime.toNat : Int) <
      if tx.nLockTime < LOCKTIME_THRESHOLD then nBlockHeight else nBlockTime) ||
    tx.vin.all fun txin => txin.nSequence == CTxIn.SEQUENCE_FINAL

def fullSize (block : CBlock) : Nat :=
  block.header.serialize.length + (serializeVector (CTransaction.serialize true) block.vtx).length

def getBlockWeight (block : CBlock) : Nat :=
  block.strippedSize * (WITNESS_SCALE_FACTOR - 1) + fullSize block

/-- The place of a block: its height and the median time before it, where it has a parent. -/
structure BlockContext where
  nHeight : Int
  medianTimePast : Option Int
deriving DecidableEq

def blockContext (blocks : BlockMap) (pindexPrev : Option Uint256) : BlockContext :=
  match pindexPrev with
  | none => ⟨0, none⟩
  | some prev =>
    ⟨((blocks.lookup prev).map CBlockIndex.nHeight).getD 0 + 1, some (getMedianTimePast blocks prev)⟩

section Contextual

variable (sha256d : Bytes → Uint256) (params : Params) (context : BlockContext) (block : CBlock)

/-- `none` where the parent is asserted and missing. -/
def lockTimeCutoff : Option Int :=
  if context.nHeight ≥ params.csvHeight then context.medianTimePast else some block.header.nTime.toNat

def checkCoinbaseHeight : Except HeaderError Unit :=
  if context.nHeight ≥ params.bip34Height then
    match block.vtx.head?.bind fun coinbase => coinbase.vin.head? with
    | none => .error .undefined
    | some txin =>
      blockCheck ((CScript.pushInt64 [] context.nHeight).isPrefixOf txin.scriptSig)
        ⟨.blockConsensus, "bad-cb-height", "block height mismatch in coinbase"⟩
  else .ok ()

def contextualCheckBlock : Except HeaderError Unit :=
  match lockTimeCutoff params context block with
  | none => .error .undefined
  | some nLockTimeCutoff => do
    blockCheck (block.vtx.all fun tx => isFinalTx tx context.nHeight nLockTimeCutoff)
      ⟨.blockConsensus, "bad-txns-nonfinal", "non-final transaction"⟩
    checkCoinbaseHeight params context block
    checkWitnessMalleation sha256d block (decide (context.nHeight ≥ params.segwitHeight))
    blockCheck (decide (getBlockWeight block ≤ MAX_BLOCK_WEIGHT))
      ⟨.blockConsensus, "bad-blk-weight", "ContextualCheckBlock : weight limit failed"⟩

end Contextual

/-! ## Signet -/

/-- `CheckSignetBlockSolution`. What the solution in the commitment proves is a parameter;
without a commitment there is none. -/
def checkSignetBlockSolution (sha256d : Bytes → Uint256) (params : Params)
    (verifySolution : CBlock → Bool) (block : CBlock) : Bool :=
  block.header.getHash sha256d == params.hashGenesisBlock ||
    ((witnessCommitmentOutput block).isSome && verifySolution block)

/-! ## Accepting -/

def MIN_BLOCKS_TO_KEEP : Int := 288

inductive WriteOutcome where
  | written (pos : Chainstate.FlatFilePos)
  | noPosition
  | systemError (what : String)
deriving DecidableEq

/-- The arguments of `AcceptBlock`, with the node clock and the answer of the disk. -/
structure BlockArrival where
  block : CBlock
  fRequested : Bool
  minPowChecked : Bool
  now : Int
  disk : WriteOutcome

inductive AcceptFailure where
  | invalid (reject : BlockReject)
  | undefined
  | error (message : String)
deriving DecidableEq

def AcceptFailure.ofHeaderError : HeaderError → AcceptFailure
  | .invalid reject => .invalid reject
  | .undefined => .undefined

/-- What validation takes from outside. -/
structure AcceptEnv where
  hashes : HashEnv
  addresses : Addresses
  params : Params
  minimumChainWork : ArithUint256
  verifySolution : CBlock → Bool

/-- The outcome, whether the block is new, and the state after the call. -/
structure Acceptance where
  outcome : Except AcceptFailure Unit
  fNewBlock : Bool
  state : Chainstate

section Accept

variable (env : AcceptEnv)

def signetSolved (block : CBlock) : Bool :=
  checkSignetBlockSolution env.hashes.sha256d env.params env.verifySolution block

/-- The blocks that are not looked at: those whose data is there, and unrequested ones that
are known, do not build the better chain or lie far ahead. -/
def leavesUnexamined (state : Chainstate) (pindex : CBlockIndex) (fRequested : Bool) : Bool :=
  pindex.haveData || (!fRequested && (pindex.nTx != 0 || decide (pindex.nChainWork < state.tipWork) ||
        decide (pindex.nHeight > (state.mChain.length : Int) - 1 + MIN_BLOCKS_TO_KEEP) ||
        decide (pindex.nChainWork < env.minimumChainWork)))

def checkArrival (blocks : BlockMap) (block : CBlock) (pindexPrev : Option Uint256) : Except HeaderError Unit := do
  checkBlock env.hashes (signetSolved env) env.params block true true
  contextualCheckBlock env.hashes.sha256d env.params (blockContext blocks pindexPrev) block

/-- The part of `AcceptBlock` after the checks. -/
def storeBlock (arrival : BlockArrival) (hash : Uint256) (state : Chainstate) : Acceptance :=
  match arrival.disk with
  | .noPosition =>
    ⟨.error (.error "AcceptBlock: Failed to find position to write new block to disk"), true, state⟩
  | .systemError what =>
    ⟨.error (.error ("System error while saving block to disk: " ++ what)), true, state⟩
  | .written pos =>
    ⟨.ok (), true, state.receivedBlockTransactions env.addresses env.params
      (UInt32.ofNat arrival.block.vtx.length) hash pos⟩

def examineBlock (arrival : BlockArrival) (hash : Uint256) (pindex : CBlockIndex) (state : Chainstate) : Acceptance :=
  let requested := (checkBlockHeader env.hashes arrival.block.header env.params).2
  let chainman := { state.chainman with epochs := requested ++ state.chainman.epochs }
  let state := { state with chainman }
  match checkArrival env state.blocks arrival.block pindex.pprev with
  | .ok () => storeBlock env arrival hash state
  | .error .undefined => ⟨.error .undefined, false, state⟩
  | .error (.invalid reject) =>
    ⟨.error (.invalid reject), false, state.invalidBlockFound hash reject.result⟩

def acceptArrivalHeader (arrival : BlockArrival) (state : Chainstate) : Except HeaderError Uint256 × Chainstate :=
  let accepted := acceptBlockHeader env.hashes env.params
    ⟨arrival.block.header, arrival.minPowChecked, arrival.now⟩ state.chainman
  (accepted.1, { state with chainman := accepted.2 })

def acceptBlock (arrival : BlockArrival) (state : Chainstate) : Acceptance :=
  match acceptArrivalHeader env arrival state with
  | (.error error, state) => ⟨.error (.ofHeaderError error), false, state⟩
  | (.ok hash, state) =>
    match state.blocks.lookup hash with
    | none => ⟨.error .undefined, false, state⟩
    | some pindex =>
      if leavesUnexamined env state pindex arrival.fRequested then ⟨.ok (), false, state⟩
      else examineBlock env arrival hash pindex state

def acceptBlocks : List BlockArrival → Chainstate → Chainstate
  | [], state => state
  | arrival :: arrivals, state => acceptBlocks arrivals (acceptBlock env arrival state).state

end Accept

end Sharecoin
