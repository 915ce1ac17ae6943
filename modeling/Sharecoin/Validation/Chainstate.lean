import Sharecoin.Chain.AcceptHeader
import Sharecoin.Lib.Tally

/-! The chainstate: the block index with the set of candidate tips, the blocks that wait
for their parents' data and the active chain, and the functions that mark blocks as failed,
take in block data, choose and activate the best chain, and invalidate or reconsider
blocks. There is one chainstate, without a snapshot, and nothing is pruned. -/

set_option autoImplicit false

namespace Sharecoin

open Lib

/-! ## Entries -/

def BLOCK_VALID_TRANSACTIONS : UInt32 := 3
def BLOCK_OPT_WITNESS : UInt32 := 128

namespace CBlockIndex

def haveNumChainTxs (entry : CBlockIndex) : Bool := entry.mChainTxCount != 0

def haveData (entry : CBlockIndex) : Bool := entry.nStatus &&& BLOCK_HAVE_DATA != 0

def isValid (entry : CBlockIndex) (nUpTo : UInt32) : Bool :=
  !entry.failed && decide (nUpTo ≤ entry.nStatus &&& BLOCK_VALID_MASK)

def markFailed (entry : CBlockIndex) : CBlockIndex :=
  { entry with nStatus := entry.nStatus ||| BLOCK_FAILED_VALID }

def clearFailed (entry : CBlockIndex) : CBlockIndex :=
  { entry with nStatus := entry.nStatus &&& ~~~BLOCK_FAILED_VALID }

end CBlockIndex

namespace BlockMap

def mapEntries (change : Uint256 → CBlockIndex → CBlockIndex) (blocks : BlockMap) : BlockMap :=
  ⟨blocks.entries.map fun entry => ⟨entry.1, change entry.1 entry.2⟩, by
    have keys : (blocks.entries.map fun entry : (_ : Uint256) × CBlockIndex =>
        (⟨entry.1, change entry.1 entry.2⟩ : (_ : Uint256) × CBlockIndex)).keys = blocks.entries.keys := by
      simp [List.keys, Function.comp_def]
    rw [List.NodupKeys, keys]
    exact blocks.nodupKeys⟩

def modify (blocks : BlockMap) (pindex : Uint256) (change : CBlockIndex → CBlockIndex) : BlockMap :=
  blocks.mapEntries fun key entry => if key = pindex then change entry else entry

end BlockMap

/-- Where the entries lie in memory, which the order of candidates falls back on. -/
structure Addresses where
  address : Uint256 → Nat
  injective : Function.Injective address

/-- `CBlockIndexWorkComparator`: whether the first block is the worse one. -/
def workComparator (addresses : Addresses) (blocks : BlockMap) (left right : Uint256) : Bool :=
  match blocks.lookup left, blocks.lookup right with
  | some pa, some pb =>
    if pa.nChainWork > pb.nChainWork then false
    else if pa.nChainWork < pb.nChainWork then true
    else if pa.nSequenceId < pb.nSequenceId then false
    else if pa.nSequenceId > pb.nSequenceId then true
    else decide (addresses.address left > addresses.address right)
  | _, _ => false

/-! ## The state -/

/-- The active chain lists its blocks by height. -/
structure Chainstate where
  chainman : ChainstateManager := {}
  setBlockIndexCandidates : List Uint256 := []
  mBlocksUnlinked : List (Uint256 × Uint256) := []
  mChain : List Uint256 := []
  nBlockSequenceId : Int := SEQ_ID_INIT_FROM_DISK + 1
  mBestInvalid : Option Uint256 := none

namespace Chainstate

def blocks (state : Chainstate) : BlockMap := state.chainman.mBlockIndex

def tip (state : Chainstate) : Option Uint256 := state.mChain.getLast?

def tipWork (state : Chainstate) : ArithUint256 :=
  ((state.tip.bind state.blocks.lookup).map CBlockIndex.nChainWork).getD 0

def contains (state : Chainstate) (pindex : Uint256) : Bool :=
  match state.blocks.lookup pindex with
  | none => false
  | some entry => decide (0 ≤ entry.nHeight) && state.mChain[entry.nHeight.toNat]? == some pindex

/-- Changes entries and lists the changed ones as dirty. -/
def changeEntries (state : Chainstate) (changed : Uint256 → CBlockIndex → Bool)
    (change : CBlockIndex → CBlockIndex) : Chainstate :=
  { state with
    chainman :=
      { state.chainman with
        mBlockIndex := state.blocks.mapEntries fun key entry =>
          if changed key entry then change entry else entry
        mDirtyBlockindex := ((state.blocks.entries.filter fun entry => changed entry.1 entry.2).map
          Sigma.fst) ++ state.chainman.mDirtyBlockindex } }

def changeEntry (state : Chainstate) (pindex : Uint256) (change : CBlockIndex → CBlockIndex) :
    Chainstate :=
  state.changeEntries (fun key _ => key == pindex) change

/-- Whether a block is another one or descends from it, by height and skip pointers. -/
def descendsFrom (blocks : BlockMap) (pindex ancestor : Uint256) : Bool :=
  match blocks.lookup ancestor with
  | none => false
  | some entry => getAncestor blocks pindex entry.nHeight == some ancestor

/-! ## Failed blocks -/

def setBlockFailureFlags (state : Chainstate) (invalidBlock : Uint256) : Chainstate :=
  state.changeEntries (fun key _ => key != invalidBlock && descendsFrom state.blocks key invalidBlock)
    CBlockIndex.markFailed

def recalculateBestHeader (state : Chainstate) : Chainstate :=
  let better (best : Option Uint256) (entry : (_ : Uint256) × CBlockIndex) : Option Uint256 :=
    match best.bind state.blocks.lookup with
    | none => best
    | some bestEntry =>
      if !entry.2.failed && decide (bestEntry.nChainWork < entry.2.nChainWork) then some entry.1
      else best
  { state with
    chainman := { state.chainman with mBestHeader := state.blocks.entries.foldl better state.tip } }

def noteBestInvalid (state : Chainstate) (pindexNew : Uint256) : Chainstate :=
  match state.blocks.lookup pindexNew, state.mBestInvalid.bind state.blocks.lookup with
  | some entry, some best =>
    if entry.nChainWork > best.nChainWork then { state with mBestInvalid := some pindexNew } else state
  | _, _ => { state with mBestInvalid := some pindexNew }

def invalidChainFound (state : Chainstate) (pindexNew : Uint256) : Chainstate :=
  let marked := (state.noteBestInvalid pindexNew).setBlockFailureFlags pindexNew
  if marked.chainman.mBestHeader.any fun best => descendsFrom marked.blocks best pindexNew then
    marked.recalculateBestHeader
  else marked

def eraseCandidate (state : Chainstate) (pindex : Uint256) : Chainstate :=
  { state with setBlockIndexCandidates := state.setBlockIndexCandidates.filter (· != pindex) }

def insertCandidate (state : Chainstate) (pindex : Uint256) : Chainstate :=
  { state with setBlockIndexCandidates := state.setBlockIndexCandidates.insert pindex }

def invalidBlockFound (state : Chainstate) (pindex : Uint256) (result : BlockValidationResult) :
    Chainstate :=
  if result = .blockMutated then state
  else (((state.changeEntry pindex CBlockIndex.markFailed).eraseCandidate pindex).invalidChainFound
    pindex)

/-! ## Block data -/

section Data

variable (addresses : Addresses) (state : Chainstate)

def tryAddBlockIndexCandidate (pindex : Uint256) : Chainstate :=
  if state.tip.any fun tip => workComparator addresses state.blocks pindex tip then state
  else state.insertCandidate pindex

def prevTxSum (blocks : BlockMap) (entry : CBlockIndex) : UInt64 :=
  entry.nTx.toUInt64 + ((entry.pprev.bind blocks.lookup).map CBlockIndex.mChainTxCount).getD 0

def addUnlinkedBlock (pindex : Uint256) : Chainstate :=
  match (state.blocks.lookup pindex).bind CBlockIndex.pprev with
  | none => state
  | some pprev =>
    if state.mBlocksUnlinked.contains (pprev, pindex) then state
    else { state with mBlocksUnlinked := state.mBlocksUnlinked ++ [(pprev, pindex)] }

/-- One turn of the queue: a block whose data and whose ancestors' data are all there. -/
def linkBlock (pindex : Uint256) : Chainstate :=
  let counted := { state.changeEntry pindex fun entry =>
      { entry with
        mChainTxCount := prevTxSum state.blocks entry
        nSequenceId := state.nBlockSequenceId } with
    nBlockSequenceId := state.nBlockSequenceId + 1 }
  let candidate := counted.tryAddBlockIndexCandidate addresses pindex
  { candidate with
    mBlocksUnlinked := candidate.mBlocksUnlinked.filter fun waiting => waiting.1 != pindex }

def waitingFor (pindex : Uint256) : List Uint256 :=
  (state.mBlocksUnlinked.filter fun waiting => waiting.1 == pindex).map Prod.snd

/-- The queue of `ReceivedBlockTransactions`. Every turn takes one block off it, and each
block comes from the list of waiting blocks. -/
def linkBlocks : Nat → List Uint256 → Chainstate → Chainstate
  | turns + 1, pindex :: queue, state =>
    linkBlocks turns (queue ++ state.waitingFor pindex) (state.linkBlock addresses pindex)
  | _, _, state => state

end Data

structure FlatFilePos where
  nFile : Int
  nPos : UInt32
deriving DecidableEq

def withData (params : Params) (blocks : BlockMap) (nTx : UInt32) (pos : FlatFilePos)
    (entry : CBlockIndex) : CBlockIndex :=
  let counted := { entry with nTx }
  let expected := counted.mChainTxCount == 0 || counted.mChainTxCount == prevTxSum blocks counted
  { counted with
    mChainTxCount := if expected then counted.mChainTxCount else 0
    nFile := pos.nFile
    nDataPos := pos.nPos
    nUndoPos := 0
    nStatus := counted.nStatus ||| BLOCK_HAVE_DATA |||
      (if counted.nHeight ≥ params.segwitHeight then BLOCK_OPT_WITNESS else 0) }.raiseValidity
        BLOCK_VALID_TRANSACTIONS

def receivedBlockTransactions (addresses : Addresses) (params : Params) (state : Chainstate)
    (nTx : UInt32) (pindexNew : Uint256) (pos : FlatFilePos) : Chainstate :=
  let stored := state.changeEntry pindexNew (withData params state.blocks nTx pos)
  match (stored.blocks.lookup pindexNew).bind CBlockIndex.pprev with
  | none => linkBlocks addresses (stored.mBlocksUnlinked.length + 1) [pindexNew] stored
  | some pprev =>
    match stored.blocks.lookup pprev with
    | none => stored
    | some parent =>
      if parent.haveNumChainTxs then
        linkBlocks addresses (stored.mBlocksUnlinked.length + 1) [pindexNew] stored
      else if parent.isValid BLOCK_VALID_TREE then stored.addUnlinkedBlock pindexNew
      else stored

end Chainstate

end Sharecoin
