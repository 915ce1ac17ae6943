import Sharecoin.Validation.Chainstate

/-! Block files: where the data of blocks is written, what each file records about the blocks in
it, and which files are pruned. Files are numbered from zero. What is flushed to disk, and the
lists of entries and files that wait for it, are left out. -/

set_option autoImplicit false

namespace Sharecoin.Node

/-! ## Block files -/

structure CBlockFileInfo where
  nBlocks : Nat := 0
  nSize : Nat := 0
  nUndoSize : Nat := 0
  nHeightFirst : Nat := 0
  nHeightLast : Nat := 0
  nTimeFirst : Nat := 0
  nTimeLast : Nat := 0
deriving DecidableEq

def CBlockFileInfo.addBlock (info : CBlockFileInfo) (nHeightIn nTimeIn : Nat) : CBlockFileInfo :=
  { info with
    nHeightFirst := if info.nBlocks = 0 ∨ info.nHeightFirst > nHeightIn then nHeightIn else info.nHeightFirst
    nTimeFirst := if info.nBlocks = 0 ∨ info.nTimeFirst > nTimeIn then nTimeIn else info.nTimeFirst
    nBlocks := info.nBlocks + 1
    nHeightLast := if nHeightIn > info.nHeightLast then nHeightIn else info.nHeightLast
    nTimeLast := if nTimeIn > info.nTimeLast then nTimeIn else info.nTimeLast }

inductive BlockfileType where
  | NORMAL | ASSUMED
deriving DecidableEq

structure BlockfileCursor where
  fileNum : Nat := 0
  undoHeight : Int := 0

def MAX_BLOCKFILE_SIZE : Nat := 128 * 1024 * 1024
def BLOCKFILE_CHUNK_SIZE : Nat := 16 * 1024 * 1024
def UNDOFILE_CHUNK_SIZE : Nat := 1024 * 1024
def MIN_DISK_SPACE_FOR_BLOCK_FILES : Nat := 550 * 1024 * 1024
def STORAGE_HEADER_BYTES : Nat := 8
def UNDO_DATA_DISK_OVERHEAD : Nat := STORAGE_HEADER_BYTES + 32
def MIN_BLOCKS_TO_KEEP : Int := 288
def PRUNE_LOCK_BUFFER : Int := 10

def NO_LOCK_HEIGHT : Int := 2 ^ 31 - 1

structure BlockManagerOpts where
  pruneMode : Bool
  pruneTarget : Nat
  fastPrune : Bool := false
  pruneAfterHeight : Nat

structure BlockManager where
  mBlockIndex : BlockMap := ∅
  mBlocksUnlinked : List (Uint256 × Uint256) := []
  mBlockfileInfo : List CBlockFileInfo := []
  normalCursor : Option BlockfileCursor := some {}
  assumedCursor : Option BlockfileCursor := none
  mSnapshotHeight : Option Int := none
  mCheckForPruning : Bool := false
  mHavePruned : Bool := false
  mBlockfilesIndexed : Bool := true
  mPruneLocks : AList fun _ : String => Int := ∅

namespace BlockManager

variable (opts : BlockManagerOpts) (params : Params) (blockman : BlockManager)

/-! ## Cursors -/

def cursor : BlockfileType → Option BlockfileCursor
  | .NORMAL => blockman.normalCursor
  | .ASSUMED => blockman.assumedCursor

def setCursor (cursor : BlockfileCursor) : BlockfileType → BlockManager
  | .NORMAL => { blockman with normalCursor := some cursor }
  | .ASSUMED => { blockman with assumedCursor := some cursor }

def blockfileTypeForHeight (height : Int) : BlockfileType :=
  match blockman.mSnapshotHeight with
  | none => .NORMAL
  | some snapshotHeight => if height ≥ snapshotHeight then .ASSUMED else .NORMAL

def maxBlockfileNum : Nat :=
  max (blockman.normalCursor.getD {}).fileNum (blockman.assumedCursor.getD {}).fileNum

def fileInfo (nFile : Nat) : CBlockFileInfo :=
  blockman.mBlockfileInfo.getD nFile {}

/-- `m_blockfile_info.resize(nFile + 1)`, where it is shorter. -/
def reserveFile (nFile : Nat) : BlockManager :=
  { blockman with
    mBlockfileInfo := blockman.mBlockfileInfo ++ List.replicate (nFile + 1 - blockman.mBlockfileInfo.length) {} }

def changeInfo (nFile : Nat) (change : CBlockFileInfo → CBlockFileInfo) : BlockManager :=
  { blockman with mBlockfileInfo := blockman.mBlockfileInfo.modify nFile change }

/-! ## Writing blocks -/

/-- The loop of `FindNextBlockPos`: the first file with room. Every turn goes on to a file that
has no number yet, so there are no more turns than there are files. -/
def nextFile (maxBlockfileSize nAddSize : Nat) (type : BlockfileType) : Nat → BlockManager → Nat → BlockManager × Nat
  | 0, blockman, nFile => (blockman, nFile)
  | turns + 1, blockman, nFile =>
    if (blockman.fileInfo nFile).nSize + nAddSize ≥ maxBlockfileSize then
      let nFile := blockman.maxBlockfileNum + 1
      nextFile maxBlockfileSize nAddSize type turns
        ((blockman.setCursor { fileNum := nFile } type).reserveFile nFile) nFile
    else (blockman, nFile)

/-- What the file system answers to an allocation. -/
structure Allocation where
  outOfSpace : Bool := false
  bytesAllocated : Nat := 0

def noteAllocation (allocation : Allocation) : BlockManager :=
  { blockman with
    mCheckForPruning := blockman.mCheckForPruning || (allocation.bytesAllocated != 0 && opts.pruneMode) }

/-- A cursor that is missing, as it may be after a snapshot was loaded, starts a new file. -/
def initCursor (type : BlockfileType) : BlockManager :=
  if (blockman.cursor type).isSome then blockman
  else blockman.setCursor { fileNum := blockman.maxBlockfileNum + 1 } type

def maxBlockfileSize (nAddSize : Nat) : Nat :=
  if opts.fastPrune then if nAddSize ≥ 0x10000 then nAddSize + 1 else 0x10000
  else MAX_BLOCKFILE_SIZE

def addToFile (nFile nAddSize nHeight nTime : Nat) : BlockManager :=
  blockman.changeInfo nFile fun info =>
    let info := info.addBlock nHeight nTime
    { info with nSize := info.nSize + nAddSize }

/-- `FindNextBlockPos`; `none` as a position is the null position. -/
def findNextBlockPos (nAddSize nHeight nTime : Nat) (allocation : Allocation) :
    BlockManager × Option Chainstate.FlatFilePos :=
  let type := blockman.blockfileTypeForHeight nHeight
  let started := blockman.initCursor type
  let lastBlockfile := ((started.cursor type).getD {}).fileNum
  let reserved := started.reserveFile lastBlockfile
  let next := nextFile (maxBlockfileSize opts nAddSize) nAddSize type
    (reserved.mBlockfileInfo.length + 1) reserved lastBlockfile
  let nPos := (next.1.fileInfo next.2).nSize
  let moved := if next.2 ≠ lastBlockfile then next.1.setCursor { fileNum := next.2 } type else next.1
  let added := moved.addToFile next.2 nAddSize nHeight nTime
  if allocation.outOfSpace then (added, none)
  else (noteAllocation opts added allocation, some ⟨next.2, UInt32.ofNat nPos⟩)

/-- The part of `ReceivedBlockTransactions` that puts a position into the index. -/
def storePosition (key : Uint256) (nTx : UInt32) (pos : Chainstate.FlatFilePos) : BlockManager :=
  { blockman with
    mBlockIndex := blockman.mBlockIndex.modify key (Chainstate.withData params blockman.mBlockIndex nTx pos) }

/-- Writing a block whose header is known: `WriteBlock`, and the index if it was written. -/
def writeBlock (key : Uint256) (blockSize : Nat) (nTx : UInt32) (allocation : Allocation)
    (written : Bool) : BlockManager :=
  match blockman.mBlockIndex.lookup key with
  | none => blockman
  | some entry =>
    let next := findNextBlockPos opts blockman (blockSize + STORAGE_HEADER_BYTES)
      entry.nHeight.toNat entry.nTime.toNat allocation
    match next.2 with
    | some pos =>
      if written then
        storePosition params next.1 key nTx
          { pos with nPos := pos.nPos + UInt32.ofNat STORAGE_HEADER_BYTES }
      else next.1
    | none => next.1

/-- `UpdateBlockInfo`, for a block that was found in a file. -/
def updateBlockInfo (blockSize nHeight nTime nFile nPos : Nat) : BlockManager :=
  let type := blockman.blockfileTypeForHeight nHeight
  let blockman :=
    if (blockman.cursor type).all fun cursor => cursor.fileNum < nFile then
      blockman.setCursor { fileNum := nFile } type
    else blockman
  (blockman.reserveFile nFile).changeInfo nFile fun info =>
    let info := info.addBlock nHeight nTime
    { info with nSize := max (nPos + blockSize) info.nSize }

/-- A block whose header is known is found in a file. -/
def importBlock (key : Uint256) (blockSize : Nat) (nTx : UInt32) (nFile nPos : Nat) : BlockManager :=
  match blockman.mBlockIndex.lookup key with
  | none => blockman
  | some entry =>
    storePosition params (blockman.updateBlockInfo blockSize entry.nHeight.toNat entry.nTime.toNat nFile nPos) key nTx
      ⟨nFile, UInt32.ofNat nPos⟩

/-- `WriteBlockUndo`: the size of the undo data goes to the file of the block. -/
def writeBlockUndo (key : Uint256) (undoSize : Nat) (allocation : Allocation) (written : Bool) : BlockManager :=
  match blockman.mBlockIndex.lookup key with
  | none => blockman
  | some entry =>
    let type := blockman.blockfileTypeForHeight entry.nHeight
    match blockman.cursor type with
    | none => blockman
    | some cursor =>
      if entry.nStatus &&& BLOCK_HAVE_UNDO != 0 then blockman
      else
        let nFile := entry.nFile.toNat
        let nPos := (blockman.fileInfo nFile).nUndoSize
        let sized := blockman.changeInfo nFile fun info =>
          { info with nUndoSize := info.nUndoSize + (undoSize + UNDO_DATA_DISK_OVERHEAD) }
        if allocation.outOfSpace then sized
        else
          let noted := noteAllocation opts sized allocation
          if written then
            let noted :=
              if nFile = cursor.fileNum ∧ entry.nHeight > cursor.undoHeight then
                noted.setCursor { cursor with undoHeight := entry.nHeight } type
              else noted
            { noted with
              mBlockIndex := noted.mBlockIndex.modify key fun entry =>
                { entry with
                  nUndoPos := UInt32.ofNat (nPos + STORAGE_HEADER_BYTES)
                  nStatus := entry.nStatus ||| BLOCK_HAVE_UNDO } }
          else noted

/-! ## Pruning -/

def clearData (entry : CBlockIndex) : CBlockIndex :=
  { entry with
    nStatus := entry.nStatus &&& ~~~BLOCK_HAVE_DATA &&& ~~~BLOCK_HAVE_UNDO
    nFile := 0
    nDataPos := 0
    nUndoPos := 0 }

def inFile (key : Uint256) (fileNumber : Nat) : Bool :=
  (blockman.mBlockIndex.lookup key).any fun entry => entry.nFile == (fileNumber : Int)

def pruneOneBlockFile (fileNumber : Nat) : BlockManager :=
  { blockman with
    mBlockIndex := blockman.mBlockIndex.mapEntries fun _ entry =>
      if entry.nFile = fileNumber then clearData entry else entry
    mBlocksUnlinked := blockman.mBlocksUnlinked.filter fun unlinked =>
      !blockman.inFile unlinked.2 fileNumber
    mBlockfileInfo := blockman.mBlockfileInfo.set fileNumber {} }

/-- What pruning asks of the chainstate it is for: the height of its tip, which is -1 without one,
and the height of the snapshot it was made from, if any. -/
structure PrunedChain where
  height : Int
  snapshotBase : Option Int := none
  validated : Bool := true
  height_range : -1 ≤ height ∧ height < 2 ^ 31
  base_range : ∀ base, snapshotBase = some base → 0 ≤ base ∧ base < 2 ^ 31 - 1

def getPruneRange (chain : PrunedChain) (lastHeightCanPrune : Int) : Int × Int :=
  if chain.height ≤ 0 then (0, 0)
  else
    let pruneStart :=
      match chain.snapshotBase with
      | some base => if chain.validated then 0 else base + 1
      | none => 0
    let maxPrune := max 0 (chain.height - MIN_BLOCKS_TO_KEEP)
    (pruneStart, min lastHeightCanPrune maxPrune)

/-- Whether the range allows the file to go. -/
def outOfRange (info : CBlockFileInfo) (range : Int × Int) : Bool :=
  decide (info.nHeightLast > (castUInt32 range.2).toNat) || decide (info.nHeightFirst < (castUInt32 range.1).toNat)

/-- One turn of the loop of `FindFilesToPruneManual`, with the files pruned so far. -/
def pruneManualTurn (range : Int × Int) (found : BlockManager × List Nat) (fileNumber : Nat) :
    BlockManager × List Nat :=
  let info := found.1.fileInfo fileNumber
  if info.nSize = 0 ∨ outOfRange info range = true then found
  else (found.1.pruneOneBlockFile fileNumber, found.2 ++ [fileNumber])

/-- `FindFilesToPruneManual`; `none` where its assertion fails. -/
def findFilesToPruneManual (nManualPruneHeight : Int) (chain : PrunedChain) : Option (BlockManager × List Nat) :=
  if ¬ (opts.pruneMode = true ∧ nManualPruneHeight > 0) then none
  else if chain.height < 0 then some (blockman, [])
  else
    let range := getPruneRange chain nManualPruneHeight
    some ((List.range blockman.maxBlockfileNum).foldl (pruneManualTurn range) (blockman, []))

def calculateCurrentUsage : Nat :=
  (blockman.mBlockfileInfo.map fun info => info.nSize + info.nUndoSize).sum

/-- What automatic pruning asks of the other parts of the node. -/
structure SyncState where
  hasHistoricalChainstate : Bool := false
  isInitialBlockDownload : Bool := false
  bestHeaderHeight : Nat := 0

/-- The loop of `FindFilesToPrune`, which stops below the target. -/
def pruneTurns (range : Int × Int) (target nBuffer : Nat) :
    List Nat → Nat → BlockManager × List Nat → BlockManager × List Nat
  | [], _, found => found
  | fileNumber :: rest, nCurrentUsage, found =>
    let info := found.1.fileInfo fileNumber
    if info.nSize = 0 then pruneTurns range target nBuffer rest nCurrentUsage found
    else if nCurrentUsage + nBuffer < target then found
    else if outOfRange info range then pruneTurns range target nBuffer rest nCurrentUsage found
    else
      pruneTurns range target nBuffer rest (nCurrentUsage - (info.nSize + info.nUndoSize))
        (found.1.pruneOneBlockFile fileNumber, found.2 ++ [fileNumber])

def findFilesToPrune (lastPrune : Int) (chain : PrunedChain) (sync : SyncState) : BlockManager × List Nat :=
  let numChainstates := if sync.hasHistoricalChainstate then 2 else 1
  let target := max MIN_DISK_SPACE_FOR_BLOCK_FILES (opts.pruneTarget / numChainstates)
  if chain.height < 0 ∨ target = 0 then (blockman, [])
  else if chain.height ≤ opts.pruneAfterHeight then (blockman, [])
  else
    let range := getPruneRange chain lastPrune
    let nCurrentUsage := blockman.calculateCurrentUsage
    let nBuffer := BLOCKFILE_CHUNK_SIZE + UNDOFILE_CHUNK_SIZE
    if nCurrentUsage + nBuffer ≥ target then
      let nBuffer :=
        if sync.isInitialBlockDownload ∧ (sync.bestHeaderHeight : Int) > chain.height then
          nBuffer + 1000000 * (sync.bestHeaderHeight - chain.height.toNat)
        else nBuffer
      pruneTurns range target nBuffer (List.range blockman.maxBlockfileNum) nCurrentUsage (blockman, [])
    else (blockman, [])

/-- The limit that one prune lock puts on the last height to prune. -/
def limitByLock (lastPrune heightFirst : Int) : Int :=
  if heightFirst = NO_LOCK_HEIGHT then lastPrune
  else max 1 (min lastPrune (heightFirst - PRUNE_LOCK_BUFFER - 1))

/-- The last height that the locks leave to prune. -/
def lastPrune (chain : PrunedChain) : Int :=
  (blockman.mPruneLocks.entries.map Sigma.snd).foldl limitByLock chain.height

/-- The files that a call prunes, by the manual height if one is given. -/
def pruneFiles (chain : PrunedChain) (nManualPruneHeight : Int) (sync : SyncState) :
    Option (BlockManager × List Nat) :=
  let lastPrune := blockman.lastPrune chain
  if nManualPruneHeight > 0 then
    findFilesToPruneManual opts blockman (min lastPrune nManualPruneHeight) chain
  else
    let found := findFilesToPrune opts blockman lastPrune chain sync
    some ({ found.1 with mCheckForPruning := false }, found.2)

/-- The pruning part of `FlushStateToDisk`; `none` where an assertion fails. -/
def flushStateToDisk (chain : PrunedChain) (nManualPruneHeight : Int) (sync : SyncState) : Option BlockManager :=
  if opts.pruneMode = true ∧ (blockman.mCheckForPruning = true ∨ nManualPruneHeight > 0) ∧
      blockman.mBlockfilesIndexed = true then
    (pruneFiles opts blockman chain nManualPruneHeight sync).map fun found =>
      { found.1 with mHavePruned := found.1.mHavePruned || !found.2.isEmpty }
  else some blockman

def updatePruneLock (name : String) (heightFirst : Int) : BlockManager :=
  { blockman with mPruneLocks := blockman.mPruneLocks.insert name heightFirst }

def deletePruneLock (name : String) : BlockManager :=
  { blockman with mPruneLocks := blockman.mPruneLocks.erase name }

/-! ## Runs -/

/-- The block files, and the chainstate that flushes next. -/
structure Storage where
  blockman : BlockManager
  chain : PrunedChain

inductive Event where
  | header (key : Uint256) (entry : CBlockIndex)
  | writeBlock (key : Uint256) (blockSize : Nat) (nTx : UInt32) (allocation : Allocation)
      (written : Bool)
  | importBlock (key : Uint256) (blockSize : Nat) (nTx : UInt32) (nFile nPos : Nat)
  | writeBlockUndo (key : Uint256) (undoSize : Nat) (allocation : Allocation) (written : Bool)
  | setChain (chain : PrunedChain)
  | setSnapshotHeight (height : Option Int)
  | setBlockfilesIndexed (indexed : Bool)
  | updatePruneLock (name : String) (heightFirst : Int)
  | deletePruneLock (name : String)
  | flush (nManualPruneHeight : Int) (sync : SyncState)

/-- One event. A header comes without data, under a new hash and with a height. -/
def Storage.step (storage : Storage) : Event → Option Storage
  | .header key entry =>
    if key ∈ storage.blockman.mBlockIndex ∨ entry.haveData = true ∨ entry.nHeight < 0 ∨ entry.nHeight ≥ 2 ^ 31 then none
    else some { storage with
      blockman := { storage.blockman with
        mBlockIndex := storage.blockman.mBlockIndex.insert key entry } }
  | .writeBlock key blockSize nTx allocation written =>
    some { storage with
      blockman := storage.blockman.writeBlock opts params key blockSize nTx allocation written }
  | .importBlock key blockSize nTx nFile nPos =>
    some { storage with
      blockman := storage.blockman.importBlock params key blockSize nTx nFile nPos }
  | .writeBlockUndo key undoSize allocation written =>
    some { storage with
      blockman := storage.blockman.writeBlockUndo opts key undoSize allocation written }
  | .setChain chain => some { storage with chain }
  | .setSnapshotHeight height =>
    some { storage with blockman := { storage.blockman with mSnapshotHeight := height } }
  | .setBlockfilesIndexed indexed =>
    some { storage with blockman := { storage.blockman with mBlockfilesIndexed := indexed } }
  | .updatePruneLock name heightFirst =>
    some { storage with blockman := storage.blockman.updatePruneLock name heightFirst }
  | .deletePruneLock name =>
    some { storage with blockman := storage.blockman.deletePruneLock name }
  | .flush nManualPruneHeight sync => do
    some { storage with
      blockman := ← flushStateToDisk opts storage.blockman storage.chain nManualPruneHeight sync }

def Storage.run (storage : Storage) (events : List Event) : Option Storage :=
  events.foldlM (Storage.step opts params) storage

def Storage.empty : Storage := ⟨{}, { height := -1, height_range := by decide, base_range := by simp }⟩

end BlockManager

end Sharecoin.Node
