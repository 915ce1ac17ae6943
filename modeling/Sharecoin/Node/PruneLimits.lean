import Sharecoin.Node.PruneProperties
import Sharecoin.Validation.BlockDataProperties

/-! The blocks that pruning promises to keep, and the heights next to the genesis block where the
limits of a call are rounded up and it takes blocks all the same. -/

set_option autoImplicit false

namespace Sharecoin.Node

namespace BlockManager

/-! ## A file of one block

With small files, a block that fills the first file and another one after it leave a file that
pruning looks at, whatever the height of the first block is. -/

def smallFiles : BlockManagerOpts :=
  { pruneMode := true, pruneTarget := 0, fastPrune := true, pruneAfterHeight := 0 }

def firstKey : Uint256 := .ofNat 1
def secondKey : Uint256 := .ofNat 2

def bareHeader (height : Int) : CBlockIndex := { nHeight := height }

def fillFile (height : Int) : List Event :=
  [.header firstKey (bareHeader height), .header secondKey (bareHeader height), .writeBlock firstKey 0xfff8 1 {} true,
    .writeBlock secondKey 1 1 {} true]

def fileOf (height : Int) (nSize : Nat) : CBlockFileInfo :=
  { nBlocks := 1, nSize, nHeightFirst := height.toNat, nHeightLast := height.toNat }

theorem findNextBlockPos_first (blocks : BlockMap) (height : Int) :
    findNextBlockPos smallFiles { mBlockIndex := blocks } 0x10000 height.toNat 0 {} =
      ({ mBlockIndex := blocks, mBlockfileInfo := [fileOf height 0x10000] }, some ⟨0, 0⟩) := by
  simp [findNextBlockPos, blockfileTypeForHeight, initCursor, cursor, reserveFile, nextFile,
    fileInfo, maxBlockfileSize, smallFiles, addToFile, changeInfo, noteAllocation,
    CBlockFileInfo.addBlock, fileOf]
  omega

theorem findNextBlockPos_second (blocks : BlockMap) (height : Int) : findNextBlockPos smallFiles
        { mBlockIndex := blocks, mBlockfileInfo := [fileOf height 0x10000] } 9 height.toNat 0 {} =
      ({ mBlockIndex := blocks, mBlockfileInfo := [fileOf height 0x10000, fileOf height 9]
         normalCursor := some { fileNum := 1 } }, some ⟨1, 0⟩) := by
  simp [findNextBlockPos, blockfileTypeForHeight, initCursor, cursor, setCursor, reserveFile,
    nextFile, fileInfo, maxBlockfileSize, maxBlockfileNum, smallFiles, addToFile, changeInfo,
    noteAllocation, CBlockFileInfo.addBlock, fileOf]
  omega

/-- The state that `fillFile` leaves. -/
structure FillsFile (height : Int) (blockman : BlockManager) : Prop where
  files : blockman.mBlockfileInfo = [fileOf height 0x10000, fileOf height 9]
  cursors : blockman.maxBlockfileNum = 1
  indexed : blockman.mBlockfilesIndexed = true
  stored : ∃ entry, blockman.mBlockIndex.lookup firstKey = some entry ∧ entry.haveData = true ∧
    entry.nHeight = height ∧ entry.nFile = (0 : Nat)

theorem lookup_storePosition (params : Params) (blockman : BlockManager) (key other : Uint256)
    (nTx : UInt32) (pos : Chainstate.FlatFilePos) :
    (blockman.storePosition params key nTx pos).mBlockIndex.lookup other =
      (blockman.mBlockIndex.lookup other).map fun entry =>
        if other = key then Chainstate.withData params blockman.mBlockIndex nTx pos entry
        else entry :=
  lookup_mapEntries _ _ _

variable {opts : BlockManagerOpts} {entry : CBlockIndex} {key : Uint256}

theorem step_header {params : Params} {storage : Storage} (fresh : key ∉ storage.blockman.mBlockIndex)
    (bare : entry.haveData = false) (nonneg : 0 ≤ entry.nHeight) (small : entry.nHeight < 2 ^ 31) :
    storage.step opts params (.header key entry) = some { storage with
        blockman := { storage.blockman with
          mBlockIndex := storage.blockman.mBlockIndex.insert key entry } } := by
  rw [Storage.step, if_neg]
  rw [bare]
  simp only [Bool.false_eq_true, false_or, not_or, not_lt, ge_iff_le, not_le]
  exact ⟨fresh, nonneg, small⟩

theorem writeBlock_eq (params : Params) (blockman after : BlockManager) {blockSize : Nat} (pos : Chainstate.FlatFilePos)
    (nTx : UInt32) (found : blockman.mBlockIndex.lookup key = some entry)
    (next : findNextBlockPos opts blockman (blockSize + STORAGE_HEADER_BYTES) entry.nHeight.toNat
      entry.nTime.toNat {} = (after, some pos)) :
    blockman.writeBlock opts params key blockSize nTx {} true =
      after.storePosition params key nTx { pos with nPos := pos.nPos + 8 } := by
  rw [writeBlock, found]
  dsimp only
  rw [next]
  rfl

section FillFile

variable (params : Params) (height : Int)

def knownHeaders : BlockMap :=
  AList.insert secondKey (bareHeader height) (AList.insert firstKey (bareHeader height) ∅)

def firstWritten : BlockManager :=
  BlockManager.storePosition params
    { mBlockIndex := knownHeaders height, mBlockfileInfo := [fileOf height 0x10000] } firstKey 1 ⟨0, 8⟩

def bothWritten : BlockManager :=
  BlockManager.storePosition params
    { mBlockIndex := (firstWritten params height).mBlockIndex
      mBlockfileInfo := [fileOf height 0x10000, fileOf height 9]
      normalCursor := some { fileNum := 1 } } secondKey 1 ⟨1, 8⟩

theorem firstKey_ne_secondKey : firstKey ≠ secondKey := by decide

theorem haveData_bareHeader : (bareHeader height).haveData = false := by
  have zero : (0 : UInt32) &&& BLOCK_HAVE_DATA = 0 := by decide
  simp [CBlockIndex.haveData, bareHeader, zero]

variable {height}

theorem run_fillFile (nonneg : 0 ≤ height) (small : height < 2 ^ 31) :
    Storage.empty.run smallFiles params (fillFile height) = some ⟨bothWritten params height, Storage.empty.chain⟩ := by
  have fresh : secondKey ∉ AList.insert firstKey (bareHeader height) (∅ : BlockMap) := by
    rw [AList.mem_insert]
    simp [firstKey_ne_secondKey.symm]
  have first : (knownHeaders height).lookup firstKey = some (bareHeader height) := by
    rw [knownHeaders, AList.lookup_insert_ne firstKey_ne_secondKey, AList.lookup_insert]
  have second : (firstWritten params height).mBlockIndex.lookup secondKey = some (bareHeader height) := by
    rw [firstWritten, lookup_storePosition]
    dsimp only
    rw [knownHeaders, AList.lookup_insert, Option.map_some, if_neg firstKey_ne_secondKey.symm]
  have one : BlockManager.writeBlock smallFiles params { mBlockIndex := knownHeaders height }
      firstKey 0xfff8 1 {} true = firstWritten params height := by
    refine writeBlock_eq params { mBlockIndex := knownHeaders height } _ ⟨0, 0⟩ 1 first ?_
    exact findNextBlockPos_first (knownHeaders height) height
  have two : (firstWritten params height).writeBlock smallFiles params secondKey 1 1 {} true =
      bothWritten params height := by
    refine writeBlock_eq params _ _ ⟨1, 0⟩ 1 second ?_
    exact findNextBlockPos_second _ height
  unfold Storage.run fillFile
  rw [List.foldlM_cons, step_header (AList.notMem_empty _) (haveData_bareHeader height) nonneg small,
    Option.bind_eq_bind, Option.bind_some, List.foldlM_cons,
    step_header fresh (haveData_bareHeader height) nonneg small]
  dsimp only [Option.bind_eq_bind, Option.bind_some, List.foldlM_cons, Storage.step, List.foldlM_nil, Storage.empty]
  rw [← two, ← one]
  rfl

theorem fillsFile_bothWritten : FillsFile height (bothWritten params height) where
  files := rfl
  cursors := rfl
  indexed := rfl
  stored := by
    have fresh : (bareHeader height).haveNumChainTxs = false := rfl
    refine ⟨Chainstate.withData params (knownHeaders height) 1 ⟨0, 8⟩ (bareHeader height), ?_,
      (withData_spec fresh).2.2.2, ?_, nFile_raiseValidity _ _⟩
    · rw [bothWritten, lookup_storePosition]
      dsimp only
      rw [firstWritten, lookup_storePosition]
      dsimp only
      rw [knownHeaders, AList.lookup_insert_ne firstKey_ne_secondKey, AList.lookup_insert,
        Option.map_some, Option.map_some, if_pos rfl, if_neg firstKey_ne_secondKey]
    · exact CBlockIndex.nHeight_of_frame (CBlockIndex.frame_withData params _ 1 _ _)

end FillFile

theorem exists_run_locks (opts : BlockManagerOpts) (params : Params) (storage : Storage)
    (start : storage.blockman.mPruneLocks = ∅) (locks : AList fun _ : String => Int) :
    ∃ events, storage.run opts params events =
      some { storage with blockman := { storage.blockman with mPruneLocks := locks } } := by
  induction locks using AList.insertRec with
  | H0 =>
    refine ⟨[], ?_⟩
    rw [← start]
    rfl
  | IH name heightFirst locks fresh ih =>
    obtain ⟨events, ran⟩ := ih
    refine ⟨events ++ [.updatePruneLock name heightFirst], ?_⟩
    rw [Storage.run, List.foldlM_append]
    rw [Storage.run] at ran
    rw [ran]
    rfl

variable {chain : PrunedChain} {locks : List Int}

theorem exists_flush_takes {blockman : BlockManager} {height : Int} (fills : FillsFile height blockman)
    (nonneg : 0 ≤ height) (prunable : Prunable chain (lockHeights blockman.mPruneLocks) height) :
    ∃ after entry, flushStateToDisk smallFiles blockman chain (blockman.lastPrune chain) {} =
        some after ∧ blockman.mBlockIndex.lookup firstKey = some entry ∧ entry.haveData = true ∧
      entry.nHeight = height ∧ after.mBlockIndex.lookup firstKey ≠ some entry := by
  obtain ⟨started, limit, start, stop⟩ := prunable
  have positive : 0 < blockman.lastPrune chain := limit
  obtain ⟨entry, listed, data, sameHeight, file⟩ := fills.stored
  have inRange := inRange_getPruneRange chain positive (lastPrune_lt blockman chain)
  have info : blockman.fileInfo 0 = fileOf height 0x10000 := by
    rw [fileInfo, fills.files]
    rfl
  have stays : outOfRange (blockman.fileInfo 0) (getPruneRange chain (blockman.lastPrune chain)) = false := by
    obtain ⟨⟨startLow, startHigh⟩, endLow, endHigh⟩ := inRange
    have startCast := castUInt32_toNat startLow (by omega)
    have endCast := castUInt32_toNat endLow (by omega)
    rw [info, outOfRange, Bool.or_eq_false_iff, decide_eq_false_iff_not, decide_eq_false_iff_not]
    dsimp only [fileOf, lastPrune, lockHeights] at *
    omega
  have turn : pruneManualTurn (getPruneRange chain (blockman.lastPrune chain)) (blockman, []) 0 =
      (blockman.pruneOneBlockFile 0, [0]) := by
    rw [pruneManualTurn, if_neg]
    · rfl
    · rw [not_or, stays, info]
      exact ⟨by simp [fileOf], by decide⟩
  have searched : pruneFiles smallFiles blockman chain (blockman.lastPrune chain) {} =
      some (blockman.pruneOneBlockFile 0, [0]) := by
    unfold pruneFiles findFilesToPruneManual
    dsimp only
    rw [if_pos positive, min_self, if_neg (not_not.mpr ⟨rfl, positive⟩), if_neg (not_lt.mpr started), fills.cursors]
    exact congrArg some turn
  refine ⟨{ blockman.pruneOneBlockFile 0 with mHavePruned := blockman.mHavePruned || true }, entry,
    ?_, listed, data, sameHeight, ?_⟩
  · rw [flushStateToDisk, if_pos ⟨rfl, .inr positive, fills.indexed⟩, searched]
    rfl
  dsimp only
  rw [lookup_pruneOneBlockFile, listed, Option.map_some, if_pos file]
  intro same
  have cleared := haveData_clearData entry
  rw [Option.some.inj same, data] at cleared
  cases cleared

/-! ## The promise -/

/-- The heights that pruning promises to keep: those close to the tip, and those above a lock. -/
def Promised (chain : PrunedChain) (locks : List Int) (height : Int) : Prop :=
  chain.height - MIN_BLOCKS_TO_KEEP < height ∨ ∃ heightFirst ∈ locks, heightFirst ≠ NO_LOCK_HEIGHT ∧
      heightFirst - PRUNE_LOCK_BUFFER - 1 < height

/-- No call in any run, made with this chain and these locks, takes a block of this height. -/
def KeepsHeight (params : Params) (chain : PrunedChain) (locks : AList fun _ : String => Int)
    (height : Int) : Prop :=
  ∀ (opts : BlockManagerOpts) (events : List Event) (storage : Storage) (nManualPruneHeight : Int)
    (sync : SyncState) (after : BlockManager),
    Storage.empty.run opts params events = some storage → storage.chain = chain →
    storage.blockman.mPruneLocks = locks →
    flushStateToDisk opts storage.blockman chain nManualPruneHeight sync = some after →
    ∀ key entry, storage.blockman.mBlockIndex.lookup key = some entry → entry.haveData = true →
      entry.nHeight = height → after.mBlockIndex.lookup key = some entry

/-- After these events, a call takes the block of the first file at this height. -/
structure Takes (params : Params) (events : List Event) (storage : Storage)
    (nManualPruneHeight height : Int) : Prop where
  ran : Storage.empty.run smallFiles params events = some storage
  takes : ∃ after entry, flushStateToDisk smallFiles storage.blockman storage.chain nManualPruneHeight {} = some after ∧
      storage.blockman.mBlockIndex.lookup firstKey = some entry ∧ entry.haveData = true ∧
      entry.nHeight = height ∧ after.mBlockIndex.lookup firstKey ≠ some entry

theorem takes_of_prunable (params : Params) (chain : PrunedChain)
    (locks : AList fun _ : String => Int) {height : Int} (nonneg : 0 ≤ height)
    (small : height < 2 ^ 31) (prunable : Prunable chain (lockHeights locks) height)
    (events : List Event)
    (locked : Storage.run smallFiles params ⟨bothWritten params height, chain⟩ events =
      some ⟨{ bothWritten params height with mPruneLocks := locks }, chain⟩) :
    Takes params (fillFile height ++ .setChain chain :: events)
      ⟨{ bothWritten params height with mPruneLocks := locks }, chain⟩
      ((lockHeights locks).foldl limitByLock chain.height) height where
  ran := by
    have filled := run_fillFile params nonneg small
    rw [Storage.run] at filled locked ⊢
    rw [List.foldlM_append, filled]
    exact locked
  takes := by
    have before : FillsFile height (bothWritten params height) := fillsFile_bothWritten params
    exact exists_flush_takes ⟨before.files, before.cursors, before.indexed, before.stored⟩ nonneg prunable

theorem keepsHeight_iff (params : Params) (chain : PrunedChain) (locks : AList fun _ : String => Int) {height : Int}
    (nonneg : 0 ≤ height) (small : height < 2 ^ 31) :
    KeepsHeight params chain locks height ↔ ¬ Prunable chain (lockHeights locks) height := by
  constructor
  · intro keeps prunable
    obtain ⟨events, locked⟩ := exists_run_locks smallFiles params ⟨bothWritten params height, chain⟩ rfl locks
    obtain ⟨ran, after, entry, flushed, listed, data, same, gone⟩ :=
      takes_of_prunable params chain locks nonneg small prunable events locked
    exact gone (keeps _ _ _ _ _ after ran rfl rfl flushed firstKey entry listed data same)
  · rintro safe opts events storage manual sync after ran rfl rfl flushed key entry found data rfl
    have consistent := consistent_run consistent_empty ran
    exact ((flushStateToDisk_allowed consistent flushed).allowed key entry found data).resolve_right safe

/-! ## The edges -/

theorem foldl_limitByLock_le_lock {heightFirst : Int} (listed : heightFirst ∈ locks)
    (finite : heightFirst ≠ NO_LOCK_HEIGHT) (lastPrune : Int) :
    locks.foldl limitByLock lastPrune ≤ max 1 (heightFirst - PRUNE_LOCK_BUFFER - 1) := by
  induction locks generalizing lastPrune with
  | nil => cases listed
  | cons lock locks ih =>
    rcases List.mem_cons.mp listed with rfl | later
    · refine (foldl_limitByLock_le _ locks).trans ?_
      rw [limitByLock, if_neg finite]
      omega
    · exact ih later _

/-- With the genesis block as the tip, the limit is positive where some lock has a height. -/
theorem foldl_limitByLock_zero_pos (locks : List Int) :
    0 < locks.foldl limitByLock 0 ↔ ∃ heightFirst ∈ locks, heightFirst ≠ NO_LOCK_HEIGHT := by
  induction locks with
  | nil => simp
  | cons lock locks ih =>
    rw [List.foldl_cons]
    by_cases finite : lock = NO_LOCK_HEIGHT
    · rw [limitByLock, if_pos finite, ih]
      simp [finite]
    have positive : 0 < limitByLock 0 lock := by
      rw [limitByLock, if_neg finite]
      omega
    exact iff_of_true (foldl_limitByLock_pos positive locks) ⟨lock, (.head _), finite⟩

section

variable {height : Int} (nonneg : 0 ≤ height)

include nonneg

theorem prunable_iff_of_genesis (genesis : chain.height = 0) :
    Prunable chain locks height ↔ height = 0 ∧ ∃ heightFirst ∈ locks, heightFirst ≠ NO_LOCK_HEIGHT := by
  have range (limit : Int) : getPruneRange chain limit = (0, 0) := by
    rw [getPruneRange, if_pos genesis.le]
  rw [Prunable, genesis, foldl_limitByLock_zero_pos locks, range]
  constructor
  · rintro ⟨-, locked, -, bottom⟩
    exact ⟨le_antisymm bottom nonneg, locked⟩
  · rintro ⟨rfl, locked⟩
    exact ⟨le_refl _, locked, le_refl _, le_refl _⟩

/-- A block that is promised to stay goes only at the two lowest heights. -/
theorem prunable_iff_of_promised (promised : Promised chain locks height) :
    Prunable chain locks height ↔ (getPruneRange chain (locks.foldl limitByLock chain.height)).1 ≤ height ∧
        (height = 0 ∧ (0 < chain.height ∨ chain.height = 0 ∧ ∃ heightFirst ∈ locks, heightFirst ≠ NO_LOCK_HEIGHT) ∨
          height = 1 ∧ MIN_BLOCKS_TO_KEEP < chain.height) := by
  have low := chain.height_range.1
  rcases lt_trichotomy chain.height 0 with before | genesis | late
  · rw [Prunable, MIN_BLOCKS_TO_KEEP]
    omega
  · rw [prunable_iff_of_genesis nonneg genesis, getPruneRange, if_pos genesis.le, genesis, MIN_BLOCKS_TO_KEEP]
    simp [nonneg]
  · rw [Prunable]
    have positive := foldl_limitByLock_pos late locks
    have bound : ∀ heightFirst ∈ locks, heightFirst ≠ NO_LOCK_HEIGHT →
        locks.foldl limitByLock chain.height ≤ max 1 (heightFirst - PRUNE_LOCK_BUFFER - 1) :=
      fun _ listed finite => foldl_limitByLock_le_lock listed finite _
    have stop (limit : Int) : (getPruneRange chain limit).2 =
        min limit (max 0 (chain.height - MIN_BLOCKS_TO_KEEP)) := by
      rw [getPruneRange, if_neg (not_le.mpr late)]
    rw [stop]
    rcases promised with near | ⟨heightFirst, listed, finite, above⟩
    · simp only [MIN_BLOCKS_TO_KEEP] at near ⊢
      omega
    · have := bound heightFirst listed finite
      simp only [MIN_BLOCKS_TO_KEEP, PRUNE_LOCK_BUFFER] at this above ⊢
      omega

/-- Of a snapshot that is not validated, nothing at or below its base goes after the genesis
block. -/
theorem prunable_iff_of_snapshot {base : Int} (snapshot : chain.snapshotBase = some base)
    (unvalidated : chain.validated = false) (below : height ≤ base) :
    Prunable chain locks height ↔
      height = 0 ∧ chain.height = 0 ∧ ∃ heightFirst ∈ locks, heightFirst ≠ NO_LOCK_HEIGHT := by
  rcases lt_trichotomy chain.height 0 with before | genesis | late
  · rw [Prunable]
    omega
  · simp [prunable_iff_of_genesis nonneg genesis, genesis]
  · rw [Prunable]
    have start (limit : Int) : (getPruneRange chain limit).1 = base + 1 := by
      rw [getPruneRange, if_neg (not_le.mpr late), snapshot, unvalidated]
      rfl
    rw [start]
    omega

end

/-- Pruning keeps what it promises, except at the two lowest heights that a call starts from; and
it keeps what an unvalidated snapshot needs. -/
theorem flushStateToDisk_keeps_iff (params : Params) (chain : PrunedChain) (locks : AList fun _ : String => Int)
    {height : Int} (nonneg : 0 ≤ height) (small : height < 2 ^ 31) :
    (Promised chain (lockHeights locks) height → (KeepsHeight params chain locks height ↔
        ¬ ((getPruneRange chain ((lockHeights locks).foldl limitByLock chain.height)).1 ≤ height ∧
          (height = 0 ∧ (0 < chain.height ∨
              chain.height = 0 ∧ ∃ heightFirst ∈ lockHeights locks, heightFirst ≠ NO_LOCK_HEIGHT) ∨
            height = 1 ∧ MIN_BLOCKS_TO_KEEP < chain.height)))) ∧
      ∀ base, chain.snapshotBase = some base → chain.validated = false → height ≤ base →
        (KeepsHeight params chain locks height ↔ ¬ (height = 0 ∧ chain.height = 0 ∧
            ∃ heightFirst ∈ lockHeights locks, heightFirst ≠ NO_LOCK_HEIGHT)) := by
  constructor
  · intro promised
    rw [keepsHeight_iff params chain locks nonneg small, prunable_iff_of_promised nonneg promised]
  · intro base snapshot unvalidated below
    rw [keepsHeight_iff params chain locks nonneg small, prunable_iff_of_snapshot nonneg snapshot unvalidated below]

def plainChain (height : Nat) (small : height < 2 ^ 31) : PrunedChain where
  height := height
  height_range := by omega
  base_range := by rintro _ ⟨⟩

theorem flushStateToDisk_keeps_recent :
    KeepsHeight (regtestParams fun _ => .zero).consensus (plainChain 1000 (by decide)) ∅ 999 := by
  refine ((flushStateToDisk_keeps_iff _ _ ∅ (by decide) (by decide)).1 (.inl (by decide))).mpr ?_
  rintro ⟨-, ⟨bottom, -⟩ | ⟨bottom, -⟩⟩
  · cases bottom
  · cases bottom

/-- With the tip at height 100, a call takes the genesis block. With the tip at height 400 and a lock
at height 5, it takes a block at height 1. -/
theorem promised_blocks_pruned : (∃ storage, Takes (regtestParams fun _ => .zero).consensus
        (fillFile 0 ++ [.setChain (plainChain 100 (by decide))]) storage 100 0 ∧
      Promised storage.chain (lockHeights storage.blockman.mPruneLocks) 0) ∧
    ∃ storage, Takes (regtestParams fun _ => .zero).consensus
        (fillFile 1 ++ [.setChain (plainChain 400 (by decide)), .updatePruneLock "index" 5])
        storage 1 1 ∧
      Promised storage.chain (lockHeights storage.blockman.mPruneLocks) 1 := by
  constructor
  · have taken := takes_of_prunable (regtestParams fun _ => .zero).consensus
      (plainChain 100 (by decide)) ∅ (le_refl 0) (by decide)
      ⟨by decide, by decide, by decide, by decide⟩ [] rfl
    exact ⟨_, taken, .inl (by decide)⟩
  have taken := takes_of_prunable (regtestParams fun _ => .zero).consensus
    (plainChain 400 (by decide)) (AList.insert "index" 5 ∅) zero_le_one (by decide)
    ⟨by decide, by decide, by decide, by decide⟩ [.updatePruneLock "index" 5] rfl
  exact ⟨_, taken, .inr ⟨5, by decide, by decide, by decide⟩⟩

end BlockManager

end Sharecoin.Node
