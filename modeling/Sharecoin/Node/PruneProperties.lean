import Sharecoin.Chain.Ancestors
import Sharecoin.Node.BlockStorage
import Sharecoin.Validation.ChainstateProperties

/-! Which blocks pruning can take. A file records the range of the heights written to it, every
block with data lies in the range of its file, and only files within the limits of a call go, so
a call takes only blocks within its limits. -/

set_option autoImplicit false

namespace Sharecoin.Node

/-! ## What a file records -/

/-- A block of this height was added to the file. -/
def CBlockFileInfo.Covers (info : CBlockFileInfo) (height : Nat) : Prop :=
  0 < info.nBlocks ∧ info.nHeightFirst ≤ height ∧ height ≤ info.nHeightLast

theorem CBlockFileInfo.covers_addBlock (info : CBlockFileInfo) (height time : Nat) :
    (info.addBlock height time).Covers height := by
  refine ⟨Nat.succ_pos _, ?_, ?_⟩ <;> simp only [addBlock] <;> split <;> omega

theorem CBlockFileInfo.Covers.addBlock {info : CBlockFileInfo} {height : Nat}
    (covers : info.Covers height) (other time : Nat) : (info.addBlock other time).Covers height := by
  obtain ⟨blocks, first, last⟩ := covers
  refine ⟨Nat.succ_pos _, ?_, ?_⟩ <;> simp only [CBlockFileInfo.addBlock] <;> split <;> omega

variable {last : BlockManager} {nFile : Nat} (entry : CBlockIndex) {range : Int × Int}
  {limit lastPrune : Int} {opts : BlockManagerOpts}

namespace BlockManager

variable {blockman after : BlockManager} {change : CBlockFileInfo → CBlockFileInfo} {key : Uint256}

def Records (blockman : BlockManager) (nFile height : Nat) : Prop :=
  ∃ info, blockman.mBlockfileInfo[nFile]? = some info ∧ info.Covers height

/-- Every file still records what it did. -/
def FilesGrow (blockman after : BlockManager) : Prop :=
  ∀ nFile height, blockman.Records nFile height → after.Records nFile height

theorem FilesGrow.trans (first : FilesGrow blockman after) (second : FilesGrow after last) : FilesGrow blockman last :=
  fun nFile height records => second nFile height (first nFile height records)

theorem filesGrow_of_same (same : after.mBlockfileInfo = blockman.mBlockfileInfo) : FilesGrow blockman after := by
  rintro nFile height ⟨info, found, covers⟩
  exact ⟨info, same ▸ found, covers⟩

theorem filesGrow_changeInfo (grows : ∀ info height, info.Covers height → (change info).Covers height) (nFile : Nat) :
    FilesGrow blockman (blockman.changeInfo nFile change) := by
  rintro other height ⟨info, found, covers⟩
  rw [Records, changeInfo]
  dsimp only
  rw [List.getElem?_modify, found]
  by_cases here : nFile = other
  · exact ⟨change info, by simp [here], grows info height covers⟩
  · exact ⟨info, by simp [here], covers⟩

theorem records_changeInfo {height : Nat}
    (covers : ∀ info, (change info).Covers height) (reserved : nFile < blockman.mBlockfileInfo.length) :
    (blockman.changeInfo nFile change).Records nFile height := by
  refine ⟨change (blockman.mBlockfileInfo[nFile]), ?_, covers _⟩
  rw [changeInfo]
  dsimp only
  rw [List.getElem?_modify, List.getElem?_eq_getElem reserved]
  simp

variable (blockman) (cursor : BlockfileCursor) (type : BlockfileType)

theorem lookup_pruneOneBlockFile (fileNumber : Nat) (key : Uint256) :
    (blockman.pruneOneBlockFile fileNumber).mBlockIndex.lookup key = (blockman.mBlockIndex.lookup key).map fun entry =>
        if entry.nFile = (fileNumber : Int) then clearData entry else entry :=
  lookup_mapEntries _ _ _

theorem filesGrow_setCursor : FilesGrow blockman (blockman.setCursor cursor type) := by
  cases type <;> exact filesGrow_of_same rfl

theorem length_setCursor : (blockman.setCursor cursor type).mBlockfileInfo = blockman.mBlockfileInfo := by
  cases type <;> rfl

theorem setCursor_index : (blockman.setCursor cursor type).mBlockIndex = blockman.mBlockIndex := by
  cases type <;> rfl

theorem filesGrow_addToFile (nFile nAddSize nHeight nTime : Nat) :
    FilesGrow blockman (blockman.addToFile nFile nAddSize nHeight nTime) := by
  refine filesGrow_changeInfo (fun info height covers => ?_) nFile
  exact covers.addBlock nHeight nTime

theorem filesGrow_reserveFile (nFile : Nat) : FilesGrow blockman (blockman.reserveFile nFile) := by
  rintro other height ⟨info, found, covers⟩
  exact ⟨info, List.getElem?_append_left (List.getElem?_eq_some_iff.mp found).1 ▸ found, covers⟩

theorem lt_length_reserveFile (nFile : Nat) : nFile < (blockman.reserveFile nFile).mBlockfileInfo.length := by
  rw [reserveFile]
  dsimp only
  rw [List.length_append, List.length_replicate]
  omega

variable {blockman}

/-! ## Room in a file -/

theorem haveData_clearData : (clearData entry).haveData = false := by
  have cleared : ∀ status : UInt32, status &&& ~~~BLOCK_HAVE_DATA &&& ~~~BLOCK_HAVE_UNDO &&& BLOCK_HAVE_DATA = 0 := by
    intro status
    have none : ~~~BLOCK_HAVE_DATA &&& ~~~BLOCK_HAVE_UNDO &&& BLOCK_HAVE_DATA = 0 := by decide
    rw [UInt32.and_assoc, UInt32.and_assoc, ← UInt32.and_assoc (~~~BLOCK_HAVE_DATA), none, UInt32.and_zero]
  simp [CBlockIndex.haveData, clearData, cleared]

theorem haveData_or_undo (nUndoPos : UInt32) :
    CBlockIndex.haveData { entry with nUndoPos, nStatus := entry.nStatus ||| BLOCK_HAVE_UNDO } =
      entry.haveData := by
  have other : BLOCK_HAVE_UNDO &&& BLOCK_HAVE_DATA = 0 := by decide
  simp only [CBlockIndex.haveData, Lib.uint32_or_and, other, UInt32.or_zero]

theorem nFile_raiseValidity (nUpTo : UInt32) : (entry.raiseValidity nUpTo).nFile = entry.nFile := by
  unfold CBlockIndex.raiseValidity
  split
  · rfl
  · split <;> rfl

theorem nextFile_spec (maxBlockfileSize nAddSize : Nat) (type : BlockfileType) (turns : Nat)
    (reserved : nFile < blockman.mBlockfileInfo.length) :
    let next := nextFile maxBlockfileSize nAddSize type turns blockman nFile
    FilesGrow blockman next.1 ∧ next.2 < next.1.mBlockfileInfo.length ∧ next.1.mBlockIndex = blockman.mBlockIndex := by
  induction turns generalizing blockman nFile with
  | zero => exact ⟨filesGrow_of_same rfl, reserved, rfl⟩
  | succ turns ih =>
    unfold nextFile
    split
    · have later := ih (lt_length_reserveFile (blockman.setCursor { fileNum := blockman.maxBlockfileNum + 1 } type)
        (blockman.maxBlockfileNum + 1))
      refine ⟨(filesGrow_setCursor _ _ _).trans ((filesGrow_reserveFile _ _).trans later.1),
        later.2.1, later.2.2.trans ?_⟩
      cases type <;> rfl
    · exact ⟨filesGrow_of_same rfl, reserved, rfl⟩

theorem findNextBlockPos_spec (opts : BlockManagerOpts) (blockman : BlockManager) (nAddSize nHeight nTime : Nat)
    (allocation : Allocation) : let next := findNextBlockPos opts blockman nAddSize nHeight nTime allocation
    FilesGrow blockman next.1 ∧ next.1.mBlockIndex = blockman.mBlockIndex ∧
      ∀ pos, next.2 = some pos → 0 ≤ pos.nFile ∧ next.1.Records pos.nFile.toNat nHeight := by
  unfold findNextBlockPos
  dsimp only
  generalize blockman.blockfileTypeForHeight nHeight = type
  have started : FilesGrow blockman (blockman.initCursor type) ∧
      (blockman.initCursor type).mBlockIndex = blockman.mBlockIndex := by
    unfold initCursor
    split
    · exact ⟨filesGrow_of_same rfl, rfl⟩
    · exact ⟨filesGrow_setCursor _ _ _, setCursor_index _ _ _⟩
  generalize blockman.initCursor type = start at started ⊢
  generalize ((start.cursor type).getD {}).fileNum = lastBlockfile
  have turned := nextFile_spec (maxBlockfileSize opts nAddSize) nAddSize type
    ((start.reserveFile lastBlockfile).mBlockfileInfo.length + 1)
    (lt_length_reserveFile start lastBlockfile)
  generalize nextFile (maxBlockfileSize opts nAddSize) nAddSize type
    ((start.reserveFile lastBlockfile).mBlockfileInfo.length + 1) (start.reserveFile lastBlockfile)
    lastBlockfile = next at turned ⊢
  have moved : ∀ left : BlockManager, left = (if next.2 ≠ lastBlockfile then next.1.setCursor { fileNum := next.2 } type
        else next.1) →
      FilesGrow blockman left ∧ left.mBlockIndex = blockman.mBlockIndex ∧ next.2 < left.mBlockfileInfo.length := by
    rintro left rfl
    have grow := started.1.trans ((filesGrow_reserveFile _ _).trans turned.1)
    have index := turned.2.2.trans started.2
    split
    · exact ⟨grow.trans (filesGrow_setCursor _ _ _), (setCursor_index _ _ _).trans index,
        (length_setCursor _ _ _).symm ▸ turned.2.1⟩
    · exact ⟨grow, index, turned.2.1⟩
  obtain ⟨grow, index, reserved⟩ := moved _ rfl
  have added := grow.trans (filesGrow_addToFile _ next.2 nAddSize nHeight nTime)
  split
  · exact ⟨added, index, by simp⟩
  · refine ⟨added, index, fun pos same => ?_⟩
    cases same
    exact ⟨Int.natCast_nonneg _, records_changeInfo (fun info => info.covers_addBlock nHeight nTime) reserved⟩

/-! ## The invariant -/

/-- Heights are not negative, and the file of every block with data records its height. -/
structure Consistent (blockman : BlockManager) : Prop where
  heights : ∀ key entry, blockman.mBlockIndex.lookup key = some entry → 0 ≤ entry.nHeight ∧ entry.nHeight < 2 ^ 31
  files : ∀ key entry, blockman.mBlockIndex.lookup key = some entry → entry.haveData = true →
    0 ≤ entry.nFile ∧ blockman.Records entry.nFile.toNat entry.nHeight.toNat

section

variable (consistent : Consistent blockman)

include consistent

theorem Consistent.grow (same : after.mBlockIndex = blockman.mBlockIndex) (grow : FilesGrow blockman after) :
    Consistent after where
  heights key entry found := consistent.heights key entry (same ▸ found)
  files key entry found data := by
    obtain ⟨nonneg, records⟩ := consistent.files key entry (same ▸ found) data
    exact ⟨nonneg, grow _ _ records⟩

theorem Consistent.of_entries (comes : ∀ key entry, after.mBlockIndex.lookup key = some entry →
      ∃ before, blockman.mBlockIndex.lookup key = some before ∧ entry.nHeight = before.nHeight ∧
        (entry.haveData = true → 0 ≤ entry.nFile ∧ after.Records entry.nFile.toNat entry.nHeight.toNat)) :
    Consistent after where
  heights key entry found := by
    obtain ⟨before, known, height, -⟩ := comes key entry found
    exact height ▸ consistent.heights key before known
  files key entry found := by
    obtain ⟨-, -, -, records⟩ := comes key entry found
    exact records

theorem Consistent.storePosition (params : Params)
    (nTx : UInt32) {pos : Chainstate.FlatFilePos} (nonneg : 0 ≤ pos.nFile) {entry : CBlockIndex}
    (found : blockman.mBlockIndex.lookup key = some entry)
    (records : blockman.Records pos.nFile.toNat entry.nHeight.toNat) :
    Consistent (blockman.storePosition params key nTx pos) := by
  have height (before : CBlockIndex) :
      (Chainstate.withData params blockman.mBlockIndex nTx pos before).nHeight = before.nHeight :=
    CBlockIndex.nHeight_of_frame (CBlockIndex.frame_withData params _ nTx pos before)
  have file (before : CBlockIndex) :
      (Chainstate.withData params blockman.mBlockIndex nTx pos before).nFile = pos.nFile :=
    nFile_raiseValidity _ _
  refine consistent.of_entries fun other entry listed => ?_
  rw [BlockManager.storePosition, BlockMap.modify] at listed
  dsimp only at listed
  rw [lookup_mapEntries] at listed
  obtain ⟨before, known, rfl⟩ := Option.map_eq_some_iff.mp listed
  refine ⟨before, known, ?_⟩
  split
  next same =>
    subst same
    cases known.symm.trans found
    rw [height, file]
    exact ⟨rfl, fun _ => ⟨nonneg, records⟩⟩
  next => exact ⟨rfl, consistent.files other before known⟩

theorem Consistent.writeBlock (opts : BlockManagerOpts) (params : Params) (key : Uint256) (blockSize : Nat)
    (nTx : UInt32) (allocation : Allocation) (written : Bool) :
    Consistent (blockman.writeBlock opts params key blockSize nTx allocation written) := by
  unfold BlockManager.writeBlock
  cases found : blockman.mBlockIndex.lookup key with
  | none => exact consistent
  | some entry =>
    obtain ⟨grow, index, position⟩ := findNextBlockPos_spec opts blockman
      (blockSize + STORAGE_HEADER_BYTES) entry.nHeight.toNat entry.nTime.toNat allocation
    dsimp only
    generalize findNextBlockPos opts blockman (blockSize + STORAGE_HEADER_BYTES)
      entry.nHeight.toNat entry.nTime.toNat allocation = next at grow index position ⊢
    cases placed : next.2 with
    | none => exact consistent.grow index grow
    | some pos =>
      obtain ⟨nonneg, records⟩ := position pos placed
      cases written with
      | false => exact consistent.grow index grow
      | true => exact (consistent.grow index grow).storePosition params nTx nonneg (index ▸ found) records

theorem Consistent.importBlock (params : Params) (key : Uint256) (blockSize : Nat) (nTx : UInt32) (nFile nPos : Nat) :
    Consistent (blockman.importBlock params key blockSize nTx nFile nPos) := by
  unfold BlockManager.importBlock
  cases found : blockman.mBlockIndex.lookup key with
  | none => exact consistent
  | some entry =>
    have updated : let after := blockman.updateBlockInfo blockSize entry.nHeight.toNat entry.nTime.toNat nFile nPos
        FilesGrow blockman after ∧ after.mBlockIndex = blockman.mBlockIndex ∧
          after.Records nFile entry.nHeight.toNat := by
      unfold updateBlockInfo
      dsimp only
      refine ⟨?_, ?_, records_changeInfo (fun info => ?_) (lt_length_reserveFile _ _)⟩
      · refine FilesGrow.trans (FilesGrow.trans ?_ (filesGrow_reserveFile _ nFile))
          (filesGrow_changeInfo (fun info height covers => ?_) _)
        · split
          · exact filesGrow_setCursor _ _ _
          · exact filesGrow_of_same rfl
        · exact covers.addBlock entry.nHeight.toNat entry.nTime.toNat
      · rw [changeInfo, reserveFile]
        dsimp only
        split
        · exact setCursor_index _ _ _
        · rfl
      · exact info.covers_addBlock entry.nHeight.toNat entry.nTime.toNat
    obtain ⟨grow, index, records⟩ := updated
    exact (consistent.grow index grow).storePosition params nTx (Int.natCast_nonneg nFile) (index ▸ found) records

theorem Consistent.modify {change : CBlockIndex → CBlockIndex}
    (same : ∀ entry, (change entry).nHeight = entry.nHeight ∧ (change entry).nFile = entry.nFile ∧
      (change entry).haveData = entry.haveData) :
    Consistent { blockman with mBlockIndex := blockman.mBlockIndex.modify key change } := by
  refine consistent.of_entries fun other entry listed => ?_
  dsimp only at listed
  rw [BlockMap.modify, lookup_mapEntries] at listed
  obtain ⟨before, known, rfl⟩ := Option.map_eq_some_iff.mp listed
  have old := consistent.files other before known
  refine ⟨before, known, ?_⟩
  split
  · obtain ⟨height, file, data⟩ := same before
    rw [height, file, data]
    exact ⟨rfl, old⟩
  · exact ⟨rfl, old⟩

theorem Consistent.writeBlockUndo (opts : BlockManagerOpts)
    (key : Uint256) (undoSize : Nat) (allocation : Allocation) (written : Bool) :
    Consistent (blockman.writeBlockUndo opts key undoSize allocation written) := by
  unfold BlockManager.writeBlockUndo
  split
  · exact consistent
  next entry found =>
    dsimp only
    split
    · exact consistent
    next cursor known =>
      split
      · exact consistent
      have sized : Consistent (blockman.changeInfo entry.nFile.toNat fun info =>
          { info with nUndoSize := info.nUndoSize + (undoSize + UNDO_DATA_DISK_OVERHEAD) }) := by
        refine consistent.grow rfl (filesGrow_changeInfo (fun info height covers => ?_) _)
        exact covers
      split
      · exact sized
      have noted : Consistent (noteAllocation opts (blockman.changeInfo entry.nFile.toNat fun info => { info with
            nUndoSize := info.nUndoSize + (undoSize + UNDO_DATA_DISK_OVERHEAD) }) allocation) :=
        sized.grow rfl (filesGrow_of_same rfl)
      split
      · refine Consistent.modify ?_ fun entry => ⟨rfl, rfl, haveData_or_undo entry _⟩
        split
        · exact noted.grow (setCursor_index _ _ _) (filesGrow_setCursor _ _ _)
        · exact noted
      · exact noted

/-! ## Pruning a file -/

theorem Consistent.pruneOneBlockFile (fileNumber : Nat) : Consistent (blockman.pruneOneBlockFile fileNumber) := by
  refine consistent.of_entries fun key entry listed => ?_
  rw [lookup_pruneOneBlockFile] at listed
  obtain ⟨before, known, rfl⟩ := Option.map_eq_some_iff.mp listed
  refine ⟨before, known, ?_⟩
  split
  · refine ⟨rfl, fun data => ?_⟩
    rw [haveData_clearData] at data
    cases data
  next elsewhere =>
    refine ⟨rfl, fun data => ?_⟩
    obtain ⟨nonneg, info, found, covers⟩ := consistent.files key before known data
    refine ⟨nonneg, info, ?_, covers⟩
    rw [BlockManager.pruneOneBlockFile]
    dsimp only
    rw [List.getElem?_set_ne (by omega), found]

end

/-- Every block with data keeps its entry, or has a height within the range. -/
def PrunesWithin (range : Int × Int) (blockman after : BlockManager) : Prop :=
  ∀ key entry, blockman.mBlockIndex.lookup key = some entry → entry.haveData = true →
    after.mBlockIndex.lookup key = some entry ∨ range.1 ≤ entry.nHeight ∧ entry.nHeight ≤ range.2

theorem PrunesWithin.refl (range : Int × Int) (blockman : BlockManager) :
    PrunesWithin range blockman blockman := fun _ _ found _ => .inl found

theorem PrunesWithin.trans (first : PrunesWithin range blockman after)
    (second : PrunesWithin range after last) : PrunesWithin range blockman last := by
  intro key entry found data
  rcases first key entry found data with kept | within
  · exact second key entry kept data
  · exact .inr within

theorem castUInt32_toNat {value : Int} (nonneg : 0 ≤ value) (small : value < 2 ^ 32) :
    ((castUInt32 value).toNat : Int) = value := by
  rw [castUInt32, Int.emod_eq_of_lt nonneg small, UInt32.toNat_ofNat']
  omega

/-- Both ends of a range are heights. -/
def InRange (range : Int × Int) : Prop := (0 ≤ range.1 ∧ range.1 < 2 ^ 31) ∧ 0 ≤ range.2 ∧ range.2 < 2 ^ 31

section

variable (consistent : Consistent blockman) (inRange : InRange range)

include consistent inRange

theorem prunesWithin_pruneOneBlockFile {fileNumber : Nat}
    (allowed : outOfRange (blockman.fileInfo fileNumber) range = false) :
    PrunesWithin range blockman (blockman.pruneOneBlockFile fileNumber) := by
  intro key entry found data
  obtain ⟨nonneg, info, listed, -, first, last⟩ := consistent.files key entry found data
  have height := (consistent.heights key entry found).1
  rw [lookup_pruneOneBlockFile, found, Option.map_some]
  by_cases here : entry.nFile = fileNumber
  · right
    have file : blockman.fileInfo fileNumber = info := by
      rw [here, Int.toNat_natCast] at listed
      rw [fileInfo, List.getD_eq_getElem?_getD, listed, Option.getD_some]
    obtain ⟨⟨startLow, startHigh⟩, endLow, endHigh⟩ := inRange
    have startCast := castUInt32_toNat startLow (by omega)
    have endCast := castUInt32_toNat endLow (by omega)
    simp only [outOfRange, file, Bool.or_eq_false_iff, decide_eq_false_iff_not, not_lt, gt_iff_lt] at allowed
    omega
  · left
    rw [if_neg here]

/-! ## The loops -/

/-- What pruning does to consistent files. -/
structure Prunes (range : Int × Int) (blockman after : BlockManager) : Prop where
  consistent : Consistent after
  within : PrunesWithin range blockman after

theorem Prunes.after_file {fileNumber : Nat} (allowed : outOfRange (blockman.fileInfo fileNumber) range = false)
    (later : Prunes range (blockman.pruneOneBlockFile fileNumber) after) : Prunes range blockman after :=
  ⟨later.consistent, (prunesWithin_pruneOneBlockFile consistent inRange allowed).trans later.within⟩

theorem prunes_manual (files : List Nat)
    (found : List Nat) : Prunes range blockman (files.foldl (pruneManualTurn range) (blockman, found)).1 := by
  induction files generalizing blockman found with
  | nil => exact ⟨consistent, .refl _ _⟩
  | cons fileNumber files ih =>
    rw [List.foldl_cons, pruneManualTurn]
    dsimp only
    split
    · exact ih consistent found
    next prunes =>
      rw [not_or, Bool.not_eq_true] at prunes
      exact .after_file consistent inRange prunes.2 (ih (consistent.pruneOneBlockFile fileNumber) _)

theorem prunes_turns (target nBuffer : Nat) (files : List Nat) (nCurrentUsage : Nat) (found : List Nat) :
    Prunes range blockman (pruneTurns range target nBuffer files nCurrentUsage (blockman, found)).1 := by
  induction files generalizing blockman nCurrentUsage found with
  | nil => exact ⟨consistent, .refl _ _⟩
  | cons fileNumber files ih =>
    unfold pruneTurns
    dsimp only
    split
    · exact ih consistent nCurrentUsage found
    split
    · exact ⟨consistent, .refl _ _⟩
    split
    · exact ih consistent nCurrentUsage found
    next allowed =>
      rw [Bool.not_eq_true] at allowed
      exact .after_file consistent inRange allowed (ih (consistent.pruneOneBlockFile fileNumber) _ _)

end

/-! ## The limits of a call -/

theorem inRange_getPruneRange (chain : PrunedChain) (positive : 0 < limit)
    (small : limit < 2 ^ 31) : InRange (getPruneRange chain limit) := by
  obtain ⟨low, high⟩ := chain.height_range
  unfold getPruneRange
  split
  · exact ⟨⟨by decide, by decide⟩, by decide, by decide⟩
  dsimp only
  refine ⟨?_, by dsimp only; omega, by dsimp only; omega⟩
  split
  next base known =>
    have := chain.base_range base known
    split <;> omega
  · omega

theorem limitByLock_pos (positive : 0 < lastPrune) (heightFirst : Int) : 0 < limitByLock lastPrune heightFirst := by
  unfold limitByLock
  split <;> omega

theorem foldl_limitByLock_pos (positive : 0 < lastPrune) (locks : List Int) :
    0 < locks.foldl limitByLock lastPrune := by
  induction locks generalizing lastPrune with
  | nil => exact positive
  | cons lock locks ih => exact ih (limitByLock_pos positive lock)

theorem foldl_limitByLock_le (lastPrune : Int) (locks : List Int) :
    locks.foldl limitByLock lastPrune ≤ max 1 lastPrune := by
  induction locks generalizing lastPrune with
  | nil => exact le_max_right _ _
  | cons lock locks ih =>
    refine (ih (limitByLock lastPrune lock)).trans ?_
    unfold limitByLock
    split <;> omega

/-- The heights at which a call can take blocks. -/
def Prunable (chain : PrunedChain) (locks : List Int) (height : Int) : Prop :=
  0 ≤ chain.height ∧ 0 < locks.foldl limitByLock chain.height ∧
    (getPruneRange chain (locks.foldl limitByLock chain.height)).1 ≤ height ∧
    height ≤ (getPruneRange chain (locks.foldl limitByLock chain.height)).2

def lockHeights (locks : AList fun _ : String => Int) : List Int := locks.entries.map Sigma.snd

/-- The files stay consistent, and blocks go only at heights where a call can take them. -/
structure PrunesAllowed (chain : PrunedChain) (blockman after : BlockManager) : Prop where
  consistent : Consistent after
  allowed : ∀ key entry, blockman.mBlockIndex.lookup key = some entry → entry.haveData = true →
    after.mBlockIndex.lookup key = some entry ∨ Prunable chain (lockHeights blockman.mPruneLocks) entry.nHeight

variable {chain : PrunedChain} {params : Params}

theorem PrunesAllowed.of_same (consistent : Consistent blockman) (index : after.mBlockIndex = blockman.mBlockIndex)
    (files : after.mBlockfileInfo = blockman.mBlockfileInfo) : PrunesAllowed chain blockman after where
  consistent := consistent.grow index (filesGrow_of_same files)
  allowed _ _ found _ := .inl (index ▸ found)

theorem PrunesAllowed.congr (prunes : PrunesAllowed chain blockman after) (index : last.mBlockIndex = after.mBlockIndex)
    (files : last.mBlockfileInfo = after.mBlockfileInfo) : PrunesAllowed chain blockman last where
  consistent := prunes.consistent.grow index (filesGrow_of_same files)
  allowed := index ▸ prunes.allowed

theorem Prunes.allowed (prunes : Prunes (getPruneRange chain limit) blockman after)
    (started : 0 ≤ chain.height) (positive : 0 < limit) (le : limit ≤ blockman.lastPrune chain) :
    PrunesAllowed chain blockman after where
  consistent := prunes.consistent
  allowed key entry found data := by
    obtain ⟨start, stop⟩ : (getPruneRange chain limit).1 = (getPruneRange chain (blockman.lastPrune chain)).1 ∧
        (getPruneRange chain limit).2 ≤ (getPruneRange chain (blockman.lastPrune chain)).2 := by
      unfold getPruneRange
      split
      · exact ⟨rfl, le_refl _⟩
      · exact ⟨rfl, min_le_min_right _ le⟩
    refine (prunes.within key entry found data).imp_right fun within => ?_
    exact ⟨started, positive.trans_le le, start ▸ within.1, within.2.trans stop⟩

theorem lastPrune_lt (blockman : BlockManager) (chain : PrunedChain) : blockman.lastPrune chain < 2 ^ 31 := by
  have high := chain.height_range.2
  exact (foldl_limitByLock_le _ _).trans_lt (by omega)

section

variable (consistent : Consistent blockman)

include consistent

theorem findFilesToPruneManual_allowed (le : limit ≤ blockman.lastPrune chain) {found : BlockManager × List Nat}
    (searched : findFilesToPruneManual opts blockman limit chain = some found) :
    PrunesAllowed chain blockman found.1 := by
  have small := lastPrune_lt blockman chain
  unfold findFilesToPruneManual at searched
  split at searched
  · cases searched
  next asserted =>
    rw [not_not] at asserted
    split at searched
    · obtain rfl := Option.some.inj searched
      exact .of_same consistent rfl rfl
    next started =>
      obtain rfl := Option.some.inj searched
      have prunes := prunes_manual consistent (inRange_getPruneRange chain asserted.2 (by omega))
        (List.range blockman.maxBlockfileNum) []
      exact prunes.allowed (not_lt.mp started) asserted.2 le

theorem findFilesToPrune_allowed (opts : BlockManagerOpts) (sync : SyncState) :
    PrunesAllowed chain blockman (findFilesToPrune opts blockman (blockman.lastPrune chain) chain sync).1 := by
  generalize searched : findFilesToPrune opts blockman (blockman.lastPrune chain) chain sync = found
  unfold findFilesToPrune at searched
  extract_lets numChainstates target range nCurrentUsage nBuffer waiting at searched
  split at searched
  · exact searched ▸ .of_same consistent rfl rfl
  split at searched
  · exact searched ▸ .of_same consistent rfl rfl
  next started late =>
    have tip : 0 < chain.height := by omega
    have positive : 0 < blockman.lastPrune chain := foldl_limitByLock_pos tip _
    split at searched
    · have prunes := prunes_turns consistent
        (inRange_getPruneRange chain positive (lastPrune_lt blockman chain)) target waiting
        (List.range blockman.maxBlockfileNum) nCurrentUsage []
      exact searched ▸ prunes.allowed tip.le positive (le_refl _)
    · exact searched ▸ .of_same consistent rfl rfl

theorem flushStateToDisk_allowed {nManualPruneHeight : Int} {sync : SyncState}
    (flushed : flushStateToDisk opts blockman chain nManualPruneHeight sync = some after) :
    PrunesAllowed chain blockman after := by
  unfold flushStateToDisk at flushed
  split at flushed
  next enabled =>
    obtain ⟨found, searched, rfl⟩ := Option.map_eq_some_iff.mp flushed
    unfold pruneFiles at searched
    dsimp only at searched
    split at searched
    · exact (findFilesToPruneManual_allowed consistent (min_le_left _ _) searched).congr rfl rfl
    · obtain rfl := Option.some.inj searched
      exact (findFilesToPrune_allowed consistent opts sync).congr rfl rfl
  · obtain rfl := Option.some.inj flushed
    exact .of_same consistent rfl rfl

end

/-! ## Runs -/

theorem consistent_empty : Consistent Storage.empty.blockman where
  heights key entry found := by simp [Storage.empty] at found
  files key entry found := by simp [Storage.empty] at found

theorem Consistent.header (consistent : Consistent blockman) {entry : CBlockIndex}
    (bare : entry.haveData = false) (height : 0 ≤ entry.nHeight ∧ entry.nHeight < 2 ^ 31) :
    Consistent { blockman with mBlockIndex := blockman.mBlockIndex.insert key entry } where
  heights other before found := by
    rcases lookup_insert_cases found with ⟨-, rfl⟩ | old
    · exact height
    · exact consistent.heights other before old
  files other before found data := by
    rcases lookup_insert_cases found with ⟨-, rfl⟩ | old
    · rw [bare] at data
      cases data
    · exact consistent.files other before old data

theorem consistent_step {storage next : Storage} {event : Event} (consistent : Consistent storage.blockman)
    (stepped : storage.step opts params event = some next) : Consistent next.blockman := by
  cases event with
  | header key entry =>
    unfold Storage.step at stepped
    dsimp only at stepped
    split at stepped
    · cases stepped
    next accepted =>
      simp only [not_or, not_lt, ge_iff_le, not_le, Bool.not_eq_true] at accepted
      obtain ⟨-, bare, low, high⟩ := accepted
      obtain rfl := Option.some.inj stepped
      exact consistent.header bare ⟨low, high⟩
  | writeBlock key blockSize nTx allocation written =>
    obtain rfl := Option.some.inj stepped
    exact consistent.writeBlock opts params key blockSize nTx allocation written
  | importBlock key blockSize nTx nFile nPos =>
    obtain rfl := Option.some.inj stepped
    exact consistent.importBlock params key blockSize nTx nFile nPos
  | writeBlockUndo key undoSize allocation written =>
    obtain rfl := Option.some.inj stepped
    exact consistent.writeBlockUndo opts key undoSize allocation written
  | setChain chain =>
    obtain rfl := Option.some.inj stepped
    exact consistent
  | setSnapshotHeight _ | setBlockfilesIndexed _ | updatePruneLock _ _ | deletePruneLock _ =>
    obtain rfl := Option.some.inj stepped
    exact consistent.grow rfl (filesGrow_of_same rfl)
  | flush nManualPruneHeight sync =>
    obtain ⟨flushed, done, same⟩ := Option.bind_eq_some_iff.mp stepped
    obtain rfl := Option.some.inj same
    exact (flushStateToDisk_allowed consistent done).consistent

theorem consistent_run {storage last : Storage} {events : List Event}
    (consistent : Consistent storage.blockman) (ran : storage.run opts params events = some last) :
    Consistent last.blockman := by
  induction events generalizing storage with
  | nil => exact Option.some.inj ran ▸ consistent
  | cons event events ih =>
    obtain ⟨next, stepped, rest⟩ := Option.bind_eq_some_iff.mp ran
    exact ih (consistent_step consistent stepped) rest

end BlockManager

end Sharecoin.Node
