import Sharecoin.Validation.Chainstate

/-! What the operations of the chainstate leave alone: every one of them changes entries in
place, so the tree of headers stays, and taking in block data marks nothing as failed. -/

set_option autoImplicit false

namespace Sharecoin

open Lib CBlockIndex

/-! ## Entries that keep a part -/

theorem lookup_mapEntries (change : Uint256 → CBlockIndex → CBlockIndex) (blocks : BlockMap)
    (key : Uint256) : (blocks.mapEntries change).lookup key = (blocks.lookup key).map (change key) :=
  List.dlookup_map₂ key

/-- Both indexes hold the same keys, and their entries agree in what is viewed. -/
def Keeps {α : Type} (view : CBlockIndex → α) (blocks after : BlockMap) : Prop :=
  ∀ key, (after.lookup key).map view = (blocks.lookup key).map view

variable {α : Type} {view : CBlockIndex → α} {blocks after : BlockMap}

namespace Keeps

variable {middle : BlockMap}

theorem refl (view : CBlockIndex → α) (blocks : BlockMap) : Keeps view blocks blocks :=
  fun _ => rfl

theorem trans (first : Keeps view blocks middle) (second : Keeps view middle after) : Keeps view blocks after :=
  fun key => (second key).trans (first key)

section

variable (kept : Keeps view blocks after) {key : Uint256}

include kept

theorem symm : Keeps view after blocks :=
  fun key => (kept key).symm

theorem found {entry : CBlockIndex} (listed : blocks.lookup key = some entry) :
    ∃ changed, after.lookup key = some changed ∧ view changed = view entry := by
  have same := kept key
  rw [listed, Option.map_some] at same
  exact Option.map_eq_some_iff.mp same

theorem absent_iff : after.lookup key = none ↔ blocks.lookup key = none := by
  have same := congrArg Option.isNone (kept key)
  rw [Option.isNone_map, Option.isNone_map] at same
  rw [← Option.isNone_iff_eq_none, ← Option.isNone_iff_eq_none, same]

end

theorem mapEntries {change : Uint256 → CBlockIndex → CBlockIndex}
    (same : ∀ key entry, view (change key entry) = view entry) (blocks : BlockMap) :
    Keeps view blocks (blocks.mapEntries change) := by
  intro key
  rw [lookup_mapEntries, Option.map_map]
  exact Option.map_congr fun entry _ => same key entry

end Keeps

namespace CBlockIndex

/-- The part of an entry that is fixed once its header is in the index. -/
def frame (entry : CBlockIndex) : CBlockIndex :=
  { entry with
    nFile := 0
    nDataPos := 0
    nUndoPos := 0
    nTx := 0
    mChainTxCount := 0
    nStatus := 0
    nSequenceId := 0 }

section Frame

variable {entry other : CBlockIndex} (same : entry.frame = other.frame)

include same

theorem pprev_of_frame : entry.pprev = other.pprev := (congrArg pprev same :)

theorem pskip_of_frame : entry.pskip = other.pskip := (congrArg pskip same :)

theorem nHeight_of_frame : entry.nHeight = other.nHeight := (congrArg nHeight same :)

theorem nTime_of_frame : entry.nTime = other.nTime := (congrArg nTime same :)

end Frame

theorem frame_raiseValidity (entry : CBlockIndex) (nUpTo : UInt32) :
    (entry.raiseValidity nUpTo).frame = entry.frame := by
  unfold raiseValidity
  split
  · rfl
  · split <;> rfl

theorem failed_or {status flags : UInt32} (other : flags &&& BLOCK_FAILED_VALID = 0) :
    (status ||| flags) &&& BLOCK_FAILED_VALID = status &&& BLOCK_FAILED_VALID := by
  rw [uint32_or_and, other, UInt32.or_zero]

theorem failed_raiseValidity (entry : CBlockIndex) {nUpTo : UInt32}
    (other : nUpTo &&& BLOCK_FAILED_VALID = 0) : (entry.raiseValidity nUpTo).failed = entry.failed := by
  have masked : ~~~BLOCK_VALID_MASK &&& BLOCK_FAILED_VALID = BLOCK_FAILED_VALID := by decide
  unfold raiseValidity
  split
  · rfl
  · split
    · rw [failed, failed, failed_or other, UInt32.and_assoc, masked]
    · rfl

theorem failed_markFailed (entry : CBlockIndex) : entry.markFailed.failed = true := by
  rw [failed, markFailed, uint32_or_and_self]
  decide

theorem frame_withData (params : Params) (blocks : BlockMap) (nTx : UInt32) (pos : Chainstate.FlatFilePos)
    (entry : CBlockIndex) : (Chainstate.withData params blocks nTx pos entry).frame = entry.frame :=
  frame_raiseValidity _ _

theorem failed_withData (params : Params) (blocks : BlockMap) (nTx : UInt32) (pos : Chainstate.FlatFilePos)
    (entry : CBlockIndex) : (Chainstate.withData params blocks nTx pos entry).failed = entry.failed := by
  have witness : (if entry.nHeight ≥ params.segwitHeight then BLOCK_OPT_WITNESS else 0) &&&
      BLOCK_FAILED_VALID = 0 := by
    split <;> decide
  rw [Chainstate.withData, failed_raiseValidity _ (by decide), failed, failed, failed_or witness,
    failed_or (by decide)]

end CBlockIndex

/-! ## What the operations keep -/

namespace Chainstate

variable {addresses : Addresses} {params : Params} (state : Chainstate) (pindex : Uint256)

@[simp] theorem blocks_changeEntries (changed : Uint256 → CBlockIndex → Bool) (change : CBlockIndex → CBlockIndex) :
    (state.changeEntries changed change).blocks = state.blocks.mapEntries fun key entry =>
      if changed key entry then change entry else entry := rfl

theorem lookup_changeEntry (key : Uint256) (change : CBlockIndex → CBlockIndex) :
    (state.changeEntry pindex change).blocks.lookup key =
      (state.blocks.lookup key).map fun entry => if key = pindex then change entry else entry := by
  rw [changeEntry, blocks_changeEntries, lookup_mapEntries]
  simp only [beq_iff_eq]

theorem keeps_changeEntries {change : CBlockIndex → CBlockIndex}
    (same : ∀ entry, view (change entry) = view entry) (changed : Uint256 → CBlockIndex → Bool) :
    Keeps view state.blocks (state.changeEntries changed change).blocks := by
  rw [blocks_changeEntries]
  refine Keeps.mapEntries (fun key entry => ?_) state.blocks
  split
  · exact same entry
  · rfl

theorem blocks_tryAddBlockIndexCandidate :
    (state.tryAddBlockIndexCandidate addresses pindex).blocks = state.blocks := by
  unfold tryAddBlockIndexCandidate
  split <;> rfl

theorem blocks_addUnlinkedBlock : (state.addUnlinkedBlock pindex).blocks = state.blocks := by
  unfold addUnlinkedBlock
  split
  · rfl
  · split <;> rfl

section

variable
  (same : ∀ (entry : CBlockIndex) count sequence, view { entry with mChainTxCount := count, nSequenceId := sequence } = view entry)

include same

theorem keeps_linkBlock : Keeps view state.blocks (state.linkBlock addresses pindex).blocks := by
  change Keeps view state.blocks (tryAddBlockIndexCandidate addresses _ pindex).blocks
  rw [blocks_tryAddBlockIndexCandidate]
  exact state.keeps_changeEntries (fun entry => same entry _ _) _

theorem keeps_linkBlocks (turns : Nat) (queue : List Uint256) :
    Keeps view state.blocks (linkBlocks addresses turns queue state).blocks := by
  induction turns generalizing queue state with
  | zero => exact Keeps.refl view state.blocks
  | succ turns ih =>
    cases queue with
    | nil => exact Keeps.refl view state.blocks
    | cons pindex queue => exact (state.keeps_linkBlock pindex same).trans (ih _ _)

/-- Block data changes only what neither the counters nor the data fields belong to. -/
theorem keeps_receivedBlockTransactions
    (data : ∀ blocks nTx pos entry, view (withData params blocks nTx pos entry) = view entry)
    (nTx : UInt32) (pos : FlatFilePos) :
    Keeps view state.blocks (state.receivedBlockTransactions addresses params nTx pindex pos).blocks := by
  have stored := state.keeps_changeEntries (data state.blocks nTx pos) fun key _ => key == pindex
  unfold receivedBlockTransactions
  dsimp only
  split
  · exact stored.trans (keeps_linkBlocks _ same _ _)
  split
  · exact stored
  split
  · exact stored.trans (keeps_linkBlocks _ same _ _)
  split
  · rw [blocks_addUnlinkedBlock]
    exact stored
  · exact stored

end

theorem noteBestInvalid_eq : ∃ best, state.noteBestInvalid pindex = { state with mBestInvalid := best } := by
  unfold noteBestInvalid
  split
  · split
    · exact ⟨_, rfl⟩
    · exact ⟨state.mBestInvalid, rfl⟩
  · exact ⟨_, rfl⟩

/-- Which entries an invalid chain marks: those above the invalid block. -/
theorem invalidChainFound_eq : ∃ best header,
    let chainman := (state.setBlockFailureFlags pindex).chainman
    state.invalidChainFound pindex =
      { state with mBestInvalid := best, chainman := { chainman with mBestHeader := header } } := by
  obtain ⟨best, noted⟩ := state.noteBestInvalid_eq pindex
  unfold invalidChainFound
  rw [noted]
  dsimp only
  split <;> exact ⟨_, _, rfl⟩

theorem blocks_invalidChainFound :
    (state.invalidChainFound pindex).blocks = state.blocks.mapEntries fun key entry =>
      if key != pindex && descendsFrom state.blocks key pindex then entry.markFailed else entry := by
  obtain ⟨_, _, same⟩ := state.invalidChainFound_eq pindex
  rw [same]
  rfl

theorem keeps_invalidChainFound (same : ∀ entry : CBlockIndex, view entry.markFailed = view entry) :
    Keeps view state.blocks (state.invalidChainFound pindex).blocks := by
  rw [blocks_invalidChainFound]
  refine Keeps.mapEntries (fun key entry => ?_) state.blocks
  split
  · exact same entry
  · rfl

theorem invalidBlockFound_mutated : state.invalidBlockFound pindex .blockMutated = state := rfl

theorem keeps_invalidBlockFound (same : ∀ entry : CBlockIndex, view entry.markFailed = view entry)
    (result : BlockValidationResult) :
    Keeps view state.blocks (state.invalidBlockFound pindex result).blocks := by
  unfold invalidBlockFound
  split
  · exact Keeps.refl view state.blocks
  · have own := state.keeps_changeEntries same fun key _ => key == pindex
    exact own.trans (keeps_invalidChainFound _ pindex same)

end Chainstate

/-! ## What the tree fixes -/

section Tree

variable (kept : Keeps frame blocks after)

include kept

theorem blockTimes_of_keeps (count : Nat) (pindex : Option Uint256) :
    blockTimes after count pindex = blockTimes blocks count pindex := by
  induction count generalizing pindex with
  | zero => cases pindex <;> rfl
  | succ count ih =>
    cases pindex with
    | none => rfl
    | some pindex =>
      rw [blockTimes, blockTimes]
      cases listed : blocks.lookup pindex with
      | none => rw [kept.absent_iff.mpr listed]
      | some entry =>
        obtain ⟨changed, found, same⟩ := kept.found listed
        have times := nTime_of_frame same
        have parents := pprev_of_frame same
        rw [found]
        dsimp only
        rw [ih, getBlockTime, times, parents]
        rfl

theorem getMedianTimePast_of_keeps (pindex : Uint256) :
    getMedianTimePast after pindex = getMedianTimePast blocks pindex := by
  rw [getMedianTimePast, getMedianTimePast, blockTimes_of_keeps kept]

theorem nHeight_of_keeps (pindex : Uint256) :
    (after.lookup pindex).map nHeight = (blocks.lookup pindex).map nHeight := by
  have heights := congrArg (Option.map nHeight) (kept pindex)
  rwa [Option.map_map, Option.map_map] at heights

end Tree

end Sharecoin
