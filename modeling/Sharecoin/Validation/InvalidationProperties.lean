import Sharecoin.Validation.ActivationProperties

/-! Invalidating and reconsidering blocks. While an invalidation is under way blocks below the
one it has reached may be missing from the candidates or not be marked yet; its last section
makes up for both. -/

set_option autoImplicit false

namespace Sharecoin

open Lib Chainstate CBlockIndex

/-! ## Candidates that are put back -/

variable {connects : Uint256 → Bool} {addresses : Addresses} {state after : Chainstate} {pindex key bad : Uint256}
  {except : Option Uint256}

section Insert

variable {keys : List Uint256}

theorem foldl_insertCandidate_spec (keys : List Uint256) (state : Chainstate) :
    (keys.foldl insertCandidate state).chainman = state.chainman ∧
      (keys.foldl insertCandidate state).mChain = state.mChain ∧
      (keys.foldl insertCandidate state).mBlocksUnlinked = state.mBlocksUnlinked ∧
      ∀ key, key ∈ (keys.foldl insertCandidate state).setBlockIndexCandidates ↔
        key ∈ keys ∨ key ∈ state.setBlockIndexCandidates := by
  induction keys generalizing state with
  | nil => simp
  | cons first keys ih =>
    obtain ⟨chainman, chain, unlinked, members⟩ := ih (state.insertCandidate first)
    refine ⟨chainman, chain, unlinked, fun key => ?_⟩
    rw [List.foldl_cons, members key, insertCandidate, List.mem_insert_iff, List.mem_cons]
    tauto

theorem mem_filtered_iff {blocks : BlockMap} {passes : (_ : Uint256) × CBlockIndex → Bool} :
    key ∈ (blocks.entries.filter passes).map Sigma.fst ↔
      ∃ entry, blocks.lookup key = some entry ∧ passes ⟨key, entry⟩ = true := by
  simp only [List.mem_map, List.mem_filter, Sigma.exists, exists_and_right, exists_eq_right]
  exact exists_congr fun entry => and_congr_left fun _ => AList.mem_lookup_iff.symm

theorem mem_missedCandidates :
    key ∈ state.missedCandidates addresses ↔ ∃ entry, state.blocks.lookup key = some entry ∧
      entry.isValid BLOCK_VALID_TRANSACTIONS = true ∧ entry.haveNumChainTxs = true ∧
      ¬ (state.tip.any fun tip => workComparator addresses state.blocks key tip) = true := by
  simp only [missedCandidates, mem_filtered_iff, Bool.and_eq_true, Bool.not_eq_true', Bool.not_eq_true, and_assoc]

end Insert

/-! ## Marking below a block -/

/-- Some blocks below a block become failed, and the candidates are linked ones. -/
structure Marks (bad : Uint256) (state after : Chainstate) : Prop where
  kept : Keeps settled state.blocks after.blocks
  validity : Keeps validity state.blocks after.blocks
  grows : ∀ key, state.blocks.failedAt key = true → after.blocks.failedAt key = true
  within : ∀ key, after.blocks.failedAt key = true →
    state.blocks.failedAt key = true ∨ Below (parentOf state.blocks) key bad
  chain : after.mChain = state.mChain
  unlinked : after.mBlocksUnlinked = state.mBlocksUnlinked
  listed : ∀ key ∈ after.setBlockIndexCandidates, key ∈ state.setBlockIndexCandidates ∨ state.blocks.linkedAt key = true

namespace Marks

variable {middle : Chainstate}

theorem refl (bad : Uint256) (state : Chainstate) : Marks bad state state :=
  ⟨.refl _ _, .refl _ _, fun _ => id, fun _ => .inl, rfl, rfl, fun _ => .inl⟩

theorem trans (first : Marks bad state middle) (second : Marks bad middle after) : Marks bad state after := by
  refine ⟨first.kept.trans second.kept, first.validity.trans second.validity,
    fun key failed => second.grows key (first.grows key failed), ?_,
    second.chain.trans first.chain, second.unlinked.trans first.unlinked, ?_⟩
  · intro key failed
    rcases second.within key failed with before | below
    · exact first.within key before
    · rw [parentOf_of_settled first.kept] at below
      exact .inr below
  · intro key member
    rcases second.listed key member with before | linked
    · exact first.listed key before
    · rw [linkedAt_of_settled first.kept] at linked
      exact .inr linked

theorem ite {condition : Bool} (marks : condition = true → Marks bad state after) :
    Marks bad state (if condition then after else state) := by
  split
  next holds => exact marks holds
  next => exact .refl _ _

theorem of_chainman (blocks : after.blocks = state.blocks) (chain : after.mChain = state.mChain)
    (unlinked : after.mBlocksUnlinked = state.mBlocksUnlinked)
    (listed : ∀ key ∈ after.setBlockIndexCandidates,
      key ∈ state.setBlockIndexCandidates ∨ state.blocks.linkedAt key = true) :
    Marks bad state after := by
  refine ⟨by rw [blocks]; exact .refl _ _, by rw [blocks]; exact .refl _ _, ?_, ?_, chain, unlinked,
    listed⟩ <;> rw [blocks]
  · exact fun _ => id
  · exact fun _ => .inl

theorem changeEntry (below : Below (parentOf state.blocks) key bad) :
    Marks bad state (state.changeEntry key markFailed) := by
  have marks := fun node => failedAt_mark state node (· == key)
  refine ⟨state.keeps_changeEntries settled_markFailed _,
    state.keeps_changeEntries validity_markFailed _,
    fun node failed => (marks node).mpr (.inl failed), ?_, rfl, rfl, fun _ => .inl⟩
  intro node failed
  rcases (marks node).mp failed with before | ⟨_, same⟩
  · exact .inl before
  · rw [beq_iff_eq] at same
    exact .inr (same ▸ below)

theorem eraseCandidate (key : Uint256) : Marks bad state (state.eraseCandidate key) :=
  of_chainman rfl rfl rfl fun _ member => .inl (List.mem_filter.mp member).1

theorem insertCandidate (linked : state.blocks.linkedAt key = true) : Marks bad state (state.insertCandidate key) := by
  refine of_chainman rfl rfl rfl fun node member => ?_
  rcases List.mem_insert_iff.mp member with rfl | before
  · exact .inr linked
  · exact .inl before

theorem setBestHeader (key : Uint256) : Marks bad state (state.setBestHeader key) :=
  of_chainman rfl rfl rfl fun _ => .inl

theorem invalidChainFound (linked : Linked state.blocks) (known : (state.blocks.lookup bad).isSome = true) :
    Marks bad state (state.invalidChainFound bad) := by
  refine ⟨state.keeps_invalidChainFound bad settled_markFailed,
    state.keeps_invalidChainFound bad validity_markFailed, ?_, ?_,
    mChain_invalidChainFound _ _, mBlocksUnlinked_invalidChainFound _ _, ?_⟩
  · exact fun key failed => (failedAt_invalidChainFound linked known).mpr (.inl failed)
  · intro key failed
    rcases (failedAt_invalidChainFound linked known).mp failed with before | ⟨_, _, below⟩
    · exact .inl before
    · exact .inr below
  · intro key member
    rw [candidates_invalidChainFound] at member
    exact .inl member

end Marks

section Invalidate

variable {except' : Option Uint256}

theorem Marks.consistent (marks : Marks bad state after) (consistent : Consistent connects except state)
    (apart : ∀ key ∈ state.mChain, ¬ Below (parentOf state.blocks) key bad)
    (closed : FailureClosed except' after.blocks) : Consistent connects except' after := by
  refine consistent.reflag marks.kept (validity_le_of_keeps marks.validity) marks.unlinked ?_ closed ?_
  · intro key member
    rcases marks.listed key member with before | linked
    · exact consistent.data.listed key before
    · exact linked
  refine consistent.chain.reflag marks.kept marks.chain fun key member => ?_
  by_contra failed
  rcases marks.within key (Bool.not_eq_false _ ▸ failed) with before | below
  · cases before.symm.trans (consistent.chain.eligible key member).2
  · exact apart key member below

/-! ## One round -/

section

variable {disconnectedTip newTip : Uint256} {needsUpdate : Bool} (linked : Linked state.blocks)
  (knownTip : (state.blocks.lookup disconnectedTip).isSome = true)

include linked knownTip

theorem marks_visitHeader {candidate : Uint256} (known : (state.blocks.lookup candidate).isSome = true) :
    Marks disconnectedTip state (visitHeader addresses disconnectedTip newTip needsUpdate state candidate) := by
  unfold visitHeader
  split
  next below => exact .changeEntry ((linked.descendsFrom_iff known knownTip).mp below)
  next =>
    have allowed : (!workComparator addresses state.blocks candidate newTip &&
        (state.blocks.lookup candidate).any fun entry =>
          entry.isValid BLOCK_VALID_TRANSACTIONS && entry.haveNumChainTxs) = true →
        state.blocks.linkedAt candidate = true := by
      intro inserts
      obtain ⟨entry, found⟩ := Option.isSome_iff_exists.mp known
      simp only [found, Option.any_some, Bool.and_eq_true] at inserts
      rw [BlockMap.linkedAt, found, Option.any_some]
      exact inserts.2.2
    exact (Marks.ite fun inserts => .insertCandidate (allowed inserts)).trans (.ite fun _ => .setBestHeader candidate)

theorem marks_foldl_visitHeader (headers : List Uint256)
    (known : ∀ header ∈ headers, (state.blocks.lookup header).isSome = true) :
    Marks disconnectedTip state (headers.foldl (visitHeader addresses disconnectedTip newTip needsUpdate) state) := by
  induction headers generalizing state with
  | nil => exact .refl _ _
  | cons header headers ih =>
    have first := @marks_visitHeader addresses state disconnectedTip newTip needsUpdate linked knownTip header
      (known header (.head _))
    exact first.trans (ih (linked.of_keeps (frame_of_settled first.kept))
      ((first.kept.isSome_eq _).trans knownTip) fun other member =>
        (first.kept.isSome_eq _).trans (known other (.tail _ member)))

end

theorem ActiveChain.dropLast (chain : ActiveChain connects state) {tip newTip : Uint256}
    (found : state.tip = some tip) (link : parentOf state.blocks tip = some newTip) :
    ActiveChain connects { state with mChain := state.mChain.dropLast } ∧
      state.mChain.dropLast.getLast? = some newTip ∧
      ∀ key ∈ state.mChain.dropLast, ¬ Below (parentOf state.blocks) key tip := by
  have last := ActiveChain.getElem?_tip found
  have length : 2 ≤ state.mChain.length := by
    by_contra short
    rw [show state.mChain.length - 1 = 0 by omega] at last
    cases link.symm.trans (chain.root tip last)
  have lower : ActiveChain connects { state with mChain := state.mChain.dropLast } := by
    rw [List.dropLast_eq_take, show state.mChain.length - 1 = (state.mChain.length - 2) + 1 by omega]
    exact chain.take _
  refine ⟨lower, ?_, ?_⟩
  · have before := chain.links (state.mChain.length - 2) tip (by
      rw [show state.mChain.length - 2 + 1 = state.mChain.length - 1 by omega]
      exact last)
    rw [List.getLast?_eq_getElem?, List.length_dropLast, List.getElem?_dropLast,
      if_pos (by omega), show state.mChain.length - 1 - 1 = state.mChain.length - 2 by omega,
      ← before]
    exact link
  · intro key member below
    have inside := lower.mem_of_below member below
    obtain ⟨index, placed⟩ := List.getElem?_of_mem inside
    have within := (List.getElem?_eq_some_iff.mp placed).1
    rw [List.length_dropLast] at within
    have low := lower.heights index tip placed
    have high := chain.heights _ tip last
    have same : (index : Int) = ((state.mChain.length - 1 : Nat) : Int) := Option.some_inj.mp (low.symm.trans high)
    omega

/-- A round leaves only blocks below the disconnected one unmarked. -/
theorem invalidateTip_spec (consistent : Consistent connects except state) {tip newTip : Uint256}
    {headers : List Uint256} (found : state.tip = some tip) (link : parentOf state.blocks tip = some newTip)
    (previous : ∀ invalid ∈ except, parentOf state.blocks invalid = some tip)
    (known : ∀ header ∈ headers, (state.blocks.lookup header).isSome = true) :
    let after := invalidateTip addresses headers state tip newTip
    Consistent connects (some tip) after.1 ∧ Keeps settled state.blocks after.1.blocks ∧
      after.1.tip = some newTip ∧ parentOf after.1.blocks tip = some newTip ∧
      ∀ header ∈ after.2, (after.1.blocks.lookup header).isSome = true := by
  intro after
  let cut : Chainstate := { state with mChain := state.mChain.dropLast }
  obtain ⟨lower, last, apart⟩ := consistent.chain.dropLast found link
  have newMember : newTip ∈ state.mChain.dropLast := List.mem_of_getLast? last
  have knownTip : (state.blocks.lookup tip).isSome = true :=
    known_of_linkedAt (consistent.chain.eligible tip (ActiveChain.tip_mem found)).1
  have popped := consistent.withChain lower
  -- The tip is marked and leaves the candidates, and its parent joins them.
  have first : Marks tip cut (((cut.changeEntry tip markFailed).eraseCandidate tip).insertCandidate newTip) := by
    have marked : Marks tip cut ((cut.changeEntry tip markFailed).eraseCandidate tip) :=
      (Marks.changeEntry (.refl _ tip)).trans (.eraseCandidate tip)
    refine marked.trans (.insertCandidate ?_)
    rw [linkedAt_of_settled marked.kept]
    exact (lower.eligible newTip newMember).1
  generalize startIs : ((cut.changeEntry tip markFailed).eraseCandidate tip).insertCandidate newTip = marked at first
  have whole : Marks tip cut (invalidateTip addresses headers state tip newTip).1 := by
    unfold invalidateTip
    dsimp only
    rw [startIs]
    generalize (marked.chainman.mBestHeader.any fun best =>
      descendsFrom marked.blocks best tip) = needsUpdate
    have headed := first.trans (.ite fun _ : needsUpdate = true => .setBestHeader newTip)
    generalize (if needsUpdate then marked.setBestHeader newTip else marked) = current at headed ⊢
    refine headed.trans (marks_foldl_visitHeader (popped.linked.of_keeps (frame_of_settled headed.kept))
      ((headed.kept.isSome_eq tip).trans knownTip) _ fun header member => ?_)
    exact (headed.kept.isSome_eq header).trans (known header (List.mem_filter.mp member).1)
  have parents : parentOf after.1.blocks = parentOf state.blocks := parentOf_of_settled whole.kept
  refine ⟨whole.consistent popped apart ?_, whole.kept, ?_, ?_, ?_⟩
  · intro key pprev toParent failed
    rw [parents] at toParent ⊢
    rcases whole.within pprev failed with before | below
    · rcases consistent.closed key pprev toParent before with failedKey | ⟨invalid, member, below⟩
      · exact .inl (whole.grows key failedKey)
      · exact .inr ⟨tip, rfl, below.trans (.of_parent (previous invalid member) (.refl _ tip))⟩
    · exact .inr ⟨tip, rfl, below⟩
  · rw [Chainstate.tip, whole.chain]
    exact last
  · rw [parents]
    exact link
  · intro header member
    rw [whole.kept.isSome_eq]
    exact known header (List.mem_filter.mp member).1

/-! ## The last section -/

/-- Every block that could be chosen and is no worse than the tip has become a candidate. -/
theorem covering_of_complete (consistent : Consistent connects none after) {tip : Uint256}
    (found : after.tip = some tip)
    (complete : ∀ key, after.blocks.Eligible key → rank addresses after.blocks tip ≤ rank addresses after.blocks key →
      key ∈ after.setBlockIndexCandidates) : Covering addresses connects after := by
  have member := ActiveChain.tip_mem found
  exact ⟨tip, found, tip, consistent.chain.eligible tip member, consistent.chain.proven tip member, le_rfl, complete⟩

theorem finishInvalidation_spec {call : Invalidation} (consistent : Consistent connects except state)
    (excepted : ∀ invalid ∈ except, invalid = call.toMarkFailed)
    (same : call.pindexWasInChain = false → call.pindex = call.toMarkFailed)
    (known : (state.blocks.lookup call.toMarkFailed).isSome = true)
    (outside : state.contains call.toMarkFailed = false) :
    Consistent connects none (state.finishInvalidation addresses call) ∧
      Keeps settled state.blocks (state.finishInvalidation addresses call).blocks ∧
      Covering addresses connects (state.finishInvalidation addresses call) := by
  generalize invalidIs : call.toMarkFailed = invalid at excepted same known outside
  have apart : ∀ key ∈ state.mChain, ¬ Below (parentOf state.blocks) key invalid := by
    intro key member below
    cases outside.symm.trans (consistent.chain.contains_iff.mpr (consistent.chain.mem_of_below member below))
  unfold finishInvalidation
  rw [invalidIs, outside, if_neg Bool.false_ne_true]
  dsimp only
  generalize markedIs : (if !call.pindexWasInChain && !(state.blocks.lookup call.pindex).any failed then
      (state.changeEntry call.pindex markFailed).eraseCandidate call.pindex
    else state) = marked
  -- The block itself is marked if it never was in the chain.
  have markOwn : Marks invalid state marked := by
    rw [← markedIs]
    split
    next never =>
      rw [Bool.and_eq_true, Bool.not_eq_true'] at never
      rw [same never.1]
      exact (Marks.changeEntry (.refl _ invalid)).trans (.eraseCandidate invalid)
    next => exact .refl _ _
  obtain ⟨chainman, chain, unlinked, members⟩ := foldl_insertCandidate_spec (marked.missedCandidates addresses) marked
  generalize listedIs : (marked.missedCandidates addresses).foldl insertCandidate marked = listed
    at chainman chain unlinked members ⊢
  have blocks : listed.blocks = marked.blocks := congrArg ChainstateManager.mBlockIndex chainman
  have putBack : Marks invalid marked listed := by
    refine .of_chainman blocks chain unlinked fun key member => ?_
    rcases (members key).mp member with missed | before
    · obtain ⟨entry, found, _, linked, _⟩ := mem_missedCandidates.mp missed
      rw [BlockMap.linkedAt, found, Option.any_some]
      exact .inr linked
    · exact .inl before
  have upTo := markOwn.trans putBack
  have linkedListed := consistent.linked.of_keeps (frame_of_settled upTo.kept)
  have knownListed := (upTo.kept.isSome_eq invalid).trans known
  have last : Marks invalid listed (listed.invalidChainFound invalid) := .invalidChainFound linkedListed knownListed
  have whole := upTo.trans last
  have parents := parentOf_of_settled whole.kept
  have below : ∀ key, (state.blocks.lookup key).isSome = true → key ≠ invalid →
      Below (parentOf state.blocks) key invalid →
      (listed.invalidChainFound invalid).blocks.failedAt key = true := by
    intro key knownKey other belowKey
    refine (failedAt_invalidChainFound linkedListed knownListed).mpr (.inr ⟨?_, other, ?_⟩)
    · exact (upTo.kept.isSome_eq key).trans knownKey
    · rw [parentOf_of_settled upTo.kept]
      exact belowKey
  have result : Consistent connects none (listed.invalidChainFound invalid) := by
    refine whole.consistent consistent apart ?_
    intro key pprev link failed
    left
    rw [parents] at link
    -- Below the block every descendant is marked; elsewhere nothing has changed.
    have descends : Below (parentOf state.blocks) pprev invalid →
        (listed.invalidChainFound invalid).blocks.failedAt key = true := by
      intro belowParent
      refine below key (known_of_parentOf link) ?_ (.of_parent link belowParent)
      rintro rfl
      exact consistent.linked.not_below_parent link belowParent
    rcases whole.within pprev failed with before | belowParent
    · rcases consistent.closed key pprev link before with failedKey | ⟨_, member, belowParent⟩
      · exact whole.grows key failedKey
      · exact descends (excepted _ member ▸ belowParent)
    · exact descends belowParent
  refine ⟨result, whole.kept, ?_⟩
  obtain ⟨tip, found⟩ := result.chain.exists_tip
  refine covering_of_complete result found fun key eligible higher => ?_
  rw [candidates_invalidChainFound]
  refine (members key).mpr (.inl (mem_missedCandidates.mpr ?_))
  have linkedKey : marked.blocks.linkedAt key = true := by
    rw [← blocks, ← linkedAt_of_settled last.kept]
    exact eligible.1
  have markedData := consistent.data.reflag markOwn.kept markOwn.unlinked fun node member =>
    (markOwn.listed node member).elim (consistent.data.listed node) id
  obtain ⟨entry, entryFound, counted, stored, flag⟩ := markedData.entry_of_linked linkedKey
  have unfailed : entry.failed = false := by
    by_contra failed
    have marks := last.grows key (blocks ▸ flag.trans (Bool.not_eq_false _ ▸ failed))
    cases marks.symm.trans eligible.2
  have valid := (consistent.validity.reflag markOwn.kept
    (validity_le_of_keeps markOwn.validity)).data key entry entryFound stored
  refine ⟨entry, entryFound, isValid_iff.mpr ⟨unfailed, valid⟩, counted, ?_⟩
  have markedTip : marked.tip = some tip := by
    rw [← found, Chainstate.tip, Chainstate.tip, last.chain, chain]
  have keptFrom : Keeps settled marked.blocks (listed.invalidChainFound invalid).blocks := blocks ▸ last.kept
  have knownMarked : ∀ node, (listed.invalidChainFound invalid).blocks.linkedAt node = true →
      (marked.blocks.lookup node).isSome = true := fun node linkedNode =>
    (keptFrom.isSome_eq node).symm.trans (known_of_linkedAt linkedNode)
  rw [markedTip, Option.any_some, Bool.not_eq_true, workComparator_eq_false_iff (knownMarked key eligible.1)
    (knownMarked tip (result.chain.eligible tip (ActiveChain.tip_mem found)).1),
    ← rank_of_settled keptFrom]
  exact higher

end Invalidate

/-! ## Reconsidering -/

/-- What a reconsideration clears: a block with its ancestors and descendants. -/
def Reconsidered (blocks : BlockMap) (pindex key : Uint256) : Prop :=
  Below (parentOf blocks) key pindex ∨ Below (parentOf blocks) pindex key

theorem blocks_resetBlockFailureFlags :
    (state.resetBlockFailureFlags addresses pindex).blocks = (state.changeEntries (fun key entry =>
      entry.failed && (descendsFrom state.blocks key pindex || descendsFrom state.blocks pindex key))
        clearFailed).blocks := by
  unfold resetBlockFailureFlags
  dsimp only
  exact congrArg ChainstateManager.mBlockIndex (foldl_insertCandidate_spec _ _).1

theorem mChain_resetBlockFailureFlags : (state.resetBlockFailureFlags addresses pindex).mChain = state.mChain := by
  unfold resetBlockFailureFlags
  exact (foldl_insertCandidate_spec _ _).2.1

theorem failedAt_resetBlockFailureFlags (linked : Linked state.blocks)
    (known : (state.blocks.lookup pindex).isSome = true) :
    (state.resetBlockFailureFlags addresses pindex).blocks.failedAt key = true ↔
      state.blocks.failedAt key = true ∧ ¬ Reconsidered state.blocks pindex key := by
  rw [blocks_resetBlockFailureFlags, blocks_changeEntries, BlockMap.failedAt, BlockMap.failedAt, lookup_mapEntries]
  cases found : state.blocks.lookup key with
  | none => simp
  | some entry =>
    have knownKey : (state.blocks.lookup key).isSome = true := by rw [found]; rfl
    rw [Reconsidered, ← linked.descendsFrom_iff knownKey known,
      ← linked.descendsFrom_iff known knownKey, Option.map_some, Option.any_some, Option.any_some]
    split
    next cleared =>
      rw [Bool.and_eq_true, Bool.or_eq_true] at cleared
      simp [failed_clearFailed, cleared.2]
    next unchanged =>
      rw [Bool.and_eq_true, Bool.or_eq_true] at unchanged
      exact ⟨fun failed => ⟨failed, fun reconsidered => unchanged ⟨failed, reconsidered⟩⟩,
        fun failed => failed.1⟩

theorem keeps_resetBlockFailureFlags :
    Keeps settled state.blocks (state.resetBlockFailureFlags addresses pindex).blocks := by
  rw [blocks_resetBlockFailureFlags]
  exact state.keeps_changeEntries settled_clearFailed _

/-- The blocks that are put back: those cleared that could be chosen and are better than the
tip. -/
theorem mem_candidates_reset : key ∈ (state.resetBlockFailureFlags addresses pindex).setBlockIndexCandidates ↔
      key ∈ state.setBlockIndexCandidates ∨ ∃ entry, state.blocks.lookup key = some entry ∧
        entry.failed = true ∧
        (descendsFrom state.blocks key pindex = true ∨ descendsFrom state.blocks pindex key = true) ∧
        entry.clearFailed.isValid BLOCK_VALID_TRANSACTIONS = true ∧ entry.haveNumChainTxs = true ∧
        (state.tip.any fun tip => workComparator addresses state.blocks tip key) = true := by
  unfold resetBlockFailureFlags
  dsimp only
  rw [(foldl_insertCandidate_spec _ _).2.2.2 key, or_comm]
  simp only [mem_filtered_iff, Bool.and_eq_true, Bool.or_eq_true, and_assoc]
  rfl

/-- Clearing a block with its ancestors and descendants leaves no failed parent of a block that
is not. -/
theorem Consistent.reset (consistent : Consistent connects except state)
    (known : (state.blocks.lookup pindex).isSome = true) :
    Consistent connects except (state.resetBlockFailureFlags addresses pindex) := by
  have kept := @keeps_resetBlockFailureFlags addresses state pindex
  have failedIff := fun key =>
    @failedAt_resetBlockFailureFlags addresses state pindex key consistent.linked known
  have validity : Keeps CBlockIndex.validity state.blocks (state.resetBlockFailureFlags addresses pindex).blocks := by
    rw [blocks_resetBlockFailureFlags]
    exact state.keeps_changeEntries CBlockIndex.validity_clearFailed _
  have unlinked : (state.resetBlockFailureFlags addresses pindex).mBlocksUnlinked =
      state.mBlocksUnlinked := by
    unfold resetBlockFailureFlags
    exact (foldl_insertCandidate_spec _ _).2.2.1
  refine consistent.reflag kept (validity_le_of_keeps validity) unlinked ?_ ?_ ?_
  · intro key member
    rcases mem_candidates_reset.mp member with before | ⟨entry, found, _, _, _, linked, _⟩
    · exact consistent.data.listed key before
    · rw [BlockMap.linkedAt, found, Option.any_some]
      exact linked
  · intro key pprev link failed
    rw [parentOf_of_settled kept] at link ⊢
    obtain ⟨before, untouched⟩ := (failedIff pprev).mp failed
    refine (consistent.closed key pprev link before).imp_left fun failedKey => ?_
    refine (failedIff key).mpr ⟨failedKey, fun reconsidered => untouched ?_⟩
    -- A block that is cleared has its parent cleared too.
    rcases reconsidered with below | above
    · rcases below.eq_or_parent with rfl | ⟨next, toNext, below⟩
      · exact .inr (.of_parent link (.refl _ pprev))
      · cases link.symm.trans toNext
        exact .inl below
    · exact .inr (above.trans (.of_parent link (.refl _ pprev)))
  · refine consistent.chain.reflag kept mChain_resetBlockFailureFlags fun key member => ?_
    by_contra failed
    cases ((failedIff key).mp (Bool.not_eq_false _ ▸ failed)).1.symm.trans (consistent.chain.eligible key member).2

theorem Covering.reset (covering : Covering addresses connects state) (consistent : Consistent connects except state)
    (known : (state.blocks.lookup pindex).isSome = true) :
    Covering addresses connects (state.resetBlockFailureFlags addresses pindex) := by
  obtain ⟨tip, found, covered⟩ := covering
  have kept := @keeps_resetBlockFailureFlags addresses state pindex
  have failedIff := fun key =>
    @failedAt_resetBlockFailureFlags addresses state pindex key consistent.linked known
  have links := linkedAt_of_settled kept
  have tipEligible := consistent.chain.eligible tip (ActiveChain.tip_mem found)
  refine ⟨tip, by rw [Chainstate.tip, mChain_resetBlockFailureFlags]; exact found, ?_⟩
  rw [rank_of_settled kept]
  refine covered.extend tipEligible ?_ ?_ (fun _ _ => rfl)
    (fun node member => mem_candidates_reset.mpr (.inl member)) ?_
  · rintro node ⟨linked, unfailed⟩
    refine ⟨(links node).trans linked, ?_⟩
    by_contra failed
    cases ((failedIff node).mp (Bool.not_eq_false _ ▸ failed)).1.symm.trans unfailed
  · intro node _ proven
    rw [BlockMap.Proven, parentOf_of_settled kept]
    exact proven
  rintro node ⟨linkedAfter, unfailedAfter⟩ before higher
  have linked : state.blocks.linkedAt node = true := (links node).symm.trans linkedAfter
  have failed : state.blocks.failedAt node = true := by
    by_contra unfailed
    exact before ⟨linked, Bool.not_eq_true _ ▸ unfailed⟩
  have reconsidered : Reconsidered state.blocks pindex node := by
    by_contra untouched
    cases ((failedIff node).mpr ⟨failed, untouched⟩).symm.trans unfailedAfter
  have knownNode := known_of_linkedAt linked
  obtain ⟨entry, entryFound, counted, stored, same⟩ := consistent.data.entry_of_linked linked
  have valid := consistent.validity.data node entry entryFound stored
  rw [← validity_clearFailed] at valid
  -- The block was failed and the tip was not, so they are different blocks.
  have better : rank addresses state.blocks tip < rank addresses state.blocks node := by
    refine lt_of_le_of_ne higher fun same => ?_
    cases rank_injective same
    cases failed.symm.trans tipEligible.2
  refine mem_candidates_reset.mpr (.inr ⟨entry, entryFound, same.symm.trans failed, ?_,
    isValid_iff.mpr ⟨entry.failed_clearFailed, valid⟩, counted, ?_⟩)
  · rw [consistent.linked.descendsFrom_iff knownNode known, consistent.linked.descendsFrom_iff known knownNode]
    exact reconsidered
  · rw [found, Option.any_some, workComparator_iff (known_of_linkedAt tipEligible.1) knownNode]
    exact better

end Sharecoin
