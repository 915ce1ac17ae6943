import Sharecoin.Validation.ChainInvariant

/-! Taking in block data and headers keeps the invariant of the chainstate: a block whose
ancestors' data is there is linked at once, with everything that waited for it, and becomes a
candidate unless it is worse than the tip. -/

set_option autoImplicit false

namespace Sharecoin

open Lib Chainstate CBlockIndex

/-! ## Linking one block -/

variable {connects : Uint256 → Bool} {addresses : Addresses} {state after : Chainstate} {pindex key pindexNew : Uint256}
  {queue : List Uint256} {except : Option Uint256} {nTx : UInt32} {pos : FlatFilePos} {entry : CBlockIndex}

theorem lookup_linkBlock :
    (state.linkBlock addresses pindex).blocks.lookup key = (state.blocks.lookup key).map fun entry =>
      if key = pindex then { entry with
        mChainTxCount := prevTxSum state.blocks entry
        nSequenceId := state.nBlockSequenceId }
      else entry := by
  change (tryAddBlockIndexCandidate addresses _ pindex).blocks.lookup key = _
  rw [blocks_tryAddBlockIndexCandidate]
  exact state.lookup_changeEntry pindex key _

theorem lookup_linkBlock_ne (other : key ≠ pindex) :
    (state.linkBlock addresses pindex).blocks.lookup key = state.blocks.lookup key := by
  rw [lookup_linkBlock]
  cases state.blocks.lookup key <;> simp [other]

theorem frame_linkBlock : Keeps frame state.blocks (state.linkBlock addresses pindex).blocks :=
  state.keeps_linkBlock pindex fun _ _ _ => rfl

theorem mBlocksUnlinked_linkBlock : (state.linkBlock addresses pindex).mBlocksUnlinked =
      state.mBlocksUnlinked.filter fun waiting => waiting.1 != pindex := by
  change (tryAddBlockIndexCandidate addresses _ pindex).mBlocksUnlinked.filter _ = _
  unfold tryAddBlockIndexCandidate
  split <;> rfl

theorem mChain_linkBlock : (state.linkBlock addresses pindex).mChain = state.mChain := by
  change (tryAddBlockIndexCandidate addresses _ pindex).mChain = _
  unfold tryAddBlockIndexCandidate
  split <;> rfl

theorem dataAt_linkBlock : (state.linkBlock addresses pindex).blocks.dataAt key = state.blocks.dataAt key := by
  have kept : Keeps haveData state.blocks (state.linkBlock addresses pindex).blocks :=
    state.keeps_linkBlock pindex fun _ _ _ => rfl
  exact kept.any_eq id (fun _ => rfl) key

theorem failedAt_linkBlock : (state.linkBlock addresses pindex).blocks.failedAt key = state.blocks.failedAt key := by
  have kept : Keeps failed state.blocks (state.linkBlock addresses pindex).blocks :=
    state.keeps_linkBlock pindex fun _ _ _ => rfl
  exact kept.any_eq id (fun _ => rfl) key

theorem linkedAt_linkBlock_ne (other : key ≠ pindex) :
    (state.linkBlock addresses pindex).blocks.linkedAt key = state.blocks.linkedAt key := by
  rw [BlockMap.linkedAt, lookup_linkBlock_ne other, BlockMap.linkedAt]

theorem DataShape.eligible_linkBlock (data : DataShape (pindex :: queue) state) (eligible : state.blocks.Eligible key) :
    key ≠ pindex ∧ (state.linkBlock addresses pindex).blocks.Eligible key := by
  have other : key ≠ pindex := by
    rintro rfl
    cases (data.queued key (.head _)).2.1.symm.trans eligible.1
  exact ⟨other, (linkedAt_linkBlock_ne other).trans eligible.1, failedAt_linkBlock.trans eligible.2⟩

theorem mem_candidates_linkBlock : key ∈ (state.linkBlock addresses pindex).setBlockIndexCandidates ↔
    key ∈ state.setBlockIndexCandidates ∨ key = pindex ∧ ¬ (state.tip.any fun tip =>
      workComparator addresses (state.linkBlock addresses pindex).blocks pindex tip) = true := by
  rw [show (state.linkBlock addresses pindex).blocks = _ from blocks_tryAddBlockIndexCandidate _ pindex]
  change key ∈ (tryAddBlockIndexCandidate addresses _ pindex).setBlockIndexCandidates ↔ _
  unfold tryAddBlockIndexCandidate
  split
  next worse => exact (or_iff_left fun added => added.2 worse).symm
  next better => exact List.mem_insert_iff.trans (or_comm.trans (or_congr_right (and_iff_left better).symm))

theorem mem_waitingFor : key ∈ state.waitingFor pindex ↔ (pindex, key) ∈ state.mBlocksUnlinked := by
  unfold waitingFor
  constructor
  · intro member
    obtain ⟨⟨pprev, child⟩, inside, rfl⟩ := List.mem_map.mp member
    obtain ⟨inside, same⟩ := List.mem_filter.mp inside
    rw [beq_iff_eq] at same
    exact same ▸ inside
  · intro member
    exact List.mem_map.mpr ⟨(pindex, key), List.mem_filter.mpr ⟨member, by simp⟩, rfl⟩

theorem nodup_waitingFor (nodup : state.mBlocksUnlinked.Nodup) : (state.waitingFor pindex).Nodup := by
  refine (nodup.filter _).map_on ?_
  rintro ⟨leftParent, left⟩ leftInside ⟨rightParent, right⟩ rightInside same
  have leftSame := beq_iff_eq.mp (List.mem_filter.mp leftInside).2
  have rightSame := beq_iff_eq.mp (List.mem_filter.mp rightInside).2
  exact Prod.ext (leftSame.trans rightSame.symm) same

section Turn

variable (linked : Linked state.blocks)
  (small : ∀ key height, state.blocks.heightAt key = some height → height < 2 ^ 31)

include linked small

theorem DataShape.prevTxSum_spec (data : DataShape queue state)
    (found : state.blocks.lookup key = some entry) (stored : entry.haveData = true) :
    prevTxSum state.blocks entry ≠ 0 ∧ (prevTxSum state.blocks entry).toNat ≤ (entry.nHeight.toNat + 1) * 2 ^ 32 := by
  have positive : entry.nTx.toNat ≠ 0 := fun zero =>
    data.transactions key entry found stored (UInt32.toNat_inj.mp zero)
  have fits := entry.nTx.toNat_lt
  have height : entry.nHeight < 2 ^ 31 := small key entry.nHeight (by rw [BlockMap.heightAt, found, Option.map_some])
  -- What the ancestors count to is bounded by their height.
  have before : (((entry.pprev.bind state.blocks.lookup).map mChainTxCount).getD 0).toNat ≤
      entry.nHeight.toNat * 2 ^ 32 := by
    cases link : entry.pprev with
    | none => simp
    | some pprev =>
      obtain ⟨parent, parentFound, above⟩ := linked.child key entry pprev found link
      have nonneg := linked.nonneg pprev parent parentFound
      have bound := data.counted pprev parent parentFound
      have same : entry.nHeight.toNat = parent.nHeight.toNat + 1 := by omega
      simpa [parentFound, same] using bound
  have sum : (prevTxSum state.blocks entry).toNat = entry.nTx.toNat +
      (((entry.pprev.bind state.blocks.lookup).map mChainTxCount).getD 0).toNat := by
    rw [prevTxSum, UInt64.toNat_add, UInt32.toNat_toUInt64]
    exact Nat.mod_eq_of_lt (by omega)
  constructor
  · intro zero
    rw [zero, UInt64.toNat_zero] at sum
    omega
  · omega

theorem DataShape.linkedAt_linkBlock (data : DataShape queue state) (stored : state.blocks.dataAt pindex = true) :
    (state.linkBlock addresses pindex).blocks.linkedAt key = (key == pindex || state.blocks.linkedAt key) := by
  by_cases same : key = pindex
  · subst same
    obtain ⟨entry, found, full⟩ := (Option.any_eq_true _ _).mp stored
    have positive := (data.prevTxSum_spec linked small found full).1
    simpa [BlockMap.linkedAt, lookup_linkBlock, found, haveNumChainTxs] using positive
  · simp [linkedAt_linkBlock_ne same, same]

/-- One turn of the queue: the block is linked, and what waited for it is queued. -/
theorem DataShape.linkBlock (data : DataShape (pindex :: queue) state) :
    DataShape (queue ++ state.waitingFor pindex) (state.linkBlock addresses pindex) := by
  obtain ⟨stored, fresh, linkedParents⟩ := data.queued pindex (.head _)
  obtain ⟨notQueued, queueNodup⟩ := List.nodup_cons.mp data.queue_nodup
  have parents := parentOf_of_keeps (@frame_linkBlock addresses state pindex)
  -- A block that waited for this one is not linked, and was not queued.
  have waited : ∀ node ∈ state.waitingFor pindex, parentOf state.blocks node = some pindex ∧
      state.blocks.dataAt node = true ∧ state.blocks.linkedAt node = false ∧ node ≠ pindex ∧ node ∉ queue := by
    intro node member
    obtain ⟨link, nodeStored, _⟩ := data.waiting pindex node (mem_waitingFor.mp member)
    have notLinked : state.blocks.linkedAt node = false := by
      by_contra already
      rw [data.linked_parent node pindex link (Bool.not_eq_false _ ▸ already)] at fresh
      cases fresh
    refine ⟨link, nodeStored, notLinked, ?_, ?_⟩
    · rintro rfl
      exact linked.not_below_parent link (.refl _ _)
    · intro inQueue
      rw [(data.queued node (.tail _ inQueue)).2.2 pindex link] at fresh
      cases fresh
  constructor <;> try simp only [data.linkedAt_linkBlock linked small stored, parents, dataAt_linkBlock,
    mBlocksUnlinked_linkBlock, List.mem_filter, Bool.or_eq_true, Bool.or_eq_false_iff, beq_iff_eq, beq_eq_false_iff_ne,
    bne_iff_ne]
  case linked_data =>
    rintro node (rfl | before)
    · exact stored
    · exact data.linked_data node before
  case linked_parent =>
    rintro node pprev link (rfl | before)
    · exact .inr (linkedParents pprev link)
    · exact .inr (data.linked_parent node pprev link before)
  case complete =>
    intro node nodeStored allLinked
    by_cases same : node = pindex
    · exact .inl (.inl same)
    by_cases waits : parentOf state.blocks node = some pindex
    · refine .inr (List.mem_append_right _ (mem_waitingFor.mpr ?_))
      exact data.waits node pindex waits nodeStored fresh
    have before := data.complete node nodeStored fun pprev link =>
      (allLinked pprev link).resolve_left fun here => waits (here ▸ link)
    rcases before with before | inQueue
    · exact .inl (.inr before)
    · exact .inr (List.mem_append_left _ ((List.mem_cons.mp inQueue).resolve_left same))
  case queued =>
    intro node member
    rcases List.mem_append.mp member with inQueue | inWaiting
    · obtain ⟨nodeStored, notLinked, allLinked⟩ := data.queued node (.tail _ inQueue)
      exact ⟨nodeStored, ⟨fun here => notQueued (here ▸ inQueue), notLinked⟩,
        fun pprev link => .inr (allLinked pprev link)⟩
    · obtain ⟨link, nodeStored, notLinked, other, _⟩ := waited node inWaiting
      exact ⟨nodeStored, ⟨other, notLinked⟩, fun pprev toParent => .inl (Option.some.inj (toParent.symm.trans link))⟩
  case queue_nodup =>
    refine List.Nodup.append queueNodup (nodup_waitingFor data.waiting_nodup) ?_
    exact fun node inQueue inWaiting => (waited node inWaiting).2.2.2.2 inQueue
  case waits =>
    rintro node pprev link nodeStored ⟨other, notLinked⟩
    exact ⟨data.waits node pprev link nodeStored notLinked, other⟩
  case waiting =>
    rintro pprev node ⟨member, other⟩
    obtain ⟨link, nodeStored, notLinked⟩ := data.waiting pprev node member
    exact ⟨link, nodeStored, other, notLinked⟩
  case waiting_nodup => exact data.waiting_nodup.filter _
  case counted =>
    intro node entry found
    rw [lookup_linkBlock] at found
    obtain ⟨old, oldFound, rfl⟩ := Option.map_eq_some_iff.mp found
    split
    next same =>
      have full : old.haveData = true := by
        rw [same] at oldFound
        simpa [BlockMap.dataAt, oldFound] using stored
      exact (data.prevTxSum_spec linked small oldFound full).2
    next => exact data.counted node old oldFound
  case transactions =>
    intro node entry found full
    rw [lookup_linkBlock] at found
    obtain ⟨old, oldFound, rfl⟩ := Option.map_eq_some_iff.mp found
    have kept := data.transactions node old oldFound
    split at full
    next same =>
      rw [if_pos same]
      exact kept full
    next other =>
      rw [if_neg other]
      exact kept full
  case listed =>
    intro node member
    exact (mem_candidates_linkBlock.mp member).symm.imp And.left (data.listed node)

theorem Covering.linkBlock (covering : Covering addresses connects state) (data : DataShape (pindex :: queue) state)
    (chain : ActiveChain connects state) : Covering addresses connects (state.linkBlock addresses pindex) := by
  obtain ⟨tip, found, covered⟩ := covering
  obtain ⟨stored, _⟩ := data.queued pindex (.head _)
  have now : (state.linkBlock addresses pindex).blocks.linkedAt pindex = true := by
    rw [data.linkedAt_linkBlock linked small stored, beq_self_eq_true, Bool.true_or]
  have tipEligible := chain.eligible tip (ActiveChain.tip_mem found)
  have parents := parentOf_of_keeps (@frame_linkBlock addresses state pindex)
  have sameSound := BlockMap.proven_eq connects parents
  have stays : ∀ node, state.blocks.Eligible node → (state.linkBlock addresses pindex).blocks.Eligible node :=
    fun node eligible => (data.eligible_linkBlock eligible).2
  refine ⟨tip, by rw [Chainstate.tip, mChain_linkBlock]; exact found, ?_⟩
  rw [sameSound]
  refine covered.extend tipEligible stays (fun _ _ sound => sound) ?_ ?_ ?_
  · intro node eligible
    rw [rank, rank, lookup_linkBlock_ne (@DataShape.eligible_linkBlock addresses _ _ _ _ data eligible).1]
  · exact fun node member => mem_candidates_linkBlock.mpr (.inl member)
  · intro node eligible before higher
    obtain rfl : node = pindex := by
      by_contra different
      exact before ⟨(linkedAt_linkBlock_ne different).symm.trans eligible.1, failedAt_linkBlock.symm.trans eligible.2⟩
    refine mem_candidates_linkBlock.mpr (.inr ⟨rfl, ?_⟩)
    rw [found, Option.any_some, Bool.not_eq_true, workComparator_eq_false_iff (known_of_linkedAt now)
      (known_of_linkedAt (stays tip tipEligible).1)]
    exact higher

end Turn

/-! ## The queue -/

theorem length_waitingFor (pindex : Uint256) : (state.waitingFor pindex).length +
      (state.mBlocksUnlinked.filter fun waiting => waiting.1 != pindex).length =
        state.mBlocksUnlinked.length := by
  rw [waitingFor, List.length_map]
  have parts := @List.length_eq_length_filter_add _ state.mBlocksUnlinked fun waiting => waiting.1 == pindex
  simpa only [bne] using parts.symm

/-- The budget of turns is enough to empty the queue. -/
theorem linkBlocks_spec (turns : Nat) (data : DataShape queue state) (linked : Linked state.blocks)
    (small : ∀ key height, state.blocks.heightAt key = some height → height < 2 ^ 31)
    (chain : ActiveChain connects state) (budget : queue.length + state.mBlocksUnlinked.length ≤ turns) :
    let after := linkBlocks addresses turns queue state
    DataShape [] after ∧ ActiveChain connects after ∧ (∀ key, state.blocks.Eligible key → after.blocks.Eligible key) ∧
      (Covering addresses connects state → Covering addresses connects after) := by
  induction turns generalizing queue state with
  | zero =>
    obtain rfl : queue = [] := List.length_eq_zero_iff.mp (by omega)
    exact ⟨data, chain, fun _ => id, id⟩
  | succ turns ih =>
    cases queue with
    | nil => exact ⟨data, chain, fun _ => id, id⟩
    | cons pindex queue =>
      have kept := @frame_linkBlock addresses state pindex
      have next := @DataShape.linkBlock addresses state pindex queue linked small data
      have stays : ∀ key, state.blocks.Eligible key → (state.linkBlock addresses pindex).blocks.Eligible key :=
        fun key eligible => (data.eligible_linkBlock eligible).2
      have nextChain : ActiveChain connects (state.linkBlock addresses pindex) :=
        chain.of_frame kept mChain_linkBlock fun key member => stays key (chain.eligible key member)
      have shorter : (queue ++ state.waitingFor pindex).length +
          (state.linkBlock addresses pindex).mBlocksUnlinked.length ≤ turns := by
        have parts := @length_waitingFor state pindex
        rw [mBlocksUnlinked_linkBlock, List.length_append]
        rw [List.length_cons] at budget
        omega
      obtain ⟨emptied, lastChain, eligible, covers⟩ := ih next (linked.of_keeps kept)
        (fun key height found => small key height (heightAt_of_keeps kept key ▸ found))
        nextChain shorter
      exact ⟨emptied, lastChain, fun key before => eligible key (stays key before), fun covering =>
        covers (covering.linkBlock linked small data chain)⟩

/-! ## Storing the data -/

variable {blocks : BlockMap}

section Store

variable {params : Params}

theorem withData_spec {blocks : BlockMap} (fresh : entry.haveNumChainTxs = false) :
    let stored := withData params blocks nTx pos entry
    stored.mChainTxCount = entry.mChainTxCount ∧ stored.nSequenceId = entry.nSequenceId ∧ stored.nTx = nTx ∧
      stored.haveData = true := by
  dsimp only
  have zero : entry.mChainTxCount = 0 := by simpa [haveNumChainTxs] using fresh
  have full : ∀ flags : UInt32, flags &&& BLOCK_HAVE_DATA = 0 →
      (entry.nStatus ||| BLOCK_HAVE_DATA ||| flags) &&& BLOCK_HAVE_DATA ≠ 0 := by
    intro flags other
    rw [uint32_or_and, uint32_or_and_self, other]
    decide
  obtain ⟨_, raised⟩ := raiseValidity_eq _ BLOCK_VALID_TRANSACTIONS
  refine ⟨?_, ?_, ?_, ?_⟩
  · rw [withData, raised]
    simp [zero]
  · rw [withData, raised]
  · rw [withData, raised]
  · rw [withData, ← haveData_settled, settled_raiseValidity _ (by decide),
      haveData_settled, haveData, bne_iff_ne]
    refine full _ ?_
    split <;> decide

theorem validity_withData (unfailed : entry.failed = false) :
    BLOCK_VALID_TRANSACTIONS ≤ (withData params blocks nTx pos entry).validity := by
  have still := failed_withData params blocks nTx pos entry
  rw [withData, failed_raiseValidity _ (by decide)] at still
  exact le_validity_raiseValidity (still.trans unfailed) (by decide)

/-- What the store of the data of a block that had none changes. -/
structure Stores (pindexNew : Uint256) (state after : Chainstate) : Prop where
  frame : Keeps frame state.blocks after.blocks
  failed : Keeps failed state.blocks after.blocks
  linkedSame : Keeps haveNumChainTxs state.blocks after.blocks
  place : Keeps (fun entry => (entry.nChainWork, entry.nSequenceId)) state.blocks after.blocks
  counts : Keeps mChainTxCount state.blocks after.blocks
  stored : after.blocks.dataAt pindexNew = true
  elsewhere : ∀ key, key ≠ pindexNew → after.blocks.lookup key = state.blocks.lookup key
  transactions : ∀ entry, after.blocks.lookup pindexNew = some entry → entry.nTx ≠ 0
  validity : ∀ entry, after.blocks.lookup pindexNew = some entry → BLOCK_VALID_TRANSACTIONS ≤ entry.validity
  chain : after.mChain = state.mChain
  candidates : after.setBlockIndexCandidates = state.setBlockIndexCandidates

theorem takesData_iff : takesData blocks pindex nTx = true ↔
    nTx ≠ 0 ∧ ∃ entry, blocks.lookup pindex = some entry ∧ entry.failed = false ∧ entry.haveData = false := by
  simp [takesData, Option.any_eq_true]

theorem stores_changeEntry (data : DataShape [] state) (takes : takesData state.blocks pindexNew nTx = true) :
    Stores pindexNew state (state.changeEntry pindexNew (withData params state.blocks nTx pos)) := by
  obtain ⟨positive, entry, found, unfailed, empty⟩ := takesData_iff.mp takes
  have fresh : entry.haveNumChainTxs = false := by
    by_contra linked
    obtain ⟨_, again, _, full, _⟩ := data.entry_of_linked ((Option.any_eq_true _ _).mpr
      ⟨entry, found, Bool.not_eq_false _ ▸ linked⟩)
    cases found.symm.trans again
    cases empty.symm.trans full
  obtain ⟨counts, sequences, txs, full⟩ := @withData_spec nTx pos entry params state.blocks fresh
  have frame := frame_withData params state.blocks nTx pos entry
  have flag := failed_withData params state.blocks nTx pos entry
  have valid := @validity_withData nTx pos entry state.blocks params unfailed
  generalize withData params state.blocks nTx pos = store at *
  have own : (state.changeEntry pindexNew store).blocks.lookup pindexNew = some (store entry) := by
    rw [lookup_changeEntry, found, Option.map_some, if_pos rfl]
  have elsewhere : ∀ key, key ≠ pindexNew →
      (state.changeEntry pindexNew store).blocks.lookup key = state.blocks.lookup key := by
    intro key other
    rw [lookup_changeEntry]
    cases state.blocks.lookup key <;> simp [other]
  -- What agrees at the one entry that changes agrees everywhere.
  have keeps : ∀ {α : Type} (view : CBlockIndex → α), view (store entry) = view entry →
      Keeps view state.blocks (state.changeEntry pindexNew store).blocks := by
    intro α view same key
    by_cases here : key = pindexNew
    · rw [here, own, found, Option.map_some, Option.map_some, same]
    · rw [elsewhere key here]
  have works : (store entry).nChainWork = entry.nChainWork := (congrArg nChainWork frame :)
  refine ⟨keeps _ frame, keeps _ flag, keeps _ ?_, keeps _ ?_, keeps _ counts, ?_, elsewhere, ?_, ?_, rfl, rfl⟩
  · rw [haveNumChainTxs, haveNumChainTxs, counts]
  · rw [works, sequences]
  · rw [BlockMap.dataAt, own, Option.any_some, full]
  · intro changed foundAfter
    cases own.symm.trans foundAfter
    rw [txs]
    exact positive
  · intro changed foundAfter
    cases own.symm.trans foundAfter
    exact valid

namespace Stores

variable (stores : Stores pindexNew state after)

include stores

theorem linkedAt_eq : after.blocks.linkedAt key = state.blocks.linkedAt key :=
  stores.linkedSame.any_eq id (fun _ => rfl) key

theorem failedAt_eq : after.blocks.failedAt key = state.blocks.failedAt key :=
  stores.failed.any_eq id (fun _ => rfl) key

theorem parentOf_eq : parentOf after.blocks = parentOf state.blocks :=
  parentOf_of_keeps stores.frame

theorem dataAt_ne (other : key ≠ pindexNew) : after.blocks.dataAt key = state.blocks.dataAt key := by
  rw [BlockMap.dataAt, stores.elsewhere key other, BlockMap.dataAt]

theorem eligible_eq : after.blocks.Eligible = state.blocks.Eligible := by
  funext key
  rw [BlockMap.Eligible, stores.linkedAt_eq, stores.failedAt_eq, BlockMap.Eligible]

theorem activeChain (chain : ActiveChain connects state) : ActiveChain connects after :=
  chain.of_frame stores.frame stores.chain fun key member => by
    rw [stores.eligible_eq]
    exact chain.eligible key member

theorem covering (covering : Covering addresses connects state) : Covering addresses connects after := by
  obtain ⟨tip, found, covered⟩ := covering
  have ranks : rank addresses after.blocks = rank addresses state.blocks := by
    funext key
    have works : Keeps (fun entry => entry.nChainWork.toNat) state.blocks after.blocks :=
      stores.place.weaken (fun place => place.1.toNat) fun _ => rfl
    have sequences : Keeps nSequenceId state.blocks after.blocks := stores.place.weaken Prod.snd fun _ => rfl
    rw [rank, rank, sequences key]
    exact congrArg (fun work : Option ℕ => toLex (work.getD 0, _)) (works key)
  have sameSound := BlockMap.proven_eq connects stores.parentOf_eq
  refine ⟨tip, by rw [Chainstate.tip, stores.chain]; exact found, ?_⟩
  rw [ranks, stores.eligible_eq, sameSound, stores.candidates]
  exact covered

theorem validityShape (validity : ValidityShape state.blocks) : ValidityShape after.blocks := by
  constructor
  case tree =>
    intro key entry found
    by_cases here : key = pindexNew
    · exact UInt32.le_trans (by decide) (stores.validity entry (here ▸ found))
    · exact validity.tree key entry (stores.elsewhere key here ▸ found)
  case data =>
    intro key entry found full
    by_cases here : key = pindexNew
    · exact stores.validity entry (here ▸ found)
    · exact validity.data key entry (stores.elsewhere key here ▸ found) full

section

variable (data : DataShape [] state)

include data

theorem counted (key : Uint256) (entry : CBlockIndex) (found : after.blocks.lookup key = some entry) :
    entry.mChainTxCount.toNat ≤ (entry.nHeight.toNat + 1) * 2 ^ 32 := by
  obtain ⟨old, oldFound, counts⟩ := stores.counts.symm.found found
  obtain ⟨_, oldFound', frames⟩ := stores.frame.symm.found found
  cases oldFound.symm.trans oldFound'
  rw [← counts, ← nHeight_of_frame frames]
  exact data.counted key old oldFound

theorem transactionsShape (key : Uint256) (entry : CBlockIndex)
    (found : after.blocks.lookup key = some entry) (full : entry.haveData = true) : entry.nTx ≠ 0 := by
  by_cases here : key = pindexNew
  · exact stores.transactions entry (here ▸ found)
  · exact data.transactions key entry (stores.elsewhere key here ▸ found) full

theorem linkedData (key : Uint256) (linked : state.blocks.linkedAt key = true) : after.blocks.dataAt key = true := by
  by_cases here : key = pindexNew
  · exact here ▸ stores.stored
  · rw [stores.dataAt_ne here]
    exact data.linked_data key linked

/-- The block is queued if its parent is linked, and waits for it otherwise. -/
theorem dataShape {added : List (Uint256 × Uint256)} (unlinked : after.mBlocksUnlinked = state.mBlocksUnlinked ++ added)
    (empty : state.blocks.dataAt pindexNew = false)
    (outcome : (queue = [pindexNew] ∧ added = [] ∧ ∀ pprev, parentOf state.blocks pindexNew = some pprev →
        state.blocks.linkedAt pprev = true) ∨
      queue = [] ∧ ∃ pprev, added = [(pprev, pindexNew)] ∧ parentOf state.blocks pindexNew = some pprev ∧
        state.blocks.linkedAt pprev = false) : DataShape queue after := by
  have fresh : state.blocks.linkedAt pindexNew = false := by
    by_contra linked
    rw [data.linked_data pindexNew (Bool.not_eq_false _ ▸ linked)] at empty
    cases empty
  have other : ∀ {key pprev}, (pprev, key) ∈ state.mBlocksUnlinked → key ≠ pindexNew := by
    rintro key pprev member rfl
    cases (data.waiting pprev key member).2.1.symm.trans empty
  constructor <;> try simp only [stores.parentOf_eq, stores.linkedAt_eq, unlinked, stores.candidates, List.mem_append]
  case linked_data => exact stores.linkedData data
  case linked_parent => exact data.linked_parent
  case complete =>
    intro key stored allLinked
    by_cases here : key = pindexNew
    · rcases outcome with ⟨rfl, _⟩ | ⟨_, pprev, _, link, missing⟩
      · exact .inr (by simp [here])
      · cases missing.symm.trans (allLinked pprev (here ▸ link))
    · rw [stores.dataAt_ne here] at stored
      exact .inl ((data.complete key stored allLinked).resolve_right List.not_mem_nil)
  case queued =>
    intro key member
    rcases outcome with ⟨rfl, _, ready⟩ | ⟨rfl, _⟩
    · obtain rfl := List.mem_singleton.mp member
      exact ⟨stores.stored, fresh, ready⟩
    · cases member
  case queue_nodup =>
    rcases outcome with ⟨rfl, _⟩ | ⟨rfl, _⟩
    · exact List.nodup_singleton _
    · exact List.nodup_nil
  case waits =>
    intro key above toParent stored notLinked
    by_cases here : key = pindexNew
    · subst here
      rcases outcome with ⟨_, _, ready⟩ | ⟨_, pprev, rfl, link, _⟩
      · cases notLinked.symm.trans (ready above toParent)
      · cases link.symm.trans toParent
        exact .inr (.head _)
    · exact .inl (data.waits key above toParent (stores.dataAt_ne here ▸ stored) notLinked)
  case waiting =>
    rintro above key (member | member)
    · rw [stores.dataAt_ne (other member)]
      exact data.waiting above key member
    · rcases outcome with ⟨_, rfl, _⟩ | ⟨_, pprev, rfl, link, missing⟩
      · cases member
      · cases List.mem_singleton.mp member
        exact ⟨link, stores.stored, missing⟩
  case waiting_nodup =>
    rcases outcome with ⟨_, rfl, _⟩ | ⟨_, pprev, rfl, _⟩
    · exact (List.append_nil _).symm ▸ data.waiting_nodup
    · refine List.Nodup.append data.waiting_nodup (List.nodup_singleton _) ?_
      intro pair member last
      cases List.mem_singleton.mp last
      exact other member rfl
  case counted => exact stores.counted data
  case transactions => exact stores.transactionsShape data
  case listed => exact data.listed

end

end Stores

end Store

/-! ## Receiving a block -/

section Receive

variable {params : Params}

theorem ValidityShape.of_status {after : BlockMap} (validity : ValidityShape blocks)
    (kept : Keeps CBlockIndex.nStatus blocks after) : ValidityShape after := by
  constructor
  case tree =>
    intro key entry found
    obtain ⟨old, oldFound, same⟩ := kept.symm.found found
    rw [CBlockIndex.validity, ← same]
    exact validity.tree key old oldFound
  case data =>
    intro key entry found full
    obtain ⟨old, oldFound, same⟩ := kept.symm.found found
    rw [CBlockIndex.haveData, ← same] at full
    rw [CBlockIndex.validity, ← same]
    exact validity.data key old oldFound full

theorem FailureClosed.of_keeps {after : BlockMap} (closed : FailureClosed except blocks)
    (frame : Keeps frame blocks after) (failed : Keeps failed blocks after) : FailureClosed except after := by
  have flags : after.failedAt = blocks.failedAt := funext (failed.any_eq id fun _ => rfl)
  rw [FailureClosed, parentOf_of_keeps frame, flags]
  exact closed

/-- The data of a block may come whenever its parent is not failed. -/
theorem Consistent.receive (consistent : Consistent connects except state)
    (takes : takesData state.blocks pindexNew nTx = true)
    (stands : ∀ pprev, parentOf state.blocks pindexNew = some pprev → state.blocks.failedAt pprev = false) :
    let after := state.receivedBlockTransactions addresses params nTx pindexNew pos
    Consistent connects except after ∧ (∀ key, state.blocks.Eligible key → after.blocks.Eligible key) ∧
      (Covering addresses connects state → Covering addresses connects after) := by
  have stores := @stores_changeEntry state pindexNew nTx pos params consistent.data takes
  generalize storedIs : state.changeEntry pindexNew (withData params state.blocks nTx pos) = stored at stores
  have empty : state.blocks.dataAt pindexNew = false := by
    obtain ⟨_, entry, found, _, unfilled⟩ := takesData_iff.mp takes
    rw [BlockMap.dataAt, found, Option.any_some, unfilled]
  have unlinked : stored.mBlocksUnlinked = state.mBlocksUnlinked := by
    rw [← storedIs]
    rfl
  -- Everything but the data and the candidates is as after storing.
  have assemble : ∀ after : Chainstate, Keeps CBlockIndex.frame stored.blocks after.blocks →
      Keeps CBlockIndex.nStatus stored.blocks after.blocks → DataShape [] after →
      ActiveChain connects after → Consistent connects except after := by
    intro after frame status data chain
    have frames := stores.frame.trans frame
    have failed := stores.failed.trans (status.weaken (fun nStatus =>
      nStatus &&& BLOCK_FAILED_VALID != 0) fun _ => rfl)
    exact ⟨consistent.linked.of_keeps frames, fun key height found =>
        consistent.small key height (heightAt_of_keeps frames key ▸ found), data,
      (stores.validityShape consistent.validity).of_status status,
      consistent.closed.of_keeps frames failed, chain⟩
  have chain := stores.activeChain consistent.chain
  have linkNow : (∀ pprev, parentOf state.blocks pindexNew = some pprev → state.blocks.linkedAt pprev = true) →
      let after := linkBlocks addresses (stored.mBlocksUnlinked.length + 1) [pindexNew] stored
      Consistent connects except after ∧ (∀ key, state.blocks.Eligible key → after.blocks.Eligible key) ∧
        (Covering addresses connects state → Covering addresses connects after) := by
    intro ready
    obtain ⟨data, lastChain, eligible, covers⟩ := @linkBlocks_spec connects addresses stored [pindexNew]
      (stored.mBlocksUnlinked.length + 1)
      (stores.dataShape consistent.data (unlinked.trans (List.append_nil _).symm) empty (.inl ⟨rfl, rfl, ready⟩))
      (consistent.linked.of_keeps stores.frame) (fun key height found =>
        consistent.small key height (heightAt_of_keeps stores.frame key ▸ found)) chain
      (by rw [List.length_singleton, Nat.add_comm])
    exact ⟨assemble _ (keeps_linkBlocks _ (fun _ _ _ => rfl) _ _)
      (keeps_linkBlocks _ (fun _ _ _ => rfl) _ _) data lastChain,
      fun key before => eligible key (stores.eligible_eq ▸ before),
      fun covering => covers (stores.covering covering)⟩
  unfold receivedBlockTransactions
  dsimp only
  have toParent : (stored.blocks.lookup pindexNew).bind CBlockIndex.pprev = parentOf state.blocks pindexNew :=
    congrFun stores.parentOf_eq pindexNew
  rw [storedIs, toParent]
  cases link : parentOf state.blocks pindexNew with
  | none =>
    refine linkNow fun pprev impossible => ?_
    cases link.symm.trans impossible
  | some pprev =>
    obtain ⟨parent, parentFound⟩ := Option.isSome_iff_exists.mp
      ((stores.frame.isSome_eq pprev).trans (consistent.linked.known_parent link))
    have parentLinked : state.blocks.linkedAt pprev = parent.haveNumChainTxs := by
      rw [← stores.linkedAt_eq, BlockMap.linkedAt, parentFound, Option.any_some]
    have parentFailed : parent.failed = false := by
      have same := @Stores.failedAt_eq _ _ pprev _ stores
      rw [stands pprev link, BlockMap.failedAt, parentFound, Option.any_some] at same
      exact same
    simp only [parentFound]
    cases ready : parent.haveNumChainTxs with
    | true =>
      rw [if_pos rfl]
      refine linkNow fun above toParent => ?_
      cases link.symm.trans toParent
      exact parentLinked.trans ready
    | false =>
      have valid := (stores.validityShape consistent.validity).tree pprev parent parentFound
      rw [if_neg Bool.false_ne_true, if_pos (CBlockIndex.isValid_iff.mpr ⟨parentFailed, valid⟩)]
      -- The block was not waiting before, as it had no data.
      have fresh : ¬ stored.mBlocksUnlinked.contains (pprev, pindexNew) = true := by
        rw [unlinked, List.contains_iff_mem]
        intro member
        rw [(consistent.data.waiting pprev pindexNew member).2.1] at empty
        cases empty
      have added : stored.addUnlinkedBlock pindexNew = { stored with
          mBlocksUnlinked := stored.mBlocksUnlinked ++ [(pprev, pindexNew)] } := by
        rw [addUnlinkedBlock, toParent, link]
        exact if_neg fresh
      rw [added]
      have waits : Stores pindexNew state { stored with
          mBlocksUnlinked := stored.mBlocksUnlinked ++ [(pprev, pindexNew)] } := { stores with }
      refine ⟨assemble _ (.refl _ _) (.refl _ _) (waits.dataShape consistent.data
        (by rw [unlinked]) empty (.inr ⟨rfl, pprev, rfl, link, parentLinked.trans ready⟩))
          (waits.activeChain consistent.chain), fun key before => ?_, waits.covering⟩
      rw [waits.eligible_eq]
      exact before

end Receive

/-! ## Accepting a header -/

section Insert

variable {sha256d : Bytes → Uint256} {header : CBlockHeader} {parent : CBlockIndex}

/-- A state whose index has one more header in it. -/
structure AddsHeader (sha256d : Bytes → Uint256) (header : CBlockHeader) (parent : CBlockIndex)
    (state after : Chainstate) : Prop where
  unknown : state.blocks.lookup (header.getHash sha256d) = none
  found : state.blocks.lookup header.hashPrevBlock = some parent
  unfailed : parent.failed = false
  small : parent.nHeight < 2 ^ 31 - 1
  blocks : after.blocks = state.blocks.insert (header.getHash sha256d) (childEntry sha256d state.blocks header parent)
  chain : after.mChain = state.mChain
  unlinked : after.mBlocksUnlinked = state.mBlocksUnlinked
  candidates : after.setBlockIndexCandidates = state.setBlockIndexCandidates

namespace AddsHeader

variable (adds : AddsHeader sha256d header parent state after)

include adds

theorem lookup_of_known (known : (state.blocks.lookup key).isSome = true) :
    after.blocks.lookup key = state.blocks.lookup key := by
  obtain ⟨entry, found⟩ := Option.isSome_iff_exists.mp known
  rw [adds.blocks, lookup_insert_of_unknown adds.unknown found, found]

theorem any_eq {test : CBlockIndex → Bool} (fails : test (childEntry sha256d state.blocks header parent) = false)
    (key : Uint256) : (after.blocks.lookup key).any test = (state.blocks.lookup key).any test := by
  rw [adds.blocks]
  by_cases here : key = header.getHash sha256d
  · rw [here, AList.lookup_insert, adds.unknown, Option.any_some, fails, Option.any_none]
  · rw [AList.lookup_insert_ne here]

theorem entry_cases (found : after.blocks.lookup key = some entry) :
    entry = childEntry sha256d state.blocks header parent ∨ state.blocks.lookup key = some entry := by
  by_cases here : key = header.getHash sha256d
  · rw [here, adds.blocks, AList.lookup_insert] at found
    exact .inl (Option.some_inj.mp found).symm
  · rw [adds.blocks, AList.lookup_insert_ne here] at found
    exact .inr found

omit adds in
theorem haveData_childEntry : (childEntry sha256d state.blocks header parent).haveData = false := by
  show (BLOCK_VALID_TREE &&& BLOCK_HAVE_DATA != 0) = false
  decide

theorem linkedAt_eq : after.blocks.linkedAt = state.blocks.linkedAt :=
  funext (adds.any_eq (by rfl))

theorem dataAt_eq : after.blocks.dataAt = state.blocks.dataAt :=
  funext (adds.any_eq haveData_childEntry)

theorem failedAt_eq : after.blocks.failedAt = state.blocks.failedAt :=
  funext (adds.any_eq (by
    show (BLOCK_VALID_TREE &&& BLOCK_FAILED_VALID != 0) = false
    decide))

theorem eligible_eq : after.blocks.Eligible = state.blocks.Eligible := by
  funext key
  rw [BlockMap.Eligible, adds.linkedAt_eq, adds.failedAt_eq, BlockMap.Eligible]

theorem parentOf_known (known : (state.blocks.lookup key).isSome = true) :
    parentOf after.blocks key = parentOf state.blocks key := by
  rw [parentOf, adds.lookup_of_known known, parentOf]

theorem parentOf_cases {pprev : Uint256} (link : parentOf after.blocks key = some pprev) :
    key = header.getHash sha256d ∧ pprev = header.hashPrevBlock ∨ parentOf state.blocks key = some pprev := by
  by_cases here : key = header.getHash sha256d
  · rw [here, adds.blocks, parentOf_eq (AList.lookup_insert _)] at link
    cases link
    exact .inl ⟨here, rfl⟩
  · rw [parentOf, adds.blocks, AList.lookup_insert_ne here] at link
    exact .inr link

section

variable (linked : Linked state.blocks)

include linked

theorem below_iff (known : (state.blocks.lookup key).isSome = true) {above : Uint256} :
    Below (parentOf after.blocks) key above ↔ Below (parentOf state.blocks) key above := by
  obtain ⟨entry, found⟩ := Option.isSome_iff_exists.mp known
  simp only [Below, adds.blocks, linked.ancestor_insert adds.unknown found]

theorem proven_iff (known : (state.blocks.lookup key).isSome = true) :
    after.blocks.Proven key connects ↔ state.blocks.Proven key connects := by
  refine forall_congr' fun above => ?_
  rw [adds.below_iff linked known]
  refine forall_congr' fun below => ?_
  rw [adds.parentOf_known (linked.known_of_below known below)]

theorem height_eq : (childEntry sha256d state.blocks header parent).nHeight = parent.nHeight + 1 :=
  childEntry_nHeight linked adds.found adds.small

theorem linkedAfter : Linked after.blocks :=
  adds.blocks ▸ linked.insertChild adds.found adds.small adds.unknown

end

theorem dataShape (data : DataShape [] state) : DataShape [] after := by
  have absent : ∀ {key}, state.blocks.dataAt key = true → key ≠ header.getHash sha256d := by
    rintro key stored rfl
    rw [BlockMap.dataAt, adds.unknown] at stored
    cases stored
  have parents : ∀ {key pprev}, state.blocks.dataAt key = true →
      (parentOf after.blocks key = some pprev ↔ parentOf state.blocks key = some pprev) := by
    intro key pprev stored
    rw [parentOf, adds.blocks, AList.lookup_insert_ne (absent stored), parentOf]
  constructor <;> try simp only [adds.linkedAt_eq, adds.dataAt_eq, adds.unlinked, adds.candidates]
  case linked_data => exact data.linked_data
  case linked_parent =>
    intro key pprev link linked
    exact data.linked_parent key pprev ((parents (data.linked_data key linked)).mp link) linked
  case complete =>
    intro key stored allLinked
    exact data.complete key stored fun pprev link => allLinked pprev ((parents stored).mpr link)
  case queued => exact List.forall_mem_nil _
  case queue_nodup => exact List.nodup_nil
  case waits =>
    intro key pprev link stored notLinked
    exact data.waits key pprev ((parents stored).mp link) stored notLinked
  case waiting =>
    intro pprev key member
    obtain ⟨link, stored, notLinked⟩ := data.waiting pprev key member
    exact ⟨(parents stored).mpr link, stored, notLinked⟩
  case waiting_nodup => exact data.waiting_nodup
  case counted =>
    intro key entry found
    rcases adds.entry_cases found with rfl | before
    · exact Nat.zero_le _
    · exact data.counted key entry before
  case transactions =>
    intro key entry found full
    rcases adds.entry_cases found with rfl | before
    · cases haveData_childEntry.symm.trans full
    · exact data.transactions key entry before full
  case listed => exact data.listed

theorem activeChain (linked : Linked state.blocks) (chain : ActiveChain connects state) :
    ActiveChain connects after := by
  have known : ∀ key ∈ state.mChain, (state.blocks.lookup key).isSome = true :=
    fun key member => known_of_linkedAt (chain.eligible key member).1
  refine ⟨?_, ?_, ?_, ?_, ?_, ?_⟩ <;> rw [adds.chain]
  · exact chain.nonempty
  · intro index key placed
    rw [BlockMap.heightAt, adds.lookup_of_known (known key (List.mem_of_getElem? placed))]
    exact chain.heights index key placed
  · intro key placed
    rw [adds.parentOf_known (known key (List.mem_of_getElem? placed))]
    exact chain.root key placed
  · intro index key placed
    rw [adds.parentOf_known (known key (List.mem_of_getElem? placed))]
    exact chain.links index key placed
  · rw [adds.eligible_eq]
    exact chain.eligible
  · intro key member
    exact (adds.proven_iff linked (known key member)).mpr (chain.proven key member)

theorem consistent (consistent : Consistent connects except state) : Consistent connects except after where
  linked := adds.linkedAfter consistent.linked
  small key height found := by
    obtain ⟨entry, listed, rfl⟩ := Option.map_eq_some_iff.mp found
    rcases adds.entry_cases listed with rfl | before
    · have bound := adds.small
      rw [adds.height_eq consistent.linked]
      omega
    · exact consistent.small key _ (congrArg (Option.map nHeight) before)
  data := adds.dataShape consistent.data
  validity := by
    constructor
    case tree =>
      intro key entry found
      rcases adds.entry_cases found with rfl | before
      · show BLOCK_VALID_TREE ≤ BLOCK_VALID_TREE &&& BLOCK_VALID_MASK
        decide
      · exact consistent.validity.tree key entry before
    case data =>
      intro key entry found full
      rcases adds.entry_cases found with rfl | before
      · cases haveData_childEntry.symm.trans full
      · exact consistent.validity.data key entry before full
  closed := by
    intro key pprev link failed
    rw [adds.failedAt_eq] at failed ⊢
    rcases adds.parentOf_cases link with ⟨_, rfl⟩ | before
    · rw [BlockMap.failedAt, adds.found, Option.any_some, adds.unfailed] at failed
      cases failed
    · simp only [adds.below_iff consistent.linked (consistent.linked.known_parent before)]
      exact consistent.closed key pprev before failed
  chain := adds.activeChain consistent.linked consistent.chain

theorem covering (linked : Linked state.blocks) (chain : ActiveChain connects state)
    (covering : Covering addresses connects state) : Covering addresses connects after := by
  obtain ⟨tip, found, covered⟩ := covering
  refine ⟨tip, by rw [Chainstate.tip, adds.chain]; exact found, ?_⟩
  rw [adds.eligible_eq, adds.candidates]
  refine covered.extend (chain.eligible tip (ActiveChain.tip_mem found)) (fun _ eligible => eligible)
    ?_ ?_ (fun _ member => member) fun _ eligible before => absurd eligible before
  · exact fun node eligible => (adds.proven_iff linked (known_of_linkedAt eligible.1)).mpr
  · intro node eligible
    rw [rank, rank, adds.lookup_of_known (known_of_linkedAt eligible.1)]

end AddsHeader

end Insert

end Sharecoin
