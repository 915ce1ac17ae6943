import Sharecoin.Validation.BlockDataProperties
import Sharecoin.Validation.InvalidationProperties
import Sharecoin.Validation.MutatedArrivals

/-! Runs of the chainstate in which headers, block data and reconsiderations come in between
the locked sections of activations and invalidations. -/

set_option autoImplicit false

namespace Sharecoin

open Lib Chainstate CBlockIndex

/-! ## The invariant of a node -/

variable {state after : Chainstate} {underway : Underway} {nTx : UInt32}

section Node

variable (addresses : Addresses) (connects : Uint256 → Bool)

/-- What holds while a call is under way. Once an invalidation has disconnected blocks, only
those below the last one may be unmarked, and candidates may be missing. -/
def UnderwaySound (state : Chainstate) : Underway → Prop
  | .nothing => Consistent connects none state ∧ Covering addresses connects state
  | .activation pindexMostWork =>
    Consistent connects none state ∧ Covering addresses connects state ∧
      ∀ key, pindexMostWork = some key → state.blocks.Eligible key
  | .invalidation call =>
    (∀ header ∈ call.headers, (state.blocks.lookup header).isSome = true) ∧
      ((call.pindexWasInChain = false ∧ call.toMarkFailed = call.pindex ∧
          (state.blocks.lookup call.pindex).isSome = true ∧
          Consistent connects none state ∧ Covering addresses connects state) ∨
        (call.pindexWasInChain = true ∧ Consistent connects (some call.toMarkFailed) state ∧
          parentOf state.blocks call.toMarkFailed = state.tip))

/-- What arrives between locked sections leaves the chain alone and takes nothing away. -/
structure Arrives (state after : Chainstate) : Prop where
  consistent : ∀ except, Consistent connects except state → Consistent connects except after
  covering : ∀ except, Consistent connects except state → Covering addresses connects state →
    Covering addresses connects after
  tip : after.tip = state.tip
  known : ∀ key, (state.blocks.lookup key).isSome = true → (after.blocks.lookup key).isSome = true
  eligible : ∀ key, state.blocks.Eligible key → after.blocks.Eligible key
  parents : ∀ key, (state.blocks.lookup key).isSome = true → parentOf after.blocks key = parentOf state.blocks key

variable {addresses connects}

theorem UnderwaySound.arrive (sound : UnderwaySound addresses connects state underway)
    (arrives : Arrives addresses connects state after) : UnderwaySound addresses connects after underway := by
  cases underway with
  | nothing => exact ⟨arrives.consistent _ sound.1, arrives.covering _ sound.1 sound.2⟩
  | activation pindexMostWork =>
    obtain ⟨consistent, covering, cached⟩ := sound
    exact ⟨arrives.consistent _ consistent, arrives.covering _ consistent covering,
      fun key same => arrives.eligible key (cached key same)⟩
  | invalidation call =>
    obtain ⟨headers, cases⟩ := sound
    refine ⟨fun header member => arrives.known header (headers header member), ?_⟩
    rcases cases with ⟨never, same, known, consistent, covering⟩ | ⟨before, consistent, link⟩
    · exact .inl ⟨never, same, arrives.known _ known, arrives.consistent _ consistent,
        arrives.covering _ consistent covering⟩
    obtain ⟨tip, found⟩ := consistent.chain.exists_tip
    exact .inr ⟨before, arrives.consistent _ consistent, by
      rw [arrives.parents _ (known_of_parentOf (link.trans found)), arrives.tip, link]⟩

end Node

/-! ## Arrivals -/

variable {env : HashEnv} {addresses : Addresses} {params : CChainParams env.sha256d} {connects : Uint256 → Bool}

section Arrivals

variable {pindex : Uint256}

theorem arrives_reset (known : (state.blocks.lookup pindex).isSome = true) (linked : Linked state.blocks) :
    Arrives addresses connects state (state.resetBlockFailureFlags addresses pindex) := by
  have kept := @keeps_resetBlockFailureFlags addresses state pindex
  refine ⟨fun _ consistent => consistent.reset known,
    fun _ consistent covering => covering.reset consistent known, ?_,
    fun key before => (kept.isSome_eq key).trans before, ?_, fun key _ => ?_⟩
  · unfold resetBlockFailureFlags
    exact congrArg List.getLast? (foldl_insertCandidate_spec _ _).2.1
  · rintro key ⟨linkedKey, unfailed⟩
    refine ⟨(linkedAt_of_settled kept key).trans linkedKey, ?_⟩
    by_contra failed
    cases ((failedAt_resetBlockFailureFlags linked known).mp (Bool.not_eq_false _ ▸ failed)).1.symm.trans unfailed
  · rw [parentOf_of_settled kept]

theorem mChain_linkBlocks (turns : Nat) (queue : List Uint256) (state : Chainstate) :
    (linkBlocks addresses turns queue state).mChain = state.mChain := by
  induction turns generalizing queue state with
  | zero => rfl
  | succ turns ih =>
    cases queue with
    | nil => rfl
    | cons pindex queue => exact (ih _ _).trans mChain_linkBlock

theorem mChain_receivedBlockTransactions (consensus : Params) (nTx : UInt32) (pos : FlatFilePos) :
    (state.receivedBlockTransactions addresses consensus nTx pindex pos).mChain = state.mChain := by
  have unlinked : ∀ other : Chainstate, (other.addUnlinkedBlock pindex).mChain = other.mChain := by
    intro other
    unfold addUnlinkedBlock
    split
    · rfl
    · split <;> rfl
  unfold receivedBlockTransactions
  dsimp only
  split
  · exact mChain_linkBlocks _ _ _
  split
  · rfl
  split
  · exact mChain_linkBlocks _ _ _
  · split
    · exact unlinked _
    · rfl

theorem arrives_receive {pos : FlatFilePos} (takes : takesData state.blocks pindex nTx = true)
    (stands : ∀ pprev, parentOf state.blocks pindex = some pprev → state.blocks.failedAt pprev = false)
    (except : Option Uint256) (consistent : Consistent connects except state) :
    Arrives addresses connects state (state.receivedBlockTransactions addresses params.consensus nTx pindex pos) := by
  have kept : Keeps frame state.blocks
      (state.receivedBlockTransactions addresses params.consensus nTx pindex pos).blocks :=
    state.keeps_receivedBlockTransactions pindex (fun _ _ _ => rfl) (frame_withData params.consensus) nTx pos
  refine ⟨fun _ before => (before.receive takes stands).1,
    fun _ before => (before.receive takes stands).2.2,
    congrArg List.getLast? (mChain_receivedBlockTransactions params.consensus nTx pos),
    fun key before => (kept.isSome_eq key).trans before, (consistent.receive takes stands).2.1,
    fun key _ => ?_⟩
  rw [parentOf_of_keeps kept]

theorem AddsHeader.arrives {header : CBlockHeader} {parent : CBlockIndex}
    (adds : AddsHeader env.sha256d header parent state after) : Arrives addresses connects state after := by
  refine ⟨fun _ consistent => adds.consistent consistent,
    fun _ consistent covering => adds.covering consistent.linked consistent.chain covering, ?_,
    fun key known => by rw [adds.lookup_of_known known]; exact known, fun key eligible => ?_,
    fun key known => adds.parentOf_known known⟩
  · rw [Chainstate.tip, adds.chain, Chainstate.tip]
  · rw [adds.eligible_eq]
    exact eligible

theorem Arrives.of_blocks {chainman : ChainstateManager} (blocks : chainman.mBlockIndex = state.blocks) :
    Arrives addresses connects state { state with chainman } := by
  have blocks : { state with chainman }.blocks = state.blocks := blocks
  refine ⟨fun _ consistent => consistent.recandidate blocks rfl rfl consistent.data.listed,
    fun _ _ covering => covering.same_chain blocks rfl fun _ member _ => member, rfl, ?_, ?_, ?_⟩ <;>
    rw [blocks]
  · exact fun _ => id
  · exact fun _ => id
  · exact fun _ _ => rfl

end Arrivals

/-! ## Steps and runs -/

section Steps

variable (env : HashEnv) (addresses : Addresses) (params : CChainParams env.sha256d) (connects : Uint256 → Bool)

structure NodeSound (node : ChainNode) : Prop where
  rooted : (node.chainstate.blocks.lookup params.consensus.hashGenesisBlock).isSome = true
  sound : UnderwaySound addresses connects node.chainstate node.underway

/-- While an invalidation is under way, no data comes for a block whose parent is failed. -/
def orderly (node : ChainNode) : ChainEvent → Bool
  | .receivedBlockTransactions pindex _ _ =>
    match node.underway with
    | .invalidation _ =>
      (parentOf node.chainstate.blocks pindex).all fun pprev =>
        !node.chainstate.blocks.failedAt pprev
    | _ => true
  | _ => true

variable {env addresses params connects} {node next : ChainNode}

theorem UnderwaySound.exists_consistent
    (sound : UnderwaySound addresses connects state underway) : ∃ except, Consistent connects except state := by
  cases underway with
  | nothing => exact ⟨none, sound.1⟩
  | activation => exact ⟨none, sound.1⟩
  | invalidation call =>
    rcases sound.2 with ⟨_, _, _, consistent, _⟩ | ⟨_, consistent, _⟩
    · exact ⟨none, consistent⟩
    · exact ⟨_, consistent⟩

section

variable (sound : NodeSound env addresses params connects node)

include sound

theorem NodeSound.arrive (arrives : Arrives addresses connects node.chainstate after) :
    NodeSound env addresses params connects { node with chainstate := after } :=
  ⟨arrives.known _ sound.rooted, sound.sound.arrive arrives⟩

theorem NodeSound.acceptHeader {input : HeaderInput}
    (fits : ¬ heightOverflows env node.chainstate.blocks input.block = true) :
    NodeSound env addresses params connects { node with chainstate := { node.chainstate with
      chainman := (acceptBlockHeader env params.consensus input node.chainstate.chainman).2 } } := by
  obtain ⟨except, consistent⟩ := sound.sound.exists_consistent
  rcases headerStep_cases ⟨node.chainstate.chainman, []⟩ input (Option.isSome_iff_exists.mp sound.rooted) with
    ⟨same, -⟩ | ⟨parent, unknown, found, unfailed, -, -, inserted⟩
  · exact sound.arrive (.of_blocks same)
  have bound := consistent.small input.block.hashPrevBlock parent.nHeight
    (by rw [BlockMap.heightAt, show node.chainstate.blocks.lookup _ = some parent from found,
      Option.map_some])
  have small : parent.nHeight < 2 ^ 31 - 1 := by
    have other : parent.nHeight ≠ 2 ^ 31 - 1 := by
      intro highest
      refine fits ?_
      rw [heightOverflows, show node.chainstate.blocks.lookup (input.block.getHash env.sha256d) = none
          from unknown, show node.chainstate.blocks.lookup input.block.hashPrevBlock = some parent
          from found]
      simp [highest]
    omega
  have adds : AddsHeader env.sha256d input.block parent node.chainstate
      { node.chainstate with
        chainman := (acceptBlockHeader env params.consensus input node.chainstate.chainman).2 } :=
    ⟨unknown, found, unfailed, small, inserted, rfl, rfl, rfl⟩
  exact sound.arrive adds.arrives

/-- The parent of a block whose data is taken in orderly is not failed. -/
theorem NodeSound.stands {pindex : Uint256} {pos : FlatFilePos}
    (allowed : orderly node (.receivedBlockTransactions pindex nTx pos) = true)
    (takes : takesData node.chainstate.blocks pindex nTx = true) (pprev : Uint256)
    (link : parentOf node.chainstate.blocks pindex = some pprev) : node.chainstate.blocks.failedAt pprev = false := by
  have unfailed : node.chainstate.blocks.failedAt pindex = false := by
    obtain ⟨_, entry, found, unfailed, _⟩ := takesData_iff.mp takes
    rw [BlockMap.failedAt, found, Option.any_some, unfailed]
  have state := sound.sound
  unfold orderly at allowed
  cases call : node.underway <;> rw [call] at state
  case invalidation =>
    simp only [call, link, Option.all_some, Bool.not_eq_true'] at allowed
    exact allowed
  all_goals exact state.1.closed.unfailed_parent link unfailed

theorem NodeSound.activate {turns : Nat} {cached : Option Uint256} {round : Round}
    (free : UnderwaySound addresses connects node.chainstate (.activation cached))
    (ran : node.chainstate.activateRound addresses connects turns cached = some round) :
    NodeSound env addresses params connects
      ⟨round.state, if round.returned then .nothing else .activation round.pindexMostWork⟩ := by
  obtain ⟨consistent, covering, eligible⟩ := free
  obtain ⟨⟨still, covers⟩, kept, choice, _⟩ := activateRound_spec (fun _ _ best => best.1)
    (fun _ _ eligible => eligible) (fun _ _ _ same => same.eligible_iff.mpr) turns ⟨consistent, covering⟩ eligible ran
  refine ⟨(kept.isSome_eq _).trans sound.rooted, ?_⟩
  cases round.returned with
  | true => exact ⟨still, covers⟩
  | false => exact ⟨still, covers, choice⟩

theorem NodeSound.invalidateRound {call call' : Invalidation}
    (free : UnderwaySound addresses connects node.chainstate (.invalidation call))
    (ran : node.chainstate.invalidateRound addresses call = some (after, call')) :
    NodeSound env addresses params connects ⟨after, .invalidation call'⟩ := by
  unfold Chainstate.invalidateRound at ran
  split at ran
  · split at ran
    · cases ran
    next tip found =>
      split at ran
      · cases ran
      next newTip link =>
        cases ran
        obtain ⟨headers, cases⟩ := free
        -- Whatever was excepted before hangs on the block that is disconnected now.
        obtain ⟨except, consistent, previous⟩ : ∃ except, Consistent connects except node.chainstate ∧
              ∀ invalid ∈ except, parentOf node.chainstate.blocks invalid = some tip := by
          rcases cases with ⟨_, _, _, consistent, _⟩ | ⟨_, consistent, toTip⟩
          · exact ⟨none, consistent, nofun⟩
          · refine ⟨_, consistent, fun invalid member => ?_⟩
            cases member
            exact toTip.trans found
        obtain ⟨still, kept, newFound, newLink, left⟩ :=
          @invalidateTip_spec connects addresses node.chainstate except consistent tip newTip
            call.headers found link previous headers
        exact ⟨(kept.isSome_eq _).trans sound.rooted, left, .inr ⟨rfl, still, newLink.trans newFound.symm⟩⟩
  · cases ran
    exact ⟨sound.rooted, free⟩

end

theorem ActiveChain.outside (chain : ActiveChain connects state) {key : Uint256}
    (link : parentOf state.blocks key = state.tip) : state.contains key = false := by
  by_contra inside
  obtain ⟨index, placed⟩ := List.getElem?_of_mem (chain.contains_iff.mp (Bool.not_eq_false _ ▸ inside))
  obtain ⟨tip, found⟩ := chain.exists_tip
  have last := ActiveChain.getElem?_tip found
  cases index with
  | zero =>
    rw [chain.root key placed, found] at link
    cases link
  | succ index =>
    have within := (List.getElem?_eq_some_iff.mp placed).1
    have before := (chain.links index key placed).symm.trans (link.trans found)
    have same : (index : Int) = ((state.mChain.length - 1 : Nat) : Int) :=
      Option.some_inj.mp ((chain.heights index tip before).symm.trans (chain.heights _ tip last))
    omega

theorem NodeSound.finish (sound : NodeSound env addresses params connects node) {call : Invalidation}
    (free : UnderwaySound addresses connects node.chainstate (.invalidation call)) :
    NodeSound env addresses params connects ⟨node.chainstate.finishInvalidation addresses call, .nothing⟩ := by
  obtain ⟨_, cases⟩ := free
  cases inside : node.chainstate.contains call.toMarkFailed with
  | true =>
    rcases cases with ⟨_, _, _, consistent, covering⟩ | ⟨_, consistent, link⟩
    · rw [finishInvalidation, if_pos inside]
      exact ⟨sound.rooted, consistent, covering⟩
    · cases inside.symm.trans (consistent.chain.outside link)
  | false =>
    have result : ∃ except, Consistent connects except node.chainstate ∧
        (∀ invalid ∈ except, invalid = call.toMarkFailed) ∧
        (call.pindexWasInChain = false → call.pindex = call.toMarkFailed) ∧
        (node.chainstate.blocks.lookup call.toMarkFailed).isSome = true := by
      rcases cases with ⟨_, same, known, consistent, _⟩ | ⟨before, consistent, link⟩
      · exact ⟨none, consistent, nofun, fun _ => same.symm,
          same ▸ known⟩
      refine ⟨_, consistent, fun invalid member => (Option.mem_some_iff.mp member).symm,
        fun never => ?_, ?_⟩
      · cases never.symm.trans before
      obtain ⟨tip, found⟩ := consistent.chain.exists_tip
      exact known_of_parentOf (link.trans found)
    obtain ⟨except, consistent, excepted, same, known⟩ := result
    obtain ⟨still, kept, covers⟩ := @finishInvalidation_spec connects addresses node.chainstate except
      call consistent excepted same known inside
    exact ⟨(kept.isSome_eq _).trans sound.rooted, still, covers⟩

theorem highpowOutofchainHeaders_known {pprev header : Uint256}
    (member : header ∈ state.highpowOutofchainHeaders addresses pprev) :
    (state.blocks.lookup header).isSome = true := by
  unfold highpowOutofchainHeaders at member
  obtain ⟨⟨key, entry⟩, inside, rfl⟩ := List.mem_map.mp member
  have listed := (List.mem_filter.mp ((List.perm_insertionSort _ _).mem_iff.mp inside)).1
  rw [AList.mem_lookup_iff.mpr listed]
  rfl

/-- Every step that comes in an orderly way keeps the invariant. -/
theorem NodeSound.step (sound : NodeSound env addresses params connects node) {event : ChainEvent}
    (allowed : orderly node event = true) (stepped : chainStep env addresses params connects node event = some next) :
    NodeSound env addresses params connects next := by
  obtain ⟨except, consistent⟩ := sound.sound.exists_consistent
  have state := sound.sound
  obtain ⟨chainstate, underway⟩ := node
  unfold chainStep at stepped
  cases event with
  | acceptBlockHeader input =>
    obtain ⟨fits, ⟨⟩⟩ := Option.ite_none_left_eq_some.mp stepped
    exact sound.acceptHeader fits
  | receivedBlockTransactions pindex nTx pos =>
    obtain ⟨takes, ⟨⟩⟩ := Option.ite_none_right_eq_some.mp stepped
    exact sound.arrive (arrives_receive takes (sound.stands allowed takes) except consistent)
  | resetBlockFailureFlags pindex =>
    obtain ⟨known, ⟨⟩⟩ := Option.ite_none_right_eq_some.mp stepped
    exact sound.arrive (arrives_reset known consistent.linked)
  | activateRound turns =>
    cases underway with
    | nothing =>
      dsimp only at stepped
      split at stepped
      · cases stepped
      next round ran =>
        cases stepped
        exact sound.activate ⟨state.1, state.2, fun _ impossible => by cases impossible⟩ ran
    | activation cached =>
      dsimp only at stepped
      split at stepped
      · cases stepped
      next round ran =>
        cases stepped
        exact sound.activate state ran
    | invalidation invalidation => cases stepped
  | activateInterrupt =>
    cases underway with
    | activation cached =>
      cases stepped
      exact ⟨sound.rooted, state.1, state.2.1⟩
    | _ => cases stepped
  | invalidateStart pindex =>
    dsimp only at stepped
    split at stepped
    next call started =>
      cases stepped
      unfold startInvalidation at started
      split at started
      · cases started
      split at started
      · cases started
      next pprev link =>
        cases started
        exact ⟨sound.rooted, fun header member => highpowOutofchainHeaders_known member,
          .inl ⟨rfl, rfl, known_of_parentOf link, state.1, state.2⟩⟩
    next => cases stepped
  | invalidateRound =>
    cases underway with
    | invalidation call =>
      obtain ⟨⟨after, rest⟩, ran, rfl⟩ := Option.map_eq_some_iff.mp stepped
      exact sound.invalidateRound state ran
    | _ => cases stepped
  | invalidateFinish =>
    cases underway with
    | invalidation call =>
      cases stepped
      exact sound.finish state
    | _ => cases stepped

theorem NodeSound.run {events : List ChainEvent} (sound : NodeSound env addresses params connects node)
    (ran : runChain env addresses params connects orderly events node = some next) :
    NodeSound env addresses params connects next := by
  induction events generalizing node with
  | nil =>
    cases ran
    exact sound
  | cons event events ih =>
    rw [runChain] at ran
    split at ran
    next allowed =>
      split at ran
      · cases ran
      next middle stepped => exact ih (sound.step allowed stepped) ran
    next => cases ran

end Steps

/-! ## The start -/

section Start

variable (pos : FlatFilePos)

/-- The entry of the genesis block once its data is there. -/
def loadedGenesis (params : CChainParams env.sha256d) (pos : FlatFilePos) : CBlockIndex :=
  let blocks : BlockMap := AList.singleton params.consensus.hashGenesisBlock (genesisEntry params.genesis)
  let stored := withData params.consensus blocks 1 pos (genesisEntry params.genesis)
  { stored with mChainTxCount := 1, nSequenceId := SEQ_ID_INIT_FROM_DISK + 1 }

theorem loadedGenesis_spec : (loadedGenesis params pos).pprev = none ∧ (loadedGenesis params pos).pskip = none ∧
      (loadedGenesis params pos).nHeight = 0 ∧ (loadedGenesis params pos).nTx = 1 ∧
      (loadedGenesis params pos).haveData = true ∧ (loadedGenesis params pos).failed = false ∧
      BLOCK_VALID_TRANSACTIONS ≤ (loadedGenesis params pos).validity := by
  have fresh : (genesisEntry params.genesis).haveNumChainTxs = false := by
    rw [genesisEntry_eq]
    rfl
  have unfailed : (genesisEntry params.genesis).failed = false := by
    rw [genesisEntry_eq]
    show (BLOCK_VALID_TREE &&& BLOCK_FAILED_VALID != 0) = false
    decide
  obtain ⟨_, _, txs, full⟩ := @withData_spec 1 pos _ params.consensus
    (AList.singleton params.consensus.hashGenesisBlock (genesisEntry params.genesis)) fresh
  have frame := frame_withData params.consensus
    (AList.singleton params.consensus.hashGenesisBlock (genesisEntry params.genesis)) 1 pos
    (genesisEntry params.genesis)
  refine ⟨(pprev_of_frame frame).trans ?_, (pskip_of_frame frame).trans ?_,
    (nHeight_of_frame frame).trans (genesisEntry_nHeight params.genesis), txs, full,
    (failed_withData _ _ _ _ _).trans unfailed, validity_withData unfailed⟩ <;>
    rw [genesisEntry_eq] <;> rfl

theorem lookup_genesisChainman (key : Uint256) : (genesisChainman env params).mBlockIndex.lookup key =
      if key = params.consensus.hashGenesisBlock then some (genesisEntry params.genesis) else none := by
  rw [genesisChainman, ← AList.insert_empty]
  split
  next same => rw [same, AList.lookup_insert]
  next other => rw [AList.lookup_insert_ne other, AList.lookup_empty]

theorem loadGenesisBlock_eq : loadGenesisBlock env addresses params pos =
      (({ chainman := genesisChainman env params } : Chainstate).changeEntry
        params.consensus.hashGenesisBlock (withData params.consensus
          (genesisChainman env params).mBlockIndex 1 pos)).linkBlock addresses
            params.consensus.hashGenesisBlock := by
  unfold loadGenesisBlock receivedBlockTransactions
  dsimp only
  have parentless : ((({ chainman := genesisChainman env params } : Chainstate).changeEntry
      params.consensus.hashGenesisBlock (withData params.consensus
        ({ chainman := genesisChainman env params } : Chainstate).blocks 1 pos)).blocks.lookup
          params.consensus.hashGenesisBlock).bind pprev = none := by
    rw [lookup_changeEntry, show ({ chainman := genesisChainman env params } : Chainstate).blocks.lookup
      params.consensus.hashGenesisBlock = _ from lookup_genesisChainman _, if_pos rfl, Option.map_some, if_pos rfl,
      Option.bind_some]
    exact (@loadedGenesis_spec env params pos).1
  rw [parentless]
  rfl

theorem lookup_genesisNode (key : Uint256) : (genesisNode env addresses params pos).chainstate.blocks.lookup key =
      if key = params.consensus.hashGenesisBlock then some (loadedGenesis params pos) else none := by
  obtain ⟨rootless, -, -, txs, -⟩ := @loadedGenesis_spec env params pos
  change ((loadGenesisBlock env addresses params pos).changeEntries _ _).blocks.lookup key = _
  rw [blocks_changeEntries, lookup_mapEntries, loadGenesisBlock_eq, lookup_linkBlock, lookup_changeEntry]
  change Option.map _ (Option.map _ (Option.map _ ((genesisChainman env params).mBlockIndex.lookup key))) = _
  rw [lookup_genesisChainman]
  split
  next same =>
    have sum : ∀ blocks, prevTxSum blocks (withData params.consensus
        (genesisChainman env params).mBlockIndex 1 pos (genesisEntry params.genesis)) = 1 := by
      intro blocks
      change prevTxSum blocks (loadedGenesis params pos) = 1
      rw [prevTxSum, rootless, txs]
      rfl
    rw [Option.map_some, Option.map_some, sum]
    change Option.map _ (some (loadedGenesis params pos)) = _
    simp [rootless]
  next => rfl

theorem genesisNode_fields :
    (genesisNode env addresses params pos).chainstate.mChain = [params.consensus.hashGenesisBlock] ∧
      (genesisNode env addresses params pos).chainstate.mBlocksUnlinked = [] ∧
      (genesisNode env addresses params pos).chainstate.setBlockIndexCandidates =
        [params.consensus.hashGenesisBlock] := by
  refine ⟨?_, ?_, ?_⟩
  · change (loadGenesisBlock env addresses params pos).mChain ++ _ = _
    rw [loadGenesisBlock_eq, mChain_linkBlock]
    rfl
  · change (loadGenesisBlock env addresses params pos).mBlocksUnlinked = _
    rw [loadGenesisBlock_eq, mBlocksUnlinked_linkBlock]
    rfl
  · change (loadGenesisBlock env addresses params pos).setBlockIndexCandidates = _
    rw [loadGenesisBlock_eq]
    rfl

theorem genesisNode_sound : NodeSound env addresses params connects (genesisNode env addresses params pos) := by
  obtain ⟨pprev, pskip, height, txs, full, unfailed, valid⟩ := @loadedGenesis_spec env params pos
  obtain ⟨chain, unlinked, candidates⟩ := @genesisNode_fields env addresses params pos
  have lookup := @lookup_genesisNode env addresses params pos
  suffices sound : ∀ state : Chainstate, state = (genesisNode env addresses params pos).chainstate →
      (state.blocks.lookup params.consensus.hashGenesisBlock).isSome = true ∧ Consistent connects none state ∧
        Covering addresses connects state from ⟨(sound _ rfl).1, (sound _ rfl).2⟩
  intro state same
  rw [← same] at chain unlinked candidates
  simp only [← same] at lookup
  have own : state.blocks.lookup params.consensus.hashGenesisBlock = some (loadedGenesis params pos) := by
    rw [lookup, if_pos rfl]
  have only : ∀ {key entry}, state.blocks.lookup key = some entry →
      key = params.consensus.hashGenesisBlock ∧ entry = loadedGenesis params pos := by
    intro key entry found
    rw [lookup] at found
    split at found
    next same =>
      cases found
      exact ⟨same, rfl⟩
    next => cases found
  have rootless : ∀ key, parentOf state.blocks key = none := by
    intro key
    rw [parentOf, lookup]
    split
    next => exact pprev
    next => rfl
  have eligible : state.blocks.Eligible params.consensus.hashGenesisBlock := by
    rw [BlockMap.Eligible, BlockMap.linkedAt, BlockMap.failedAt, own]
    exact ⟨rfl, unfailed⟩
  have views : ∀ {key test}, (state.blocks.lookup key).any test = true → key = params.consensus.hashGenesisBlock := by
    intro key test passes
    obtain ⟨entry, found, _⟩ := (Option.any_eq_true _ _).mp passes
    exact (only found).1
  have activeChain : ActiveChain connects state := by
    refine ⟨?_, ?_, ?_, ?_, ?_, ?_⟩ <;> rw [chain]
    · exact List.cons_ne_nil _ _
    · intro index key placed
      obtain ⟨within, rfl⟩ := List.getElem?_eq_some_iff.mp placed
      obtain rfl : index = 0 := by simpa using within
      rw [BlockMap.heightAt, List.getElem_cons_zero, own, Option.map_some, height]
      rfl
    · exact fun key _ => rootless key
    · intro index key placed
      have within := (List.getElem?_eq_some_iff.mp placed).1
      simp at within
    · intro key member
      rw [List.mem_singleton.mp member]
      exact eligible
    · exact fun key _ above _ => .inr (rootless above)
  have consistent : Consistent connects none state := by
    constructor
    case linked =>
      refine .of_entries fun key entry found => ?_
      rw [(only found).2, height, pprev, pskip]
      exact ⟨le_rfl, fun _ => rfl, by simp, by simp⟩
    case small =>
      intro key bound found
      obtain ⟨entry, entryFound, rfl⟩ := Option.map_eq_some_iff.mp found
      rw [(only entryFound).2, height]
      decide
    case data =>
      constructor
      case linked_data =>
        intro key linked
        rw [views linked, BlockMap.dataAt, own]
        exact full
      case linked_parent =>
        intro key above link _
        cases (rootless key).symm.trans link
      case complete =>
        intro key stored _
        rw [views stored]
        exact .inl eligible.1
      case queued => exact List.forall_mem_nil _
      case queue_nodup => exact List.nodup_nil
      case waits =>
        intro key above link _ _
        cases (rootless key).symm.trans link
      case waiting =>
        intro above key member
        rw [unlinked] at member
        cases member
      case waiting_nodup =>
        rw [unlinked]
        exact List.nodup_nil
      case counted =>
        intro key entry found
        rw [(only found).2, height]
        show (1 : UInt64).toNat ≤ _
        decide
      case transactions =>
        intro key entry found _
        rw [(only found).2, txs]
        decide
      case listed =>
        intro key member
        rw [candidates] at member
        rw [List.mem_singleton.mp member]
        exact eligible.1
    case validity =>
      constructor
      case tree =>
        intro key entry found
        rw [(only found).2]
        exact UInt32.le_trans (by decide) valid
      case data =>
        intro key entry found _
        rw [(only found).2]
        exact valid
    case closed =>
      intro key above link _
      cases (rootless key).symm.trans link
    case chain => exact activeChain
  have tip : state.tip = some params.consensus.hashGenesisBlock := by
    rw [Chainstate.tip, chain]
    rfl
  refine ⟨by rw [own]; rfl, consistent, covering_of_complete consistent tip ?_⟩
  intro key chosen _
  rw [views chosen.1, candidates]
  exact List.mem_singleton_self _

end Start

/-! ## The best chain -/

section Selection

variable {pos : FlatFilePos} {events : List ChainEvent} {node : ChainNode}

/-- Headers, block data, activations, invalidations and reconsiderations may be interleaved in
any way, also within the calls, as long as no data comes below a block that is failed while an
invalidation is under way. An activation that ends by itself then leaves the best tip, unless
something else came in between its rounds and there is more to do. -/
theorem activateBestChain_selects
    (ran : runChain env addresses params connects orderly events (genesisNode env addresses params pos) = some node) :
    (∀ turns rounds after, node.underway = .nothing →
        node.chainstate.activateBestChain addresses connects turns rounds = some (after, true) →
        BestTip after) ∧
      (∀ turns cached round, node.underway = .activation cached →
        node.chainstate.activateRound addresses connects turns cached = some round →
        round.returned = true → NothingPending addresses round.state → BestTip round.state) := by
  have sound := (@genesisNode_sound env addresses params connects pos).run ran
  constructor
  · intro turns rounds after idle returned
    have state := sound.sound
    rw [idle] at state
    exact activateRounds_spec turns (rounds + 1) ⟨state.1, state.2⟩ (fun _ impossible => by cases impossible) returned
  intro turns cached round call returned done nothing
  have state := sound.sound
  rw [call] at state
  have later := (sound.activate state returned).sound
  rw [done, if_pos rfl] at later
  exact bestTip_of_nothingPending ⟨later.1, later.2⟩ nothing

/-! A chain of two blocks with a second branch on its first block, the upper block of which is
not known yet when the first block is invalidated. -/

def forkEnv : HashEnv := ⟨quickHash, fun _ _ _ _ _ _ => true⟩

def forkAddresses : Addresses := ⟨Uint256.toNat, Uint256.toNat_injective⟩

def forkParams : CChainParams quickHash := regtestParams quickHash

def forkHeader (hashPrevBlock : Uint256) (nHeight delay : UInt32) : CBlockHeader :=
  { nVersion := 4
    hashPrevBlock
    hashMerkleRoot := .zero
    nTime := forkParams.genesis.nTime + delay
    nBits := forkParams.genesis.nBits
    nHeight
    nNonce64 := 0
    mixHash := .zero }

def trunkHeader : CBlockHeader := forkHeader forkParams.consensus.hashGenesisBlock 1 1

def trunk : Uint256 := trunkHeader.getHash quickHash

def leftHeader : CBlockHeader := forkHeader trunk 2 2

def rightHeader : CBlockHeader := forkHeader trunk 2 3

def right : Uint256 := rightHeader.getHash quickHash

def upperHeader : CBlockHeader := forkHeader right 3 4

def upper : Uint256 := upperHeader.getHash quickHash

def headerEvent (header : CBlockHeader) : ChainEvent :=
  .acceptBlockHeader ⟨header, true, 1296688602⟩

def dataEvent (pindex : Uint256) : ChainEvent := .receivedBlockTransactions pindex 1 ⟨0, 300⟩

/-- The first block is invalidated, and the upper header comes between two sections. -/
def invalidationEvents : List ChainEvent :=
  [headerEvent trunkHeader, headerEvent leftHeader, dataEvent trunk,
    dataEvent (leftHeader.getHash quickHash), .activateRound 3, .activateRound 3,
    headerEvent rightHeader, .invalidateStart trunk, .invalidateRound, headerEvent upperHeader,
    .invalidateRound]

/-- The data of the upper block comes before the invalidation has ended. -/
def racingEvents : List ChainEvent :=
  invalidationEvents ++ [dataEvent upper, .invalidateFinish, .resetBlockFailureFlags trunk, dataEvent right]

/-- The data of the upper block comes once the first block is reconsidered. -/
def settledEvents : List ChainEvent :=
  invalidationEvents ++ [.invalidateFinish, .resetBlockFailureFlags trunk, dataEvent upper, dataEvent right]

def forkRun (allowed : ChainNode → ChainEvent → Bool) (events : List ChainEvent) : Option ChainNode :=
  runChain forkEnv forkAddresses forkParams (fun _ => true) allowed events
    (genesisNode forkEnv forkAddresses forkParams ⟨0, 8⟩)

def forkActivation (allowed : ChainNode → ChainEvent → Bool) (events : List ChainEvent) : Option (Chainstate × Bool) :=
  (forkRun allowed events).bind fun node =>
    node.chainstate.activateBestChain forkAddresses (fun _ => true) 3 3

theorem activateBestChain_selects_settled :
    ∃ node after, forkRun orderly settledEvents = some node ∧ node.underway = .nothing ∧
      node.chainstate.activateBestChain forkAddresses (fun _ => true) 3 3 = some (after, true) ∧
      after.tip = some upper ∧ BestTip after := by
  have evaluated : ((forkRun orderly settledEvents).map ChainNode.underway,
      (forkActivation orderly settledEvents).map fun result => (result.1.tip, result.2)) =
        (some .nothing, some (some upper, true)) := by
    decide +kernel
  obtain ⟨idle, activated⟩ := Prod.mk.inj evaluated
  obtain ⟨node, ran, underway⟩ := Option.map_eq_some_iff.mp idle
  obtain ⟨⟨after, ended⟩, returned, result⟩ := Option.map_eq_some_iff.mp activated
  obtain ⟨tip, rfl⟩ := Prod.mk.inj result
  rw [forkActivation, ran, Option.bind_some] at returned
  exact ⟨node, after, ran, underway, returned, tip, (activateBestChain_selects ran).1 3 3 after underway returned⟩

/-- The upper block is lost: its data came below a failed block, so it does not wait for its
parent. The tip has less work, and nothing is left to do. -/
theorem upper_block_lost : ∃ node after, forkRun (fun _ _ => true) racingEvents = some node ∧ node.underway = .nothing ∧
      node.chainstate.activateBestChain forkAddresses (fun _ => true) 3 3 = some (after, true) ∧
      NothingPending forkAddresses after ∧ Usable after.blocks upper ∧ ¬ BestTip after := by
  have idle : (forkRun (fun _ _ => true) racingEvents).map ChainNode.underway = some .nothing := by decide +kernel
  have activated : (forkActivation (fun _ _ => true) racingEvents).any (fun result =>
      result.2 && (result.1.findMostWorkChain forkAddresses).map Prod.fst == some result.1.tip &&
        [(upper, some right), (right, some trunk), (trunk, some forkParams.consensus.hashGenesisBlock),
          (forkParams.consensus.hashGenesisBlock, none)].all fun link =>
            result.1.blocks.dataAt link.1 && !result.1.blocks.failedAt link.1 &&
              parentOf result.1.blocks link.1 == link.2) = true := by
    decide +kernel
  have worked : (forkActivation (fun _ _ => true) racingEvents).map (fun result =>
      ((result.1.tip.bind result.1.blocks.lookup).map nChainWork,
        (result.1.blocks.lookup upper).map nChainWork)) = some (some 6, some 8) := by
    decide +kernel
  obtain ⟨node, ran, underway⟩ := Option.map_eq_some_iff.mp idle
  obtain ⟨⟨after, ended⟩, returned, works⟩ := Option.map_eq_some_iff.mp worked
  obtain ⟨tipWork, upperWork⟩ := Prod.mk.inj works
  rw [returned, Option.any_some] at activated
  rw [forkActivation, ran, Option.bind_some] at returned
  simp only [List.all_cons, List.all_nil, Bool.and_eq_true, Bool.not_eq_true', beq_iff_eq] at activated
  obtain ⟨⟨rfl, nothing⟩, upperStands, rightStands, trunkStands, genesisStands, _⟩ := activated
  have genesis := Usable.of_parent genesisStands.1 (by simp [genesisStands.2])
  have trunk := Usable.of_parent trunkStands.1 (by simpa [trunkStands.2])
  have right := Usable.of_parent rightStands.1 (by simpa [rightStands.2])
  have usable := Usable.of_parent upperStands.1 (by simpa [upperStands.2])
  obtain ⟨⟨_, pruned⟩, searched, same⟩ := Option.map_eq_some_iff.mp nothing
  refine ⟨node, after, ran, underway, returned, ⟨pruned, ?_⟩, usable, ?_⟩
  · rw [searched]
    exact congrArg some (Prod.ext same rfl)
  rintro ⟨tip, entry, found, entryFound, _, best⟩
  rw [found, Option.bind_some, entryFound, Option.map_some, Option.some_inj] at tipWork
  obtain ⟨other, otherFound, work⟩ := Option.map_eq_some_iff.mp upperWork
  have less := best upper other otherFound usable
  rw [work, tipWork] at less
  exact absurd less (by decide)

end Selection

end Sharecoin
