import Sharecoin.Validation.ChainInvariant

/-! Activation keeps the invariant of the chainstate, and ends on the best block there is. -/

set_option autoImplicit false

namespace Sharecoin

open Lib Chainstate CBlockIndex

/-! ## Marking blocks as failed -/

section Marking

variable (state : Chainstate) (key pindex : Uint256)

theorem failedAt_mark (changed : Uint256 → Bool) :
    (state.changeEntries (fun key _ => changed key) markFailed).blocks.failedAt key = true ↔
      state.blocks.failedAt key = true ∨ (state.blocks.lookup key).isSome = true ∧ changed key = true := by
  rw [blocks_changeEntries, BlockMap.failedAt, BlockMap.failedAt, lookup_mapEntries]
  cases state.blocks.lookup key with
  | none => simp
  | some entry => cases changed key <;> simp [failed_markFailed]

@[simp] theorem mChain_invalidChainFound : (state.invalidChainFound pindex).mChain = state.mChain := by
  obtain ⟨_, _, same⟩ := state.invalidChainFound_eq pindex
  rw [same]

@[simp] theorem mBlocksUnlinked_invalidChainFound :
    (state.invalidChainFound pindex).mBlocksUnlinked = state.mBlocksUnlinked := by
  obtain ⟨_, _, same⟩ := state.invalidChainFound_eq pindex
  rw [same]

@[simp] theorem candidates_invalidChainFound :
    (state.invalidChainFound pindex).setBlockIndexCandidates = state.setBlockIndexCandidates := by
  obtain ⟨_, _, same⟩ := state.invalidChainFound_eq pindex
  rw [same]

variable {state key pindex}

theorem failedAt_invalidChainFound (linked : Linked state.blocks) (known : (state.blocks.lookup pindex).isSome = true) :
    (state.invalidChainFound pindex).blocks.failedAt key = true ↔
      state.blocks.failedAt key = true ∨ (state.blocks.lookup key).isSome = true ∧ key ≠ pindex ∧
        Below (parentOf state.blocks) key pindex := by
  have marked : (state.invalidChainFound pindex).blocks = (state.changeEntries (fun key _ =>
      key != pindex && descendsFrom state.blocks key pindex) markFailed).blocks := by
    rw [blocks_invalidChainFound, blocks_changeEntries]
  rw [marked, failedAt_mark, Bool.and_eq_true, bne_iff_ne]
  refine or_congr_right (and_congr_right fun knownKey => and_congr_right fun _ => ?_)
  exact linked.descendsFrom_iff knownKey known

end Marking

/-- What holds whenever activation looks for a block. -/
structure Ready (addresses : Addresses) (connects : Uint256 → Bool) (state : Chainstate) : Prop where
  consistent : Consistent connects none state
  covering : Covering addresses connects state

/-- A block and what descends from it become failed, and it leaves the candidates. -/
structure FailsBlock (bad : Uint256) (state after : Chainstate) : Prop where
  kept : Keeps settled state.blocks after.blocks
  validity : Keeps validity state.blocks after.blocks
  failed : ∀ key, after.blocks.failedAt key = true ↔ state.blocks.failedAt key = true ∨
    (state.blocks.lookup key).isSome = true ∧ Below (parentOf state.blocks) key bad
  chain : after.mChain = state.mChain
  unlinked : after.mBlocksUnlinked = state.mBlocksUnlinked
  listed : ∀ key, key ∈ after.setBlockIndexCandidates → key ∈ state.setBlockIndexCandidates
  stays : ∀ key ∈ state.setBlockIndexCandidates, key ≠ bad → key ∈ after.setBlockIndexCandidates

variable {connects : Uint256 → Bool} {addresses : Addresses} {after : Chainstate} {front : Uint256} {blocks : BlockMap}

variable {state middle : Chainstate} {key : Uint256}

section Failing

variable {bad : Uint256}

theorem failsBlock_invalidBlockFound (linked : Linked state.blocks) (known : (state.blocks.lookup bad).isSome = true) :
    FailsBlock bad state (state.invalidBlockFound bad .blockConsensus) := by
  have own : Keeps settled state.blocks
      ((state.changeEntry bad markFailed).eraseCandidate bad).blocks :=
    state.keeps_changeEntries settled_markFailed fun key _ => key == bad
  have marks : ∀ key, ((state.changeEntry bad markFailed).eraseCandidate
      bad).blocks.failedAt key = true ↔ state.blocks.failedAt key = true ∨
        (state.blocks.lookup key).isSome = true ∧ (key == bad) = true :=
    fun key => failedAt_mark state key (· == bad)
  have parents := parentOf_of_settled own
  refine ⟨state.keeps_invalidBlockFound bad settled_markFailed _,
    state.keeps_invalidBlockFound bad validity_markFailed _, ?_, ?_, ?_, ?_, ?_⟩
  · intro key
    rw [invalidBlockFound, if_neg (by decide),
      failedAt_invalidChainFound (linked.of_keeps (frame_of_settled own))
        ((own.isSome_eq bad).trans known), marks key, own.isSome_eq, parents, beq_iff_eq]
    constructor
    · rintro ((failed | ⟨known, rfl⟩) | ⟨known, _, below⟩)
      · exact .inl failed
      · exact .inr ⟨known, .refl _ key⟩
      · exact .inr ⟨known, below⟩
    rintro (failed | ⟨known, below⟩)
    · exact .inl (.inl failed)
    · by_cases same : key = bad
      · exact .inl (.inr ⟨known, same⟩)
      · exact .inr ⟨known, same, below⟩
  · exact mChain_invalidChainFound _ _
  · exact mBlocksUnlinked_invalidChainFound _ _
  · intro key member
    rw [invalidBlockFound, if_neg (by decide), candidates_invalidChainFound] at member
    exact (List.mem_filter.mp member).1
  · intro key member other
    rw [invalidBlockFound, if_neg (by decide), candidates_invalidChainFound]
    exact List.mem_filter.mpr ⟨member, bne_iff_ne.mpr other⟩

/-- The chain above the block was marked with it. -/
theorem FailsBlock.invalidChainFound (fails : FailsBlock bad state after) (linked : Linked state.blocks)
    (known : (state.blocks.lookup front).isSome = true) (below : Below (parentOf state.blocks) front bad) :
    FailsBlock bad state (after.invalidChainFound front) := by
  have parents := parentOf_of_settled fails.kept
  refine ⟨fails.kept.trans (after.keeps_invalidChainFound front settled_markFailed),
    fails.validity.trans (after.keeps_invalidChainFound front validity_markFailed), ?_,
    (mChain_invalidChainFound _ _).trans fails.chain,
    (mBlocksUnlinked_invalidChainFound _ _).trans fails.unlinked, ?_, ?_⟩
  · intro key
    rw [failedAt_invalidChainFound (linked.of_keeps (frame_of_settled fails.kept))
      ((fails.kept.isSome_eq front).trans known), fails.failed, fails.kept.isSome_eq, parents]
    constructor
    · rintro (marked | ⟨knownKey, _, above⟩)
      · exact marked
      · exact .inr ⟨knownKey, above.trans below⟩
    · exact .inl
  · intro key member
    rw [candidates_invalidChainFound] at member
    exact fails.listed key member
  · intro key member other
    rw [candidates_invalidChainFound]
    exact fails.stays key member other

theorem FailsBlock.failed_eq_false (fails : FailsBlock bad state after)
    (unfailed : state.blocks.failedAt key = false) (apart : ¬ Below (parentOf state.blocks) key bad) :
    after.blocks.failedAt key = false := by
  by_contra failed
  rcases (fails.failed key).mp (Bool.not_eq_false _ ▸ failed) with before | ⟨_, below⟩
  · rw [unfailed] at before
    cases before
  · exact apart below

theorem validity_le_of_keeps {after : BlockMap} (kept : Keeps validity blocks after)
    (key : Uint256) (entry changed : CBlockIndex) (found : blocks.lookup key = some entry)
    (foundAfter : after.lookup key = some changed) : entry.validity ≤ changed.validity := by
  obtain ⟨_, found', same⟩ := kept.found found
  cases foundAfter.symm.trans found'
  exact same ▸ UInt32.le_refl _

/-- A block that cannot be connected is not below one whose ancestors all can. -/
theorem BlockMap.Proven.apart (proven : blocks.Proven key connects)
    (refused : connects bad = false) (inner : parentOf blocks bad ≠ none) : ¬ Below (parentOf blocks) key bad := by
  intro below
  rcases proven bad below with accepted | root
  · rw [refused] at accepted
    cases accepted
  · exact inner root

section

variable (fails : FailsBlock bad state after) (refused : connects bad = false)
  (inner : parentOf state.blocks bad ≠ none)

include fails refused inner

theorem Consistent.fail (consistent : Consistent connects none state) : Consistent connects none after := by
  have parents := parentOf_of_settled fails.kept
  refine consistent.reflag fails.kept (validity_le_of_keeps fails.validity) fails.unlinked
    (fun key member => consistent.data.listed key (fails.listed key member)) ?_ ?_
  · intro key pprev link failed
    left
    rw [parents] at link
    refine (fails.failed key).mpr ?_
    rcases (fails.failed pprev).mp failed with before | ⟨_, below⟩
    · refine .inl (by_contra fun unfailed => ?_)
      cases before.symm.trans (consistent.closed.unfailed_parent link (Bool.not_eq_true _ ▸ unfailed))
    · exact .inr ⟨known_of_parentOf link, .of_parent link below⟩
  · refine consistent.chain.reflag fails.kept fails.chain fun key member => ?_
    exact fails.failed_eq_false (consistent.chain.eligible key member).2
      ((consistent.chain.proven key member).apart refused inner)

theorem Covering.fail (covering : Covering addresses connects state) : Covering addresses connects after := by
  obtain ⟨tip, found, covered⟩ := covering
  have parents := parentOf_of_settled fails.kept
  have links := linkedAt_of_settled fails.kept
  have sameSound := BlockMap.proven_eq connects parents
  refine ⟨tip, by rw [Chainstate.tip, fails.chain]; exact found, ?_⟩
  rw [rank_of_settled fails.kept, sameSound]
  refine covered.restrict ?_ ?_ ?_
  · rintro key ⟨linked, unfailed⟩
    refine ⟨(links key).symm.trans linked, ?_⟩
    by_contra failed
    rw [(fails.failed key).mpr (.inl (Bool.not_eq_false _ ▸ failed))] at unfailed
    cases unfailed
  · rintro key proven ⟨linked, unfailed⟩
    exact ⟨(links key).trans linked, fails.failed_eq_false unfailed (proven.apart refused inner)⟩
  · rintro key member ⟨linked, unfailed⟩
    refine fails.stays key member ?_
    rintro rfl
    have known : (state.blocks.lookup key).isSome = true := known_of_linkedAt ((links key).symm.trans linked)
    rw [(fails.failed key).mpr (.inr ⟨known, .refl _ key⟩)] at unfailed
    cases unfailed

end

end Failing

/-! ## Connecting blocks -/

/-- Nothing becomes failed or is cleared. -/
structure SameFlags (state after : Chainstate) : Prop where
  kept : Keeps settled state.blocks after.blocks
  failed : ∀ key, after.blocks.failedAt key = state.blocks.failedAt key

section Connecting

variable {except : Option Uint256}

theorem SameFlags.refl (state : Chainstate) : SameFlags state state := ⟨.refl _ _, fun _ => rfl⟩

theorem SameFlags.trans (first : SameFlags state middle) (second : SameFlags middle after) : SameFlags state after :=
  ⟨first.kept.trans second.kept, fun key => (second.failed key).trans (first.failed key)⟩

theorem SameFlags.eligible_iff (same : SameFlags state after) :
    after.blocks.Eligible key ↔ state.blocks.Eligible key := by
  rw [BlockMap.Eligible, BlockMap.Eligible, linkedAt_of_settled same.kept, same.failed]

theorem SameFlags.parentOf_eq (same : SameFlags state after) : parentOf after.blocks = parentOf state.blocks :=
  parentOf_of_settled same.kept

theorem ActiveChain.append (chain : ActiveChain connects state) (linked : Linked state.blocks)
    {tip : Uint256} (found : state.tip = some tip) (link : parentOf state.blocks key = some tip)
    (eligible : state.blocks.Eligible key) (accepted : connects key = true) :
    ActiveChain connects { state with mChain := state.mChain ++ [key] } := by
  have placed : ∀ {index : Nat} {node : Uint256}, (state.mChain ++ [key])[index]? = some node →
      state.mChain[index]? = some node ∨ index = state.mChain.length ∧ node = key := by
    intro index node found
    rw [List.getElem?_append] at found
    split at found
    next => exact .inl found
    next higher =>
      obtain ⟨within, rfl⟩ := List.getElem?_eq_some_iff.mp found
      rw [List.length_singleton] at within
      exact .inr ⟨by omega, by simp⟩
  have last := ActiveChain.getElem?_tip found
  have positive : 0 < state.mChain.length := List.length_pos_iff.mpr chain.nonempty
  refine ⟨by simp, ?_, ?_, ?_, ?_, ?_⟩
  · intro index node found
    rcases placed found with found | ⟨rfl, rfl⟩
    · exact chain.heights index node found
    obtain ⟨entry, entryFound, toParent⟩ := exists_of_parentOf link
    obtain ⟨parent, parentFound, height⟩ := linked.child _ entry tip entryFound toParent
    have tipHeight := chain.heights _ tip last
    rw [BlockMap.heightAt, parentFound, Option.map_some, Option.some_inj] at tipHeight
    refine Option.map_eq_some_iff.mpr ⟨entry, entryFound, ?_⟩
    omega
  · intro node found
    rcases placed found with found | ⟨zero, _⟩
    · exact chain.root node found
    · omega
  · intro index node found
    rcases placed found with found | ⟨next, rfl⟩
    · refine (chain.links index node found).trans ?_
      have within := (List.getElem?_eq_some_iff.mp found).1
      rw [List.getElem?_append_left (by omega)]
    · have same : index = state.mChain.length - 1 := by omega
      rw [List.getElem?_append_left (by omega), same, last]
      exact link
  · exact List.forall_mem_append.mpr ⟨chain.eligible, List.forall_mem_singleton.mpr eligible⟩
  · refine List.forall_mem_append.mpr ⟨chain.proven, List.forall_mem_singleton.mpr fun above below => ?_⟩
    rcases below.eq_or_parent with rfl | ⟨next, toNext, below⟩
    · exact .inl accepted
    · cases link.symm.trans toNext
      exact chain.proven tip (ActiveChain.tip_mem found) above below

theorem sameFlags_connectTip (state : Chainstate) (key : Uint256) : SameFlags state (state.connectTip key) := by
  refine ⟨state.keeps_changeEntries (fun entry => entry.settled_raiseValidity (by decide)) _, ?_⟩
  have unchanged : Keeps failed state.blocks (state.connectTip key).blocks :=
    state.keeps_changeEntries (fun entry => entry.failed_raiseValidity (by decide)) _
  exact fun node => unchanged.any_eq id (fun _ => rfl) node

theorem validity_le_connectTip (node : Uint256) (entry changed : CBlockIndex)
    (found : state.blocks.lookup node = some entry)
    (foundAfter : (state.connectTip key).blocks.lookup node = some changed) : entry.validity ≤ changed.validity := by
  have looked := foundAfter
  change (state.changeEntries _ _).blocks.lookup node = _ at looked
  rw [blocks_changeEntries, lookup_mapEntries, found, Option.map_some, Option.some_inj] at looked
  subst looked
  split
  · exact entry.validity_le_raiseValidity (by decide)
  · exact UInt32.le_refl _

theorem pruneBlockIndexCandidates_some (pruned : state.pruneBlockIndexCandidates addresses = some after) :
    ∃ tip, state.tip = some tip ∧ after = { state with
      setBlockIndexCandidates := state.setBlockIndexCandidates.filter fun candidate =>
        !workComparator addresses state.blocks candidate tip } := by
  unfold pruneBlockIndexCandidates at pruned
  cases found : state.tip with
  | none => simp [found] at pruned
  | some tip =>
    simp only [found] at pruned
    split at pruned
    · cases pruned
    · cases pruned
      exact ⟨tip, rfl, rfl⟩

theorem Consistent.withChain (consistent : Consistent connects except state)
    {mChain : List Uint256} (chain : ActiveChain connects { state with mChain }) :
    Consistent connects except { state with mChain } :=
  ⟨consistent.linked, consistent.small, consistent.data.reflag (.refl _ _) rfl consistent.data.listed,
    consistent.validity, consistent.closed, chain⟩

theorem Consistent.recandidate (consistent : Consistent connects except state)
    (blocks : after.blocks = state.blocks) (chain : after.mChain = state.mChain)
    (unlinked : after.mBlocksUnlinked = state.mBlocksUnlinked)
    (listed : ∀ key ∈ after.setBlockIndexCandidates, state.blocks.linkedAt key = true) :
    Consistent connects except after := by
  have kept : Keeps settled state.blocks after.blocks := by
    rw [blocks]
    exact .refl _ _
  refine consistent.reflag kept ?_ unlinked listed (by rw [blocks]; exact consistent.closed) ?_
  · intro key entry changed found foundAfter
    rw [blocks] at foundAfter
    cases found.symm.trans foundAfter
    exact UInt32.le_refl _
  · refine consistent.chain.reflag kept chain fun key member => ?_
    rw [blocks]
    exact (consistent.chain.eligible key member).2

section

variable {tip : Uint256} (found : state.tip = some tip) (link : parentOf state.blocks key = some tip)
  (eligible : state.blocks.Eligible key) (accepted : connects key = true)
  (pruned : (state.connectTip key).pruneBlockIndexCandidates addresses = some after)

include found link eligible accepted pruned

theorem Consistent.connect (consistent : Consistent connects none state) : Consistent connects none after := by
  obtain ⟨newTip, _, rfl⟩ := pruneBlockIndexCandidates_some pruned
  have same := sameFlags_connectTip state key
  have connected : Consistent connects none (state.connectTip key) := by
    refine consistent.reflag same.kept validity_le_connectTip rfl consistent.data.listed ?_ ?_
    · intro node pprev toParent failed
      rw [same.parentOf_eq] at toParent
      rw [same.failed] at failed
      rw [same.failed, same.parentOf_eq]
      exact consistent.closed node pprev toParent failed
    · have appended := consistent.chain.append consistent.linked found link eligible accepted
      refine appended.reflag same.kept rfl fun node member => ?_
      rw [same.failed]
      exact (appended.eligible node member).2
  exact connected.recandidate rfl rfl rfl fun node member =>
    connected.data.listed node (List.mem_filter.mp member).1

theorem Ready.connect (ready : Ready addresses connects state) : Ready addresses connects after := by
  obtain ⟨consistent, covering⟩ := ready
  have connected := consistent.connect found link eligible accepted pruned
  obtain ⟨newTip, newFound, rfl⟩ := pruneBlockIndexCandidates_some pruned
  have same := sameFlags_connectTip state key
  obtain rfl : newTip = key := by
    have last : (state.connectTip key).tip = some key := List.getLast?_concat
    exact Option.some_inj.mp (newFound.symm.trans last)
  obtain ⟨oldTip, _, covered⟩ := covering
  refine ⟨connected, ?_⟩
  have inChain := connected.chain.proven newTip (ActiveChain.tip_mem newFound)
  have sameEligible : (state.connectTip newTip).blocks.Eligible = state.blocks.Eligible :=
    funext fun node => propext same.eligible_iff
  have sameProven := BlockMap.proven_eq connects same.parentOf_eq
  refine ⟨newTip, newFound, ?_⟩
  change Covered (rank addresses (state.connectTip newTip).blocks) (state.connectTip newTip).blocks.Eligible
    (fun node => (state.connectTip newTip).blocks.Proven node connects) _ newTip
  rw [rank_of_settled same.kept, sameEligible, sameProven]
  refine covered.moveTip eligible (congrFun sameProven newTip ▸ inChain) fun node member higher => ?_
  have known : ∀ {node}, state.blocks.linkedAt node = true →
      ((state.connectTip newTip).blocks.lookup node).isSome = true := fun linked =>
    (same.kept.isSome_eq _).trans (known_of_linkedAt linked)
  refine List.mem_filter.mpr ⟨member, ?_⟩
  rw [Bool.not_eq_true', workComparator_eq_false_iff (known (consistent.data.listed node member))
    (known eligible.1), rank_of_settled same.kept]
  exact higher

end

end Connecting

/-! ## The best candidate -/

/-- The greatest block that can be chosen. -/
def IsBest (addresses : Addresses) (blocks : BlockMap) (best : Uint256) : Prop :=
  blocks.Eligible best ∧ ∀ key, blocks.Eligible key → rank addresses blocks key ≤ rank addresses blocks best

theorem IsBest.same {best : Uint256} (isBest : IsBest addresses state.blocks best)
    (same : SameFlags state after) : IsBest addresses after.blocks best := by
  refine ⟨same.eligible_iff.mpr isBest.1, fun key eligible => ?_⟩
  rw [rank_of_settled same.kept]
  exact isBest.2 key (same.eligible_iff.mp eligible)

theorem findObstacle_of_eligible (consistent : Consistent connects none state) (turns : Nat)
    (eligible : state.blocks.Eligible key) (passed : List Uint256) (obstacle : Obstacle) :
    state.findObstacle turns (some key) passed ≠ some (some obstacle) := by
  induction turns generalizing key passed with
  | zero => exact nofun
  | succ turns ih =>
    obtain ⟨entry, found, _, stored, same⟩ := consistent.data.entry_of_linked eligible.1
    rw [findObstacle]
    split
    · exact nofun
    rw [found]
    dsimp only
    split
    · exact nofun
    rw [← same, eligible.2, stored, if_neg (by decide)]
    cases link : entry.pprev with
    | none => rw [findObstacle]; exact nofun
    | some pprev =>
      have toParent : parentOf state.blocks key = some pprev := by
        rw [parentOf_eq found, link]
      exact ih (consistent.eligible_of_below eligible (.of_parent toParent (.refl _ pprev))) _

theorem findObstacle_of_failed (chain : ActiveChain connects state) (linked : state.blocks.linkedAt key = true)
    (failed : state.blocks.failedAt key = true) (turns : Nat) :
    state.findObstacle (turns + 1) (some key) [] = some (some ⟨key, true, []⟩) := by
  obtain ⟨entry, found⟩ := Option.isSome_iff_exists.mp (known_of_linkedAt linked)
  have failedEntry : entry.failed = true := by simpa [BlockMap.failedAt, found] using failed
  have counted : entry.haveNumChainTxs = true := by simpa [BlockMap.linkedAt, found] using linked
  have outside : ¬ state.contains key = true := by
    rw [chain.contains_iff]
    intro member
    rw [(chain.eligible key member).2] at failed
    cases failed
  rw [findObstacle, if_neg outside, found]
  simp [failedEntry, counted]

theorem bestCandidate_spec (consistent : Consistent connects none state)
    (chosen : state.bestCandidate addresses = some key) :
    key ∈ state.setBlockIndexCandidates ∧ ∀ other ∈ state.setBlockIndexCandidates,
      rank addresses state.blocks other ≤ rank addresses state.blocks key := by
  have known : ∀ node ∈ state.setBlockIndexCandidates, (state.blocks.lookup node).isSome = true :=
    fun node member => known_of_linkedAt (consistent.data.listed node member)
  refine ⟨greatest_mem chosen, fun other member => ?_⟩
  refine measure_le_greatest (rank addresses state.blocks) ?_ ?_ chosen member
  · intro left memberLeft right memberRight less
    exact ((workComparator_iff (known left memberLeft) (known right memberRight)).mp less).le
  · intro left memberLeft right memberRight notLess
    exact (workComparator_eq_false_iff (known left memberLeft) (known right memberRight)).mp notLess

theorem Covering.same_chain (covering : Covering addresses connects state)
    (blocks : after.blocks = state.blocks) (chain : after.mChain = state.mChain)
    (stays : ∀ key ∈ state.setBlockIndexCandidates, state.blocks.Eligible key →
      key ∈ after.setBlockIndexCandidates) : Covering addresses connects after := by
  obtain ⟨tip, found, covered⟩ := covering
  refine ⟨tip, by rw [Chainstate.tip, chain]; exact found, ?_⟩
  rw [blocks]
  exact covered.restrict (fun _ eligible => eligible) (fun _ _ eligible => eligible) stays

theorem findMostWorkChainLoop_spec (turns : Nat) {found : Option Uint256} (ready : Ready addresses connects state)
    (returned : findMostWorkChainLoop addresses turns state = some (found, after)) :
    Ready addresses connects after ∧ after.blocks = state.blocks ∧
      ∃ best, found = some best ∧ IsBest addresses state.blocks best := by
  induction turns generalizing state with
  | zero => cases returned
  | succ turns ih =>
    rw [findMostWorkChainLoop] at returned
    obtain ⟨consistent, covering⟩ := ready
    cases chosen : state.bestCandidate addresses with
    | none =>
      obtain ⟨tip, _, covered⟩ := covering
      obtain ⟨base, member⟩ := covered.exists_candidate
      obtain ⟨best, some_⟩ := @greatest_isSome _ (workComparator addresses state.blocks) _ (List.ne_nil_of_mem member)
      cases chosen.symm.trans some_
    | some pindexNew =>
      simp only [chosen] at returned
      obtain ⟨member, greatestRank⟩ := bestCandidate_spec consistent chosen
      have linked := consistent.data.listed pindexNew member
      cases failed : state.blocks.failedAt pindexNew with
      | true =>
        obtain ⟨_, noted⟩ := state.noteBestInvalid_eq pindexNew
        rw [findObstacle_of_failed consistent.chain linked failed] at returned
        simp only [discardCandidate, eraseCandidate, noted, if_true, List.foldl_nil] at returned
        -- The failed candidate leaves the set, and the search goes on.
        have onward := fun ready => ih ready returned
        refine onward ⟨consistent.recandidate rfl rfl rfl fun node inside => ?_,
          covering.same_chain rfl rfl fun node inside eligible => ?_⟩
        · exact consistent.data.listed node (List.mem_filter.mp inside).1
        · refine List.mem_filter.mpr ⟨inside, bne_iff_ne.mpr ?_⟩
          rintro rfl
          rw [eligible.2] at failed
          cases failed
      | false =>
        have eligible : state.blocks.Eligible pindexNew := ⟨linked, failed⟩
        cases walked : state.findObstacle ((state.heightOf pindexNew).toNat + 1) (some pindexNew) [] with
        | none => simp [walked] at returned
        | some outcome =>
          cases outcome with
          | some obstacle =>
            exact absurd walked (findObstacle_of_eligible consistent _ eligible _ _)
          | none =>
            simp only [walked, Option.some.injEq, Prod.mk.injEq] at returned
            obtain ⟨rfl, rfl⟩ := returned
            refine ⟨⟨consistent, covering⟩, rfl, pindexNew, rfl, eligible, ?_⟩
            obtain ⟨_, _, covered⟩ := covering
            exact fun other choosable => covered.le_of_candidates_le
              (fun node inside _ => greatestRank node inside) choosable

/-! ## One step -/

section Step

variable {target : Uint256} {fInvalidFound : Bool} {result : StepResult} {nHeight : Int} {turns : Nat}

/-- What holds after an activation step, given whether a block turned out to be invalid. -/
structure Stepped (addresses : Addresses) (connects : Uint256 → Bool) (state after : Chainstate)
    (fInvalidFound : Bool) : Prop where
  consistent : Consistent connects none after
  covering : Covering addresses connects after
  kept : Keeps settled state.blocks after.blocks
  same : fInvalidFound = false → SameFlags state after

theorem Stepped.ready (stepped : Stepped addresses connects state after fInvalidFound) :
    Ready addresses connects after := ⟨stepped.consistent, stepped.covering⟩

theorem Stepped.refl (ready : Ready addresses connects state) (fInvalidFound : Bool) :
    Stepped addresses connects state state fInvalidFound :=
  ⟨ready.consistent, ready.covering, .refl _ _, fun _ => .refl state⟩

theorem SameFlags.step (same : SameFlags state middle) (rest : Stepped addresses connects middle after fInvalidFound) :
    Stepped addresses connects state after fInvalidFound :=
  ⟨rest.consistent, rest.covering, same.kept.trans rest.kept, fun valid => same.trans (rest.same valid)⟩

theorem connectBlocks_spec (oldTip : Option ArithUint256) (path : List Uint256)
    (ready : Ready addresses connects state) (eligible : ∀ key ∈ path, state.blocks.Eligible key)
    (top : ∀ key ∈ path, Below (parentOf state.blocks) front key)
    (known : (state.blocks.lookup front).isSome = true)
    (connected : connectBlocks addresses connects oldTip front path state = some result) :
    Stepped addresses connects state result.state result.fInvalidFound ∧
      (result.fContinue = true → result.fInvalidFound = false) := by
  induction path generalizing state with
  | nil =>
    cases connected
    exact ⟨.refl ready _, fun _ => rfl⟩
  | cons pindex path ih =>
    rw [connectBlocks] at connected
    have consistent := ready.consistent
    obtain ⟨tip, found⟩ := consistent.chain.exists_tip
    have own := eligible pindex (.head _)
    split at connected
    · cases connected
    next parent =>
      have link : parentOf state.blocks pindex = some tip := (not_not.mp parent).trans found
      rw [link] at connected
      cases accepted : connects pindex with
      | false =>
        have inner : parentOf state.blocks pindex ≠ none := by
          rw [link]
          exact Option.some_ne_none tip
        have fails := (failsBlock_invalidBlockFound consistent.linked
          (known_of_linkedAt own.1)).invalidChainFound consistent.linked known (top pindex (.head _))
        simp only [accepted, Option.isNone_some, Bool.or_false, Bool.false_eq_true, if_false,
          Option.some.injEq] at connected
        subst connected
        refine ⟨⟨consistent.fail fails accepted inner, ready.covering.fail fails accepted inner, fails.kept, ?_⟩, ?_⟩ <;>
          exact nofun
      | true =>
        simp only [accepted, Bool.true_or, if_true] at connected
        cases pruned : (state.connectTip pindex).pruneBlockIndexCandidates addresses with
        | none => simp [pruned] at connected
        | some connectedState =>
          have next := ready.connect found link own accepted pruned
          have same : SameFlags state connectedState := by
            obtain ⟨_, _, rfl⟩ := pruneBlockIndexCandidates_some pruned
            have flags := sameFlags_connectTip state pindex
            exact ⟨flags.kept, flags.failed⟩
          simp only [pruned] at connected
          split at connected
          · cases connected
            exact ⟨same.step (.refl next _), nofun⟩
          have rest := ih next (fun key member => same.eligible_iff.mpr
              (eligible key (.tail _ member)))
            (fun key member => by
              rw [same.parentOf_eq]
              exact top key (.tail _ member))
            ((same.kept.isSome_eq front).trans known) connected
          exact ⟨same.step rest.1, rest.2⟩

theorem mem_blocksToConnect {start : Uint256}
    (member : key ∈ blocksToConnect blocks nHeight turns (some start)) : Below (parentOf blocks) start key := by
  induction turns generalizing start with
  | zero => simp [blocksToConnect] at member
  | succ turns ih =>
    rw [blocksToConnect] at member
    cases found : blocks.lookup start with
    | none => simp [found] at member
    | some entry =>
      simp only [found] at member
      split at member
      · simp at member
      rcases List.mem_cons.mp member with rfl | member
      · exact .refl _ _
      cases link : entry.pprev with
      | none => cases turns <;> simp [link, blocksToConnect] at member
      | some pprev =>
        rw [link] at member
        exact .of_parent (by rw [parentOf_eq found, link]) (ih member)

theorem head_blocksToConnect {start : Option Uint256}
    (fallback : Uint256) (member : key ∈ blocksToConnect blocks nHeight turns start) :
    start = some ((blocksToConnect blocks nHeight turns start).headD fallback) := by
  cases turns with
  | zero => cases start <;> simp [blocksToConnect] at member
  | succ turns =>
    cases start with
    | none => simp [blocksToConnect] at member
    | some first =>
      rw [blocksToConnect] at member ⊢
      cases found : blocks.lookup first with
      | none => simp [found] at member
      | some entry =>
        simp only [found] at member ⊢
        split at member
        · simp at member
        next other => rw [if_neg other]; rfl

theorem Linked.below_of_getAncestor (linked : Linked blocks) {height : Int} {above : Uint256}
    (reached : getAncestor blocks key height = some above) : Below (parentOf blocks) key above := by
  cases found : blocks.lookup key with
  | none => simp [getAncestor, found] at reached
  | some entry =>
    by_cases outside : height > entry.nHeight ∨ height < 0
    · simp [getAncestor, found, outside] at reached
    · rw [getAncestor_eq linked found (by omega) (by omega)] at reached
      exact ⟨_, reached⟩

theorem connectChunks_spec (oldTip : Option ArithUint256) (turns : Nat) (nHeight : Int)
    (ready : Ready addresses connects state) (eligible : state.blocks.Eligible target)
    (connected : connectChunks addresses connects oldTip target turns nHeight state = some result) :
    Stepped addresses connects state result.state result.fInvalidFound := by
  induction turns generalizing state nHeight with
  | zero => cases connected
  | succ turns ih =>
    rw [connectChunks] at connected
    have consistent := ready.consistent
    split at connected
    · cases connected
      exact .refl ready _
    split at connected
    · cases connected
    dsimp only at connected
    -- All blocks of the chunk are ancestors of its highest one, and of the target.
    generalize chunkTurns : (min (nHeight + 32) (state.heightOf target) - nHeight).toNat + 1 = steps at connected
    generalize reached : getAncestor state.blocks target
      (min (nHeight + 32) (state.heightOf target)) = start at connected
    generalize pendingIs : blocksToConnect state.blocks nHeight steps start = pending at connected
    have tops : ∀ key ∈ pending, Below (parentOf state.blocks) (pending.headD target) key ∧
        Below (parentOf state.blocks) target (pending.headD target) := by
      intro key member
      rw [← pendingIs] at member
      have first := head_blocksToConnect target member
      rw [pendingIs] at first
      rw [first] at member reached
      exact ⟨mem_blocksToConnect member, consistent.linked.below_of_getAncestor reached⟩
    have known : (state.blocks.lookup (pending.headD target)).isSome = true := by
      cases pending with
      | nil => exact known_of_linkedAt eligible.1
      | cons first rest =>
        exact consistent.linked.known_of_below (known_of_linkedAt eligible.1) (tops first (.head _)).2
    cases chunk : connectBlocks addresses connects oldTip (pending.headD target) pending.reverse state with
    | none =>
      rw [chunk] at connected
      cases connected
    | some first =>
      obtain ⟨stepped, continues⟩ := connectBlocks_spec oldTip pending.reverse ready (fun key member => by
          have below := tops key (List.mem_reverse.mp member)
          exact consistent.eligible_of_below eligible (below.2.trans below.1))
        (fun key member => (tops key (List.mem_reverse.mp member)).1) known chunk
      rw [chunk] at connected
      dsimp only at connected
      split at connected
      next further =>
        have same := stepped.same (continues further)
        exact same.step (ih _ stepped.ready (same.eligible_iff.mpr eligible) connected)
      next =>
        cases connected
        exact stepped

theorem disconnectTo_spec {pindexFork : Option Uint256} (ready : Ready addresses connects state)
    (disconnected : state.disconnectTo pindexFork = some after) :
    Ready addresses connects after ∧ SameFlags state after := by
  obtain ⟨consistent, covering⟩ := ready
  cases pindexFork with
  | none =>
    rw [disconnectTo] at disconnected
    rw [if_neg (by simpa using consistent.chain.nonempty)] at disconnected
    cases disconnected
  | some fork =>
    cases disconnected
    have lower := consistent.chain.take (state.heightOf fork).toNat
    refine ⟨⟨?_, ?_⟩, .refl _ _, fun _ => rfl⟩
    · exact consistent.withChain lower
    obtain ⟨tip, found⟩ := lower.exists_tip
    obtain ⟨_, _, covered⟩ := covering
    have member := ActiveChain.tip_mem found
    exact ⟨tip, found, covered.moveTip (lower.eligible tip member) (lower.proven tip member)
      fun node inside _ => inside⟩

theorem activateBestChainStep_spec (ready : Ready addresses connects state) (eligible : state.blocks.Eligible target)
    (stepped : state.activateBestChainStep addresses connects target = some (after, fInvalidFound)) :
    Stepped addresses connects state after fInvalidFound := by
  unfold activateBestChainStep at stepped
  dsimp only at stepped
  cases disconnected : state.disconnectTo (state.findFork target) with
  | none => simp [disconnected] at stepped
  | some forked =>
    obtain ⟨lower, same⟩ := disconnectTo_spec ready disconnected
    simp only [disconnected] at stepped
    split at stepped
    · cases stepped
    next result connected =>
      cases stepped
      exact same.step (connectChunks_spec _ _ _ lower (same.eligible_iff.mpr eligible) connected)

end Step

/-! ## Whole calls -/

/-- The tip has the most work among the blocks whose ancestors all have data and are not
failed, and is one of them. -/
def BestTip (state : Chainstate) : Prop :=
  ∃ tip entry, state.tip = some tip ∧ state.blocks.lookup tip = some entry ∧
    Usable state.blocks tip ∧ ∀ key other, state.blocks.lookup key = some other →
      Usable state.blocks key → other.nChainWork ≤ entry.nChainWork

/-- There is nothing to do at all: the tip is what `FindMostWorkChain` finds. -/
def NothingPending (addresses : Addresses) (state : Chainstate) : Prop :=
  ∃ after, state.findMostWorkChain addresses = some (state.tip, after)

section Calls

variable {pindexMostWork : Option Uint256}

theorem bestTip_of_isBest (consistent : Consistent connects none state) {tip : Uint256}
    (found : state.tip = some tip) (best : IsBest addresses state.blocks tip) : BestTip state := by
  obtain ⟨entry, entryFound⟩ := Option.isSome_iff_exists.mp (known_of_linkedAt best.1.1)
  refine ⟨tip, entry, found, entryFound, consistent.usable_of_eligible best.1, ?_⟩
  intro key other otherFound usable
  have lower := best.2 key (consistent.eligible_of_usable usable)
  rw [rank, rank, Prod.Lex.toLex_le_toLex, otherFound, entryFound] at lower
  simp only [Option.map_some, Option.getD_some] at lower
  rw [BitVec.le_def]
  omega

theorem bestTip_of_nothingPending (ready : Ready addresses connects state) (nothing : NothingPending addresses state) :
    BestTip state := by
  obtain ⟨after, searched⟩ := nothing
  obtain ⟨_, _, best, found, isBest⟩ := findMostWorkChainLoop_spec _ ready searched
  exact bestTip_of_isBest ready.consistent found isBest

section Choice

-- What is known of the cached block: that it can be chosen, or even that it is the best one.
variable {chosen : BlockMap → Uint256 → Prop} (ofBest : ∀ blocks key, IsBest addresses blocks key → chosen blocks key)
  (eligible : ∀ blocks key, chosen blocks key → blocks.Eligible key)
  (stays : ∀ (state after : Chainstate) (key : Uint256), SameFlags state after →
    chosen state.blocks key → chosen after.blocks key)

include ofBest eligible stays

theorem advance_spec (startingTip : Option Uint256) (turns : Nat) {progress result : Progress}
    (ready : Ready addresses connects progress.state)
    (cached : ∀ key, progress.pindexMostWork = some key → chosen progress.state.blocks key)
    (advanced : advance addresses connects startingTip turns progress = some result) :
    Ready addresses connects result.state ∧
      Keeps settled progress.state.blocks result.state.blocks ∧
      (∀ key, result.pindexMostWork = some key → chosen result.state.blocks key) ∧
      (result.blocksConnected = false → result.state.tip = result.pindexMostWork) := by
  induction turns generalizing progress with
  | zero => cases advanced
  | succ turns ih =>
    rw [advance] at advanced
    dsimp only at advanced
    -- The cached block, or the one that is found now.
    have search : ∀ found current, (∀ target, progress.pindexMostWork = some target →
          some (some target, progress.state) = some (found, current)) →
        (progress.pindexMostWork = none → progress.state.findMostWorkChain addresses = some (found, current)) →
        ∃ target, found = some target ∧ chosen current.blocks target ∧ Ready addresses connects current ∧
          Keeps settled progress.state.blocks current.blocks := by
      intro found current fromCache searched
      cases kept : progress.pindexMostWork with
      | some target =>
        cases fromCache target kept
        exact ⟨target, rfl, cached target kept, ready, .refl _ _⟩
      | none =>
        obtain ⟨still, blocks, target, rfl, best⟩ := findMostWorkChainLoop_spec _ ready (searched kept)
        exact ⟨target, rfl, blocks ▸ ofBest _ _ best, still, blocks ▸ .refl _ _⟩
    split at advanced
    · cases advanced
    next current searched =>
      obtain ⟨target, impossible, _⟩ := search none current
        (fun target kept => by rwa [kept] at searched) (fun kept => by rwa [kept] at searched)
      cases impossible
    next target current searched =>
      obtain ⟨_, same, choice, still, searchKept⟩ := search (some target) current
        (fun target kept => by rwa [kept] at searched) (fun kept => by rwa [kept] at searched)
      cases same
      split at advanced
      next atTip =>
        cases advanced
        refine ⟨still, searchKept, ?_, fun _ => atTip⟩
        intro key same
        cases same
        exact choice
      next =>
        split at advanced
        · cases advanced
        next stepped fInvalidFound step =>
          have spec := activateBestChainStep_spec still (eligible _ _ choice) step
          have next : ∀ key, (if fInvalidFound then none else some target) = some key →
              chosen stepped.blocks key := by
            intro key same
            cases fInvalidFound with
            | true => cases same
            | false =>
              cases same
              exact stays current stepped target (spec.same rfl) choice
          have keptSoFar := searchKept.trans spec.kept
          split at advanced
          · exact (ih spec.ready next advanced).imp_right (And.imp_left keptSoFar.trans)
          split at advanced
          · exact (ih spec.ready next advanced).imp_right (And.imp_left keptSoFar.trans)
          · cases advanced
            exact ⟨spec.ready, keptSoFar, next, nofun⟩

theorem activateRound_spec (turns : Nat) {round : Round}
    (ready : Ready addresses connects state) (cached : ∀ key, pindexMostWork = some key → chosen state.blocks key)
    (ran : state.activateRound addresses connects turns pindexMostWork = some round) :
    Ready addresses connects round.state ∧
      Keeps settled state.blocks round.state.blocks ∧
      (∀ key, round.pindexMostWork = some key → chosen round.state.blocks key) ∧
      (round.returned = true → round.state.tip = round.pindexMostWork) := by
  unfold activateRound at ran
  split at ran
  · cases ran
  next progress advanced =>
    cases ran
    obtain ⟨still, kept, choice, unmoved⟩ := advance_spec ofBest eligible stays state.tip turns ready cached advanced
    refine ⟨still, kept, choice, fun returned => ?_⟩
    rcases Bool.or_eq_true_iff.mp returned with nothing | same
    · exact unmoved (Bool.not_eq_true' _ ▸ nothing)
    · exact beq_iff_eq.mp same

end Choice

/-- A call that nothing disturbs and that ends by itself leaves the best tip. -/
theorem activateRounds_spec (turns rounds : Nat) (ready : Ready addresses connects state)
    (cached : ∀ key, pindexMostWork = some key → IsBest addresses state.blocks key)
    (returned : activateRounds addresses connects turns rounds pindexMostWork state =
      some (after, true)) : BestTip after := by
  induction rounds generalizing state pindexMostWork with
  | zero => cases returned
  | succ rounds ih =>
    rw [activateRounds] at returned
    split at returned
    · cases returned
    next round ran =>
      obtain ⟨still, _, best, atTip⟩ := activateRound_spec (fun _ _ best => best)
        (fun _ _ best => best.1) (fun _ _ _ same best => best.same same) turns ready cached ran
      split at returned
      next done =>
        cases returned
        obtain ⟨tip, found⟩ := still.consistent.chain.exists_tip
        exact bestTip_of_isBest still.consistent found (best tip ((atTip done).symm.trans found))
      next => exact ih still best returned

end Calls

end Sharecoin
