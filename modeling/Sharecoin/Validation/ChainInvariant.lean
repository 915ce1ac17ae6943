import Sharecoin.Lib.Candidates
import Sharecoin.Validation.BestChain
import Sharecoin.Validation.ChainViews

/-! The invariant of the chainstate. Block data is linked up as far as it can be, a failed block
has no descendant that is not failed, the active chain consists of usable blocks, and the best
block that can be chosen is a candidate. -/

set_option autoImplicit false

namespace Sharecoin

open Lib CBlockIndex

/-! ## Block data -/

/-- Which blocks are linked, and which wait for a parent. The blocks in the queue are about to
be linked. -/
structure DataShape (queue : List Uint256) (state : Chainstate) : Prop where
  linked_data : ∀ key, state.blocks.linkedAt key = true → state.blocks.dataAt key = true
  linked_parent : ∀ key pprev, parentOf state.blocks key = some pprev →
    state.blocks.linkedAt key = true → state.blocks.linkedAt pprev = true
  complete : ∀ key, state.blocks.dataAt key = true →
    (∀ pprev, parentOf state.blocks key = some pprev → state.blocks.linkedAt pprev = true) →
    state.blocks.linkedAt key = true ∨ key ∈ queue
  queued : ∀ key ∈ queue, state.blocks.dataAt key = true ∧ state.blocks.linkedAt key = false ∧
    ∀ pprev, parentOf state.blocks key = some pprev → state.blocks.linkedAt pprev = true
  queue_nodup : queue.Nodup
  waits : ∀ key pprev, parentOf state.blocks key = some pprev → state.blocks.dataAt key = true →
    state.blocks.linkedAt pprev = false → (pprev, key) ∈ state.mBlocksUnlinked
  waiting : ∀ pprev key, (pprev, key) ∈ state.mBlocksUnlinked →
    parentOf state.blocks key = some pprev ∧ state.blocks.dataAt key = true ∧ state.blocks.linkedAt pprev = false
  waiting_nodup : state.mBlocksUnlinked.Nodup
  counted : ∀ key entry, state.blocks.lookup key = some entry →
    entry.mChainTxCount.toNat ≤ (entry.nHeight.toNat + 1) * 2 ^ 32
  transactions : ∀ key entry, state.blocks.lookup key = some entry → entry.haveData = true → entry.nTx ≠ 0
  listed : ∀ key ∈ state.setBlockIndexCandidates, state.blocks.linkedAt key = true

/-- The validity of entries never falls below what their data stands for. -/
structure ValidityShape (blocks : BlockMap) : Prop where
  tree : ∀ key entry, blocks.lookup key = some entry → BLOCK_VALID_TREE ≤ entry.validity
  data : ∀ key entry, blocks.lookup key = some entry → entry.haveData = true → BLOCK_VALID_TRANSACTIONS ≤ entry.validity

/-- The children of a failed block are failed, except below a block that is being
invalidated. -/
def FailureClosed (except : Option Uint256) (blocks : BlockMap) : Prop :=
  ∀ key pprev, parentOf blocks key = some pprev → blocks.failedAt pprev = true →
    blocks.failedAt key = true ∨ ∃ invalid ∈ except, Below (parentOf blocks) pprev invalid

/-! ## The active chain -/

structure ActiveChain (connects : Uint256 → Bool) (state : Chainstate) : Prop where
  nonempty : state.mChain ≠ []
  heights : ∀ (index : Nat) (key : Uint256), state.mChain[index]? = some key →
    state.blocks.heightAt key = some (index : Int)
  root : ∀ key, state.mChain[0]? = some key → parentOf state.blocks key = none
  links : ∀ (index : Nat) (key : Uint256), state.mChain[index + 1]? = some key →
    parentOf state.blocks key = state.mChain[index]?
  eligible : ∀ key ∈ state.mChain, state.blocks.Eligible key
  proven : ∀ key ∈ state.mChain, state.blocks.Proven key connects

/-- Everything but the candidates. -/
structure Consistent (connects : Uint256 → Bool) (except : Option Uint256) (state : Chainstate) :
    Prop where
  linked : Linked state.blocks
  small : ∀ key height, state.blocks.heightAt key = some height → height < 2 ^ 31
  data : DataShape [] state
  validity : ValidityShape state.blocks
  closed : FailureClosed except state.blocks
  chain : ActiveChain connects state

/-- Some proven block is no worse than the tip, and what can be chosen from its rank up is a candidate.
`CheckBlockIndex` asks this of the tip's own rank. -/
def Covering (addresses : Addresses) (connects : Uint256 → Bool) (state : Chainstate) : Prop :=
  ∃ tip, state.tip = some tip ∧
    Covered (rank addresses state.blocks) state.blocks.Eligible (state.blocks.Proven · connects)
      {key | key ∈ state.setBlockIndexCandidates} tip

/-! ## Consequences -/

variable {blocks : BlockMap} {connects : Uint256 → Bool} {state after : Chainstate} {key above : Uint256}
  {queue : List Uint256}

theorem known_of_linkedAt (linked : blocks.linkedAt key = true) :
    (blocks.lookup key).isSome = true := by
  obtain ⟨entry, found, _⟩ := (Option.any_eq_true _ _).mp linked
  rw [found, Option.isSome_some]

/-- A failed block has no child that is not, unless one is being invalidated. -/
theorem FailureClosed.unfailed_parent (closed : FailureClosed none blocks) {pprev : Uint256}
    (link : parentOf blocks key = some pprev) (unfailed : blocks.failedAt key = false) :
    blocks.failedAt pprev = false := by
  by_contra failed
  rcases closed key pprev link (Bool.not_eq_false _ ▸ failed) with own | ⟨_, impossible, _⟩
  · cases own.symm.trans unfailed
  · cases impossible

theorem DataShape.entry_of_linked (data : DataShape queue state)
    (linked : state.blocks.linkedAt key = true) : ∃ entry, state.blocks.lookup key = some entry ∧
      entry.haveNumChainTxs = true ∧ entry.haveData = true ∧ state.blocks.failedAt key = entry.failed := by
  obtain ⟨entry, found, counted⟩ := (Option.any_eq_true _ _).mp linked
  have stored := data.linked_data key linked
  rw [BlockMap.dataAt, found, Option.any_some] at stored
  exact ⟨entry, found, counted, stored, by rw [BlockMap.failedAt, found, Option.any_some]⟩

namespace ActiveChain

theorem exists_tip (chain : ActiveChain connects state) : ∃ tip, state.tip = some tip :=
  ⟨_, List.getLast?_eq_some_getLast chain.nonempty⟩

theorem tip_mem {tip : Uint256} (found : state.tip = some tip) : tip ∈ state.mChain :=
  List.mem_of_getLast? found

theorem getElem?_tip {tip : Uint256} (found : state.tip = some tip) :
    state.mChain[state.mChain.length - 1]? = some tip := by
  rw [← List.getLast?_eq_getElem?]
  exact found

section

variable (chain : ActiveChain connects state)

include chain

theorem contains_iff : state.contains key = true ↔ key ∈ state.mChain := by
  unfold Chainstate.contains
  constructor
  · intro contained
    cases found : state.blocks.lookup key with
    | none => simp [found] at contained
    | some entry =>
      simp only [found, Bool.and_eq_true, beq_iff_eq] at contained
      exact List.mem_of_getElem? contained.2
  · intro member
    obtain ⟨index, placed⟩ := List.getElem?_of_mem member
    obtain ⟨entry, found, height⟩ := Option.map_eq_some_iff.mp (chain.heights index key placed)
    simp [found, height, placed]

theorem mem_of_below (member : key ∈ state.mChain)
    (below : Below (parentOf state.blocks) key above) : above ∈ state.mChain := by
  refine below.induct (· ∈ state.mChain) ?_ member
  intro node next link inside
  obtain ⟨index, placed⟩ := List.getElem?_of_mem inside
  cases index with
  | zero =>
    rw [chain.root node placed] at link
    cases link
  | succ index =>
    rw [chain.links index node placed] at link
    exact List.mem_of_getElem? link

theorem take (count : Nat) : ActiveChain connects { state with mChain := state.mChain.take (count + 1) } := by
  have lower : ∀ {index : Nat} {key : Uint256}, (state.mChain.take (count + 1))[index]? = some key →
      index < count + 1 ∧ state.mChain[index]? = some key := by
    intro index key placed
    rw [List.getElem?_take] at placed
    split at placed
    next within => exact ⟨within, placed⟩
    next => cases placed
  refine ⟨?_, ?_, ?_, ?_, ?_, ?_⟩
  · intro empty
    rcases List.take_eq_nil_iff.mp empty with zero | empty
    · cases zero
    · exact chain.nonempty empty
  · intro index key placed
    exact chain.heights index key (lower placed).2
  · intro key placed
    exact chain.root key (lower placed).2
  · intro index key placed
    obtain ⟨within, placed⟩ := lower placed
    have same : (state.mChain.take (count + 1))[index]? = state.mChain[index]? := by
      rw [List.getElem?_take, if_pos (by omega)]
    exact (chain.links index key placed).trans same.symm
  · intro key member
    exact chain.eligible key (List.mem_of_mem_take member)
  · intro key member
    exact chain.proven key (List.mem_of_mem_take member)

theorem of_frame (kept : Keeps frame state.blocks after.blocks) (same : after.mChain = state.mChain)
    (eligible : ∀ key ∈ state.mChain, after.blocks.Eligible key) : ActiveChain connects after := by
  have parents := parentOf_of_keeps kept
  refine ⟨?_, ?_, ?_, ?_, ?_, ?_⟩ <;> rw [same]
  · exact chain.nonempty
  · intro index key placed
    rw [heightAt_of_keeps kept]
    exact chain.heights index key placed
  · intro key placed
    rw [parents]
    exact chain.root key placed
  · intro index key placed
    rw [parents]
    exact chain.links index key placed
  · exact eligible
  · intro key member
    rw [BlockMap.Proven, parents]
    exact chain.proven key member

theorem reflag (kept : Keeps settled state.blocks after.blocks) (same : after.mChain = state.mChain)
    (unfailed : ∀ key ∈ state.mChain, after.blocks.failedAt key = false) : ActiveChain connects after :=
  chain.of_frame (frame_of_settled kept) same fun key member =>
    ⟨(linkedAt_of_settled kept key).trans (chain.eligible key member).1, unfailed key member⟩

end

end ActiveChain

theorem DataShape.reflag (data : DataShape queue state) (kept : Keeps settled state.blocks after.blocks)
    (same : after.mBlocksUnlinked = state.mBlocksUnlinked)
    (listed : ∀ key ∈ after.setBlockIndexCandidates, state.blocks.linkedAt key = true) : DataShape queue after := by
  have parents := parentOf_of_settled kept
  have back : ∀ {key entry}, after.blocks.lookup key = some entry →
      ∃ old, state.blocks.lookup key = some old ∧ old.settled = entry.settled :=
    fun found => kept.symm.found found
  have links := linkedAt_of_settled kept
  have stored := dataAt_of_settled kept
  constructor
  case linked_data => simpa only [links, stored] using data.linked_data
  case linked_parent => simpa only [links, parents] using data.linked_parent
  case complete => simpa only [links, stored, parents] using data.complete
  case queued => simpa only [links, stored, parents] using data.queued
  case queue_nodup => exact data.queue_nodup
  case waits => simpa only [links, stored, parents, same] using data.waits
  case waiting => simpa only [links, stored, parents, same] using data.waiting
  case waiting_nodup => exact same ▸ data.waiting_nodup
  case counted =>
    intro key entry found
    obtain ⟨old, oldFound, settled⟩ := back found
    have counts : old.mChainTxCount = entry.mChainTxCount := (congrArg mChainTxCount settled :)
    have heights := nHeight_of_frame (congrArg frame settled)
    rw [← counts]
    exact heights ▸ data.counted key old oldFound
  case transactions =>
    intro key entry found full
    obtain ⟨old, oldFound, settled⟩ := back found
    have txs : old.nTx = entry.nTx := (congrArg nTx settled :)
    have fulls : old.haveData = entry.haveData := by
      rw [← haveData_settled old, settled, haveData_settled]
    rw [← txs]
    exact data.transactions key old oldFound (fulls.trans full)
  case listed => simpa only [links] using listed

theorem ValidityShape.reflag {after : BlockMap} (validity : ValidityShape blocks) (kept : Keeps settled blocks after)
    (raised : ∀ key entry changed, blocks.lookup key = some entry →
      after.lookup key = some changed → entry.validity ≤ changed.validity) : ValidityShape after := by
  constructor
  case tree =>
    intro key entry found
    obtain ⟨old, oldFound, _⟩ := kept.symm.found found
    exact UInt32.le_trans (validity.tree key old oldFound) (raised key old entry oldFound found)
  case data =>
    intro key entry found full
    obtain ⟨old, oldFound, settled⟩ := kept.symm.found found
    have fulls : old.haveData = entry.haveData := by
      rw [← haveData_settled old, settled, haveData_settled]
    exact UInt32.le_trans (validity.data key old oldFound (fulls.trans full)) (raised key old entry oldFound found)

theorem Consistent.reflag {except except' : Option Uint256}
    (consistent : Consistent connects except state)
    (kept : Keeps settled state.blocks after.blocks)
    (raised : ∀ key entry changed, state.blocks.lookup key = some entry →
      after.blocks.lookup key = some changed → entry.validity ≤ changed.validity)
    (same : after.mBlocksUnlinked = state.mBlocksUnlinked)
    (listed : ∀ key ∈ after.setBlockIndexCandidates, state.blocks.linkedAt key = true)
    (closed : FailureClosed except' after.blocks) (chain : ActiveChain connects after) :
    Consistent connects except' after where
  linked := consistent.linked.of_keeps (frame_of_settled kept)
  small key height found := by
    rw [heightAt_of_keeps (frame_of_settled kept)] at found
    exact consistent.small key height found
  data := consistent.data.reflag kept same listed
  validity := consistent.validity.reflag kept raised
  closed := closed
  chain := chain

/-! ## Usable blocks -/

theorem Consistent.eligible_of_below (consistent : Consistent connects none state)
    (eligible : state.blocks.Eligible key) (below : Below (parentOf state.blocks) key above) :
    state.blocks.Eligible above := by
  refine below.induct state.blocks.Eligible ?_ eligible
  rintro node next link ⟨linked, unfailed⟩
  exact ⟨consistent.data.linked_parent node next link linked, consistent.closed.unfailed_parent link unfailed⟩

/-- A block whose ancestors all have data and are not failed. -/
def Usable (blocks : BlockMap) (key : Uint256) : Prop :=
  ∀ above, Below (parentOf blocks) key above → blocks.dataAt above = true ∧ blocks.failedAt above = false

theorem Usable.of_parent (own : blocks.dataAt key = true ∧ blocks.failedAt key = false)
    (rest : ∀ pprev, parentOf blocks key = some pprev → Usable blocks pprev) : Usable blocks key := by
  intro above below
  rcases below.eq_or_parent with rfl | ⟨pprev, link, below⟩
  · exact own
  · exact rest pprev link above below

theorem Consistent.usable_of_eligible (consistent : Consistent connects none state)
    (eligible : state.blocks.Eligible key) : Usable state.blocks key := by
  intro above below
  obtain ⟨linked, unfailed⟩ := consistent.eligible_of_below eligible below
  exact ⟨consistent.data.linked_data above linked, unfailed⟩

theorem Consistent.eligible_of_usable (consistent : Consistent connects none state)
    (usable : Usable state.blocks key) : state.blocks.Eligible key := by
  refine ⟨?_, (usable key (.refl _ key)).2⟩
  -- From the root up every ancestor is linked; the height is what the induction runs on.
  have linkedUp : ∀ (bound : Nat) (node : Uint256) (entry : CBlockIndex),
      state.blocks.lookup node = some entry → entry.nHeight < bound → Usable state.blocks node →
      state.blocks.linkedAt node = true := by
    intro bound
    induction bound with
    | zero =>
      intro node entry found lower _
      have nonneg := consistent.linked.nonneg node entry found
      omega
    | succ bound ih =>
      intro node entry found lower usable
      have complete := consistent.data.complete node (usable node (.refl _ node)).1
      refine (complete ?_).resolve_right List.not_mem_nil
      intro pprev link
      have toParent := link
      rw [parentOf_eq found] at toParent
      obtain ⟨parent, parentFound, height⟩ := consistent.linked.child node entry pprev found toParent
      exact ih pprev parent parentFound (by omega) fun above below =>
        usable above (.of_parent link below)
  obtain ⟨entry, found, _⟩ := (Option.any_eq_true _ _).mp (usable key (.refl _ key)).1
  exact linkedUp (entry.nHeight.toNat + 1) key entry found
    (by have := consistent.linked.nonneg key entry found; omega) usable

end Sharecoin
