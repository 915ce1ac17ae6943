import Sharecoin.Net.HeadersSyncLength
import Sharecoin.Validation.AcceptBlock
import Sharecoin.Validation.ChainViews

/-! A transaction that can be mined stays minable along its chain. Both kinds of lock times are
compared with the height of a block and the median time before it, and neither falls back. -/

set_option autoImplicit false

namespace Sharecoin

open Lib

variable {blocks : BlockMap} {block earlier later : Uint256}

/-! ## Median times along a chain -/

/-- Each block of the chain up to `tip` is later than the median time past of its parent. -/
def TimesRise (blocks : BlockMap) (tip : Uint256) : Prop :=
  ∀ block entry pprev, Below (parentOf blocks) tip block → blocks.lookup block = some entry →
    entry.pprev = some pprev → getMedianTimePast blocks pprev < entry.getBlockTime

theorem getMedianTimePast_le_child {entry : CBlockIndex} {pprev : Uint256} (found : blocks.lookup block = some entry)
    (link : entry.pprev = some pprev) (known : (blocks.lookup pprev).isSome = true)
    (rises : getMedianTimePast blocks pprev < entry.getBlockTime) :
    getMedianTimePast blocks pprev ≤ getMedianTimePast blocks block := by
  have times : (blockTimes blocks nMedianTimeSpan (some block)).take nMedianTimeSpan =
      (entry.getBlockTime :: blockTimes blocks nMedianTimeSpan (some pprev)).take nMedianTimeSpan := by
    rw [List.take_of_length_le (length_blockTimes_le _ _), nMedianTimeSpan, blockTimes, found]
    dsimp only
    rw [link, List.take_succ_cons, ← blockTimes_take]
  obtain ⟨parent, parentFound⟩ := Option.isSome_iff_exists.mp known
  have some : blockTimes blocks nMedianTimeSpan (some pprev) ≠ [] := by
    rw [nMedianTimeSpan, blockTimes, parentFound]
    exact List.cons_ne_nil _ _
  rw [← medianTime_blockTimes, ← medianTime_blockTimes, times]
  rw [← medianTime_blockTimes] at rises
  exact le_medianTime_cons some le_rfl rises.le

theorem getMedianTimePast_bounds (blocks : BlockMap) (block : Uint256) :
    0 ≤ getMedianTimePast blocks block ∧ getMedianTimePast blocks block < 2 ^ 32 := by
  have each : ∀ count cursor, ∀ time ∈ blockTimes blocks count cursor, 0 ≤ time ∧ time < 2 ^ 32 := by
    intro count
    induction count with
    | zero => exact fun _ => List.forall_mem_nil _
    | succ count ih =>
      intro cursor
      cases cursor with
      | none => exact List.forall_mem_nil _
      | some block =>
        rw [blockTimes]
        split
        · exact List.forall_mem_nil _
        next entry _ =>
          exact List.forall_mem_cons.mpr ⟨⟨Int.natCast_nonneg _, Int.ofNat_lt.mpr entry.nTime.toNat_lt⟩, ih entry.pprev⟩
  rw [getMedianTimePast]
  generalize place : (blockTimes blocks nMedianTimeSpan (some block)).insertionSort (· ≤ ·) = times
  rw [List.getD_eq_getElem?_getD]
  cases found : times[times.length / 2]? with
  | none => exact ⟨le_rfl, by decide⟩
  | some time =>
    have member := List.mem_of_getElem? found
    rw [← place, List.mem_insertionSort] at member
    exact each _ _ time member

/-! ## Lock times -/

/-- The test of `ContextualCheckBlock` with the median time past as the cutoff. -/
def finalAt (blocks : BlockMap) (block : Uint256) (tx : CTransaction) : Option Bool := do
  let entry ← blocks.lookup block
  let pprev ← entry.pprev
  some (isFinalTx tx entry.nHeight (getMedianTimePast blocks pprev))

theorem isFinalTx_mono {tx : CTransaction} {nHeight nTime laterHeight laterTime : Int}
    (final : isFinalTx tx nHeight nTime = true) (height : nHeight ≤ laterHeight) (time : nTime ≤ laterTime) :
    isFinalTx tx laterHeight laterTime = true := by
  simp only [isFinalTx, Bool.or_eq_true, decide_eq_true_eq] at final ⊢
  refine final.imp_left (Or.imp_right fun below => below.trans_le ?_)
  split
  · exact height
  · exact time

/-- One input over integers without a bound, up to the first value that leaves the type the code
computes it in. -/
def checkedLock (blocks : BlockMap) (block : Uint256) (txin : CTxIn) (nCoinHeight : Int) (locks : LockPair) :
    Option LockPair :=
  let delay : Int := txin.nSequence.toNat % 2 ^ 16
  if txin.nSequence &&& CTxIn.SEQUENCE_LOCKTIME_DISABLE_FLAG ≠ 0 then some locks
  else if txin.nSequence &&& CTxIn.SEQUENCE_LOCKTIME_TYPE_FLAG ≠ 0 then do
    let ancestor ← getAncestor blocks block (max (nCoinHeight - 1) 0)
    let time := getMedianTimePast blocks ancestor + 512 * delay
    if -2 ^ 31 ≤ nCoinHeight - 1 ∧ 512 * delay < 2 ^ 32 ∧ 0 ≤ time ∧ time < 2 ^ 63 then
      some { locks with nMinTime := max locks.nMinTime (time - 1) }
    else none
  else if 0 ≤ nCoinHeight + delay ∧ nCoinHeight + delay < 2 ^ 31 then
    some { locks with nMinHeight := max locks.nMinHeight (nCoinHeight + delay - 1) }
  else none

theorem lockInput_eq_checkedLock (txin : CTxIn) {nCoinHeight : Int} (locks : LockPair) (nonneg : 0 ≤ nCoinHeight)
    (small : nCoinHeight < 2 ^ 31 - 2 ^ 16) :
    lockInput blocks block txin nCoinHeight locks = checkedLock blocks block txin nCoinHeight locks := by
  have mask : (txin.nSequence &&& CTxIn.SEQUENCE_LOCKTIME_MASK).toNat = txin.nSequence.toNat % 2 ^ 16 := by
    rw [UInt32.toNat_and]
    exact Nat.and_two_pow_sub_one_eq_mod _ 16
  have short := Nat.mod_lt txin.nSequence.toNat (show 0 < 2 ^ 16 by decide)
  unfold lockInput checkedLock
  dsimp only
  rw [mask, CTxIn.SEQUENCE_LOCKTIME_GRANULARITY, Nat.shiftLeft_eq]
  generalize delayed : txin.nSequence.toNat % 2 ^ 16 = delay at short ⊢
  have cast : (txin.nSequence.toNat : Int) % 2 ^ 16 = delay := by omega
  rw [cast]
  split_ifs
  · rfl
  · cases getAncestor blocks block (max (nCoinHeight - 1) 0) with
    | none => rfl
    | some ancestor =>
      have bounds := getMedianTimePast_bounds blocks ancestor
      simp only [Option.bind_eq_bind, Option.bind_some]
      rw [if_pos (by omega), wrap64_eq_self (by omega) (by omega)]
      congr 3
      omega
  · rw [wrap32_eq_self (by omega) (by omega)]
  · omega

theorem lockInputs_eq_foldlM {inputs : List (CTxIn × Int)} (locks : LockPair)
    (low : ∀ input ∈ inputs, 0 ≤ input.2 ∧ input.2 < 2 ^ 31 - 2 ^ 16) : lockInputs blocks block inputs locks =
      inputs.foldlM (fun locks input => checkedLock blocks block input.1 input.2 locks) locks := by
  induction inputs generalizing locks with
  | nil => rfl
  | cons input inputs ih =>
    obtain ⟨own, rest⟩ := List.forall_mem_cons.mp low
    simp only [lockInputs, List.foldlM_cons, lockInput_eq_checkedLock _ _ own.1 own.2, fun locks => ih locks rest]

section Chain

variable (linked : Linked blocks) (below : Below (parentOf blocks) later earlier) (rise : TimesRise blocks later)
  {laterEntry entry : CBlockIndex} (laterFound : blocks.lookup later = some laterEntry)

include linked below

section

include rise

theorem Linked.getMedianTimePast_le : getMedianTimePast blocks earlier ≤ getMedianTimePast blocks later := by
  refine (below.induct (fun block => Below (parentOf blocks) later block ∧
    getMedianTimePast blocks block ≤ getMedianTimePast blocks later) ?_ ⟨.refl _ _, le_rfl⟩).2
  rintro block pprev link ⟨onChain, least⟩
  obtain ⟨entry, found, toParent⟩ := exists_of_parentOf link
  have step := getMedianTimePast_le_child found toParent (linked.known_parent link)
    (rise block entry pprev onChain found toParent)
  exact ⟨onChain.trans (.of_parent link (.refl _ _)), step.trans least⟩

include laterFound

theorem Linked.place_le {pprev : Uint256} (found : blocks.lookup earlier = some entry)
    (link : entry.pprev = some pprev) : entry.nHeight ≤ laterEntry.nHeight ∧
      ∃ laterPrev, laterEntry.pprev = some laterPrev ∧
        getMedianTimePast blocks pprev ≤ getMedianTimePast blocks laterPrev := by
  rcases below.eq_or_parent with rfl | ⟨laterPrev, laterLink, prevBelow⟩
  · cases found.symm.trans laterFound
    exact ⟨le_rfl, pprev, link, le_rfl⟩
  obtain ⟨steps, climbed⟩ := below
  obtain ⟨_, found', height⟩ := linked.height_of_ancestor laterFound climbed
  cases found.symm.trans found'
  have rest : TimesRise blocks laterPrev := fun block entry pprev onChain =>
    rise block entry pprev (.of_parent laterLink onChain)
  have toParent : parentOf blocks earlier = some pprev := by rw [parentOf_eq found, link]
  exact ⟨by omega, laterPrev, by rw [← parentOf_eq laterFound, laterLink],
    linked.getMedianTimePast_le (prevBelow.trans (.of_parent toParent (.refl _ _))) rest⟩

end

include laterFound

theorem Linked.getAncestor_later {height : Int} {above : Uint256}
    (reached : getAncestor blocks earlier height = some above) : getAncestor blocks later height = some above := by
  obtain ⟨steps, climbed⟩ := below
  obtain ⟨entry, found, tall⟩ := linked.height_of_ancestor laterFound climbed
  have inRange : 0 ≤ height ∧ height ≤ entry.nHeight := by
    by_contra outside
    rw [getAncestor, found] at reached
    dsimp only at reached
    rw [if_pos (by omega)] at reached
    cases reached
  rw [getAncestor_eq linked found inRange.1 inRange.2] at reached
  rw [getAncestor_eq linked laterFound inRange.1 (by omega),
    show (laterEntry.nHeight - height).toNat = steps + (entry.nHeight - height).toNat by omega, ancestor_add, climbed,
    Option.bind_some, reached]

theorem Linked.lockInputs_later {inputs : List (CTxIn × Int)} {start locks : LockPair}
    (locked : lockInputs blocks earlier inputs start = some locks) :
    lockInputs blocks later inputs start = some locks := by
  induction inputs generalizing start with
  | nil => exact locked
  | cons input inputs ih =>
    simp only [lockInputs, Option.bind_eq_bind, Option.bind_eq_some_iff] at locked ⊢
    obtain ⟨next, first, locked⟩ := locked
    refine ⟨next, ?_, ih locked⟩
    unfold lockInput at first ⊢
    dsimp only at first ⊢
    split_ifs at first ⊢
    · exact first
    · obtain ⟨above, reached, rest⟩ := Option.bind_eq_some_iff.mp first
      exact Option.bind_eq_some_iff.mpr ⟨above, linked.getAncestor_later below laterFound reached, rest⟩
    · exact first

end Chain

/-- A transaction that is final and whose relative locks are over at a block is and are so at every
later one of the chain, and nothing that the locks are computed from leaves its type. -/
theorem minable_stays_minable (linked : Linked blocks) (known : (blocks.lookup later).isSome = true)
    (rise : TimesRise blocks later) (below : Below (parentOf blocks) later earlier) :
    getMedianTimePast blocks earlier ≤ getMedianTimePast blocks later ∧
    (∀ tx, finalAt blocks earlier tx = some true → finalAt blocks later tx = some true) ∧
    (∀ tx verifySequence prevHeights, sequenceLocks blocks earlier tx verifySequence prevHeights = some true →
      sequenceLocks blocks later tx verifySequence prevHeights = some true) ∧
    ∀ block tx verifySequence prevHeights, (∀ nCoinHeight ∈ prevHeights, 0 ≤ nCoinHeight ∧ nCoinHeight < 2 ^ 31 - 2 ^ 16) →
      calculateSequenceLocks blocks block tx verifySequence prevHeights =
        if tx.version ≥ 2 ∧ verifySequence then
          (tx.vin.zip prevHeights).foldlM (fun locks input => checkedLock blocks block input.1 input.2 locks) {}
        else some {} := by
  obtain ⟨laterEntry, laterFound⟩ := Option.isSome_iff_exists.mp known
  refine ⟨linked.getMedianTimePast_le below rise, fun tx final => ?_,
    fun tx verifySequence prevHeights holds => ?_, fun block tx verifySequence prevHeights low => ?_⟩
  · simp only [finalAt, Option.bind_eq_bind, Option.bind_eq_some_iff, Option.some.injEq] at final ⊢
    obtain ⟨entry, found, pprev, link, final⟩ := final
    obtain ⟨height, laterPrev, laterLink, time⟩ := linked.place_le below rise laterFound found link
    exact ⟨laterEntry, laterFound, laterPrev, laterLink, isFinalTx_mono final height time⟩
  · simp only [sequenceLocks, evaluateSequenceLocks, Option.bind_eq_bind, Option.bind_eq_some_iff, Option.some.injEq,
      Bool.not_eq_true', Bool.or_eq_false_iff, decide_eq_false_iff_not, not_le] at holds ⊢
    obtain ⟨locks, locked, entry, found, pprev, link, tall, old⟩ := holds
    obtain ⟨height, laterPrev, laterLink, time⟩ := linked.place_le below rise laterFound found link
    refine ⟨locks, ?_, laterEntry, laterFound, laterPrev, laterLink, tall.trans_le height, old.trans_le time⟩
    unfold calculateSequenceLocks at locked ⊢
    split at locked
    next enforced => exact (if_pos enforced).trans (linked.lockInputs_later below laterFound locked)
    next unenforced => exact (if_neg unenforced).trans locked
  · rw [calculateSequenceLocks, lockInputs_eq_foldlM]
    exact fun input member => low input.2 (List.of_mem_zip member).2

theorem minable_stays_minable_later : let blocks := straightChain (fun height => { nTime := UInt32.ofNat height }) 3
    let tx : CTransaction := { nLockTime := 0, version := 2, vin := [{ nSequence := 1 }] }
    finalAt blocks (.ofNat 2) tx = some true ∧ sequenceLocks blocks (.ofNat 2) tx true [0] = some true := by
  intro blocks tx
  have rise : TimesRise blocks (.ofNat 2) := by
    intro block entry pprev _ found link
    obtain ⟨height, few, rfl, rfl⟩ := (lookup_straightChain (by decide)).mp found
    rcases show height = 0 ∨ height = 1 ∨ height = 2 by omega with rfl | rfl | rfl <;> cases link <;> decide +kernel
  obtain ⟨-, final, locks, -⟩ := minable_stays_minable (linked_straightChain (by decide)) (by decide +kernel) rise
    (.of_parent (by decide +kernel) (.refl _ (.ofNat 1)))
  exact ⟨final tx (by decide +kernel), locks tx true [0] (by decide +kernel)⟩

end Sharecoin
