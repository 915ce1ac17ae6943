import Sharecoin.Chain.HeaderTreeReload
import Sharecoin.Validation.ChainstateProperties
import Mathlib.Data.Prod.Lex

/-! What the choice of a chain reads off the block index: the parent of a block, its flags and
its place in the order of candidates; and which of these the operations leave alone. -/

set_option autoImplicit false

namespace Sharecoin

open Lib CBlockIndex

/-! ## Status flags -/

variable (entry : CBlockIndex) {nUpTo : UInt32}

namespace CBlockIndex

/-- An entry without the flags other than the one for block data. -/
def settled (entry : CBlockIndex) : CBlockIndex :=
  { entry with nStatus := entry.nStatus &&& BLOCK_HAVE_DATA }

def validity (entry : CBlockIndex) : UInt32 := entry.nStatus &&& BLOCK_VALID_MASK

theorem settled_markFailed : entry.markFailed.settled = entry.settled := by
  have other : BLOCK_FAILED_VALID &&& BLOCK_HAVE_DATA = 0 := by decide
  simp only [settled, markFailed, uint32_or_and, other, UInt32.or_zero]

theorem settled_clearFailed : entry.clearFailed.settled = entry.settled := by
  have other : ~~~BLOCK_FAILED_VALID &&& BLOCK_HAVE_DATA = BLOCK_HAVE_DATA := by decide
  simp only [settled, clearFailed, UInt32.and_assoc, other]

theorem raiseValidity_eq (nUpTo : UInt32) : ∃ nStatus, entry.raiseValidity nUpTo = { entry with nStatus } := by
  unfold raiseValidity
  split
  · exact ⟨entry.nStatus, rfl⟩
  · split
    · exact ⟨_, rfl⟩
    · exact ⟨entry.nStatus, rfl⟩

theorem settled_raiseValidity (other : nUpTo &&& BLOCK_HAVE_DATA = 0) :
    (entry.raiseValidity nUpTo).settled = entry.settled := by
  have masked : ~~~BLOCK_VALID_MASK &&& BLOCK_HAVE_DATA = BLOCK_HAVE_DATA := by decide
  unfold raiseValidity
  split
  · rfl
  · split
    · simp only [settled, uint32_or_and, UInt32.and_assoc, masked, other, UInt32.or_zero]
    · rfl

theorem haveData_settled : entry.settled.haveData = entry.haveData := by
  rw [haveData, haveData, settled, UInt32.and_assoc, UInt32.and_self]

theorem validity_markFailed : entry.markFailed.validity = entry.validity := by
  have other : BLOCK_FAILED_VALID &&& BLOCK_VALID_MASK = 0 := by decide
  rw [validity, validity, markFailed, uint32_or_and, other, UInt32.or_zero]

theorem validity_clearFailed : entry.clearFailed.validity = entry.validity := by
  have other : ~~~BLOCK_FAILED_VALID &&& BLOCK_VALID_MASK = BLOCK_VALID_MASK := by decide
  rw [validity, validity, clearFailed, UInt32.and_assoc, other]

theorem failed_clearFailed : entry.clearFailed.failed = false := by
  have none : ~~~BLOCK_FAILED_VALID &&& BLOCK_FAILED_VALID = 0 := by decide
  rw [failed, clearFailed, UInt32.and_assoc, none, UInt32.and_zero]
  rfl

theorem validity_le_raiseValidity (within : nUpTo &&& BLOCK_VALID_MASK = nUpTo) :
    entry.validity ≤ (entry.raiseValidity nUpTo).validity := by
  have masked : ~~~BLOCK_VALID_MASK &&& BLOCK_VALID_MASK = 0 := by decide
  unfold raiseValidity
  split
  · exact UInt32.le_refl _
  split
  next lower =>
    simp only [validity, uint32_or_and, UInt32.and_assoc, masked, UInt32.and_zero, UInt32.zero_or, within]
    exact UInt32.le_of_lt lower
  next => exact UInt32.le_refl _

theorem le_validity_raiseValidity {entry : CBlockIndex} (unfailed : entry.failed = false)
    (within : nUpTo &&& BLOCK_VALID_MASK = nUpTo) : nUpTo ≤ (entry.raiseValidity nUpTo).validity := by
  have masked : ~~~BLOCK_VALID_MASK &&& BLOCK_VALID_MASK = 0 := by decide
  unfold raiseValidity
  rw [unfailed, if_neg Bool.false_ne_true]
  split
  next lower =>
    simp only [validity, uint32_or_and, UInt32.and_assoc, masked, UInt32.and_zero, UInt32.zero_or,
      within, UInt32.le_refl]
  next higher => exact UInt32.not_lt.mp higher

theorem isValid_iff {entry : CBlockIndex} :
    entry.isValid nUpTo = true ↔ entry.failed = false ∧ nUpTo ≤ entry.validity := by
  simp only [isValid, validity, Bool.and_eq_true, Bool.not_eq_true', decide_eq_true_eq]

end CBlockIndex

/-! ## Views of the index -/

namespace BlockMap

variable (blocks : BlockMap) (key : Uint256)

def failedAt : Bool := (blocks.lookup key).any failed

/-- The block and all its ancestors have been counted. -/
def linkedAt : Bool := (blocks.lookup key).any haveNumChainTxs

def dataAt : Bool := (blocks.lookup key).any haveData

def heightAt : Option Int := (blocks.lookup key).map nHeight

/-- A block whose data and whose ancestors' data are there, and that is not failed. -/
def Eligible : Prop := blocks.linkedAt key = true ∧ blocks.failedAt key = false

/-- Every ancestor but the first block is one that can be connected. -/
def Proven (connects : Uint256 → Bool) : Prop :=
  ∀ above, Below (parentOf blocks) key above → connects above = true ∨ parentOf blocks above = none

theorem proven_eq {blocks after : BlockMap} (connects : Uint256 → Bool) (parents : parentOf after = parentOf blocks) :
    (fun key => after.Proven key connects) = fun key => blocks.Proven key connects := by
  funext key
  rw [Proven, Proven, parents]

end BlockMap

variable {blocks after : BlockMap}

namespace Keeps

variable {α β : Type} {view : CBlockIndex → α}

section

variable (kept : Keeps view blocks after)

include kept

theorem weaken {other : CBlockIndex → β} (through : α → β)
    (same : ∀ entry, through (view entry) = other entry) : Keeps other blocks after := by
  intro key
  have mapped := congrArg (Option.map through) (kept key)
  simpa only [Option.map_map, Function.comp_def, same] using mapped

theorem any_eq {test : CBlockIndex → Bool} (through : α → Bool) (same : ∀ entry, through (view entry) = test entry)
    (key : Uint256) : (after.lookup key).any test = (blocks.lookup key).any test := by
  have mapped := congrArg (Option.any through) (kept key)
  simpa only [Option.any_map, Function.comp_def, same] using mapped

theorem isSome_eq (key : Uint256) : (after.lookup key).isSome = (blocks.lookup key).isSome := by
  simpa only [Option.isSome_map] using congrArg Option.isSome (kept key)

end

end Keeps

section FrameViews

variable (kept : Keeps frame blocks after)

include kept

theorem parentOf_of_keeps : parentOf after = parentOf blocks := by
  funext key
  have parents : Keeps pprev blocks after := kept.weaken pprev fun _ => rfl
  have bound := congrArg (Option.bind · id) (parents key)
  simp only [Option.bind_map, Function.id_comp] at bound
  exact bound

theorem heightAt_of_keeps (key : Uint256) : after.heightAt key = blocks.heightAt key :=
  nHeight_of_keeps kept key

theorem Linked.of_keeps (linked : Linked blocks) : Linked after := by
  refine .of_entries fun key entry found => ?_
  obtain ⟨old, oldFound, same⟩ := kept.symm.found found
  rw [← nHeight_of_frame same, ← pprev_of_frame same, ← pskip_of_frame same, parentOf_of_keeps kept]
  refine ⟨linked.nonneg key old oldFound, linked.root key old oldFound, fun pprev link => ?_,
    fun pskip => linked.skip key old pskip oldFound⟩
  obtain ⟨parent, parentFound, above⟩ := linked.child key old pprev oldFound link
  obtain ⟨changed, changedFound, parentSame⟩ := kept.found parentFound
  exact ⟨changed, changedFound, by rw [above, nHeight_of_frame parentSame]⟩

end FrameViews

section SettledViews

variable (kept : Keeps settled blocks after)

include kept

theorem frame_of_settled : Keeps frame blocks after :=
  kept.weaken frame fun _ => rfl

theorem parentOf_of_settled : parentOf after = parentOf blocks :=
  parentOf_of_keeps (frame_of_settled kept)

theorem linkedAt_of_settled (key : Uint256) : after.linkedAt key = blocks.linkedAt key :=
  kept.any_eq haveNumChainTxs (fun _ => rfl) key

theorem dataAt_of_settled (key : Uint256) : after.dataAt key = blocks.dataAt key :=
  kept.any_eq haveData haveData_settled key

end SettledViews

/-! ## Descendants -/

variable {pprev : Uint256}

section Descendants

variable {key above : Uint256}

theorem exists_of_parentOf (link : parentOf blocks key = some pprev) :
    ∃ entry, blocks.lookup key = some entry ∧ entry.pprev = some pprev :=
  Option.bind_eq_some_iff.mp link

theorem known_of_parentOf (link : parentOf blocks key = some pprev) : (blocks.lookup key).isSome = true := by
  obtain ⟨entry, found, -⟩ := exists_of_parentOf link
  exact Option.isSome_of_eq_some found

section

variable (linked : Linked blocks)

include linked

theorem Linked.known_parent (link : parentOf blocks key = some pprev) : (blocks.lookup pprev).isSome = true := by
  obtain ⟨entry, found, toParent⟩ := exists_of_parentOf link
  obtain ⟨parent, parentFound, _⟩ := linked.child key entry pprev found toParent
  rw [parentFound]
  rfl

theorem Linked.height_of_ancestor {steps : Nat} {entry : CBlockIndex} (found : blocks.lookup key = some entry)
    (climbed : ancestor (parentOf blocks) steps key = some above) :
    ∃ aboveEntry, blocks.lookup above = some aboveEntry ∧ entry.nHeight = aboveEntry.nHeight + steps := by
  induction steps generalizing key entry with
  | zero =>
    cases climbed
    exact ⟨entry, found, by simp⟩
  | succ steps ih =>
    rw [ancestor] at climbed
    obtain ⟨pprev, link, climbed⟩ := Option.bind_eq_some_iff.mp climbed
    rw [parentOf_eq found] at link
    obtain ⟨parent, parentFound, height⟩ := linked.child key entry pprev found link
    obtain ⟨aboveEntry, aboveFound, parentHeight⟩ := ih parentFound climbed
    refine ⟨aboveEntry, aboveFound, ?_⟩
    push_cast
    omega

theorem Linked.descendsFrom_iff
    (known : (blocks.lookup key).isSome = true) (knownAbove : (blocks.lookup above).isSome = true) :
    Chainstate.descendsFrom blocks key above = true ↔ Below (parentOf blocks) key above := by
  obtain ⟨entry, found⟩ := Option.isSome_iff_exists.mp known
  obtain ⟨aboveEntry, aboveFound⟩ := Option.isSome_iff_exists.mp knownAbove
  have nonneg := linked.nonneg above aboveEntry aboveFound
  rw [Chainstate.descendsFrom, aboveFound]
  dsimp only
  rw [beq_iff_eq]
  constructor
  · intro climbed
    by_cases within : aboveEntry.nHeight ≤ entry.nHeight
    · rw [getAncestor_eq linked found nonneg within] at climbed
      exact ⟨_, climbed⟩
    rw [getAncestor, found] at climbed
    dsimp only at climbed
    rw [if_pos (.inl (by omega))] at climbed
    cases climbed
  · rintro ⟨steps, climbed⟩
    obtain ⟨_, found', height⟩ := linked.height_of_ancestor found climbed
    cases aboveFound.symm.trans found'
    rw [getAncestor_eq linked found nonneg (by omega)]
    have count : (entry.nHeight - aboveEntry.nHeight).toNat = steps := by omega
    rw [count, climbed]

theorem Linked.not_below_parent (link : parentOf blocks key = some pprev) : ¬ Below (parentOf blocks) pprev key := by
  rintro ⟨steps, climbed⟩
  obtain ⟨entry, found, toParent⟩ := exists_of_parentOf link
  obtain ⟨parent, parentFound, height⟩ := linked.child key entry pprev found toParent
  obtain ⟨_, found', parentHeight⟩ := linked.height_of_ancestor parentFound climbed
  cases found.symm.trans found'
  omega

theorem Linked.known_of_below (known : (blocks.lookup key).isSome = true)
    (below : Below (parentOf blocks) key above) : (blocks.lookup above).isSome = true :=
  below.induct (fun key => (blocks.lookup key).isSome = true)
    (fun _ _ link _ => linked.known_parent link) known

end

end Descendants

/-! ## The order of candidates -/

section Rank

variable (addresses : Addresses) (blocks : BlockMap)

/-- More work first, then the earlier block, then the lower address. -/
def rank (key : Uint256) : ℕ ×ₗ ℤ ×ₗ ℤ :=
  toLex (((blocks.lookup key).map fun entry => entry.nChainWork.toNat).getD 0,
    toLex (-((blocks.lookup key).map nSequenceId).getD 0, -(addresses.address key : ℤ)))

variable {addresses blocks} {left right : Uint256}

theorem workComparator_iff (knownLeft : (blocks.lookup left).isSome = true)
    (knownRight : (blocks.lookup right).isSome = true) :
    workComparator addresses blocks left right = true ↔ rank addresses blocks left < rank addresses blocks right := by
  obtain ⟨pa, foundLeft⟩ := Option.isSome_iff_exists.mp knownLeft
  obtain ⟨pb, foundRight⟩ := Option.isSome_iff_exists.mp knownRight
  simp only [workComparator, rank, foundLeft, foundRight, Option.map_some, Option.getD_some,
    Prod.Lex.toLex_lt_toLex, gt_iff_lt, BitVec.lt_def, neg_lt_neg_iff, neg_inj]
  split
  next higher => simp only [Bool.false_eq_true, false_iff]; omega
  next =>
    split
    next lower => simp only [true_iff]; omega
    next =>
      split
      next => simp only [Bool.false_eq_true, false_iff]; omega
      next =>
        split
        next => simp only [true_iff]; omega
        next => rw [decide_eq_true_eq]; omega

theorem workComparator_eq_false_iff (knownLeft : (blocks.lookup left).isSome = true)
    (knownRight : (blocks.lookup right).isSome = true) :
    workComparator addresses blocks left right = false ↔ rank addresses blocks right ≤ rank addresses blocks left := by
  rw [← Bool.not_eq_true, workComparator_iff knownLeft knownRight, not_lt]

theorem rank_injective : Function.Injective (rank addresses blocks) := by
  intro left right same
  have parts := Prod.ext_iff.mp (toLex.injective same)
  have places := Prod.ext_iff.mp (toLex.injective parts.2)
  exact addresses.injective (Nat.cast_injective (neg_injective places.2))

theorem rank_of_settled (kept : Keeps settled blocks after) : rank addresses after = rank addresses blocks := by
  funext key
  have works : Keeps (fun entry => entry.nChainWork.toNat) blocks after :=
    kept.weaken (fun entry => entry.nChainWork.toNat) fun _ => rfl
  have sequences : Keeps nSequenceId blocks after := kept.weaken nSequenceId fun _ => rfl
  rw [rank, rank, sequences key]
  exact congrArg (fun work : Option ℕ => toLex (work.getD 0, _)) (works key)

end Rank

end Sharecoin
