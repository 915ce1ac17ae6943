import Sharecoin.Psbt.Psbt

/-! What the unique ID of a PSBT is made of, and when combining PSBTs keeps it. Merging leaves
everything it hashes as it was but for the lock time, which it computes again from the locks
that all the PSBTs require together. -/

set_option autoImplicit false

namespace Sharecoin

open Lib PSBTInput

/-! ## The lock time that requirements ask for -/

/-- The least lock times an input can be spent with. -/
structure Requirement where
  time : Option UInt32
  height : Option UInt32
deriving DecidableEq

namespace Requirement

def timeOnly (requirement : Requirement) : Bool :=
  requirement.time.isSome && requirement.height.isNone

def heightOnly (requirement : Requirement) : Bool :=
  requirement.time.isNone && requirement.height.isSome

end Requirement

def PSBTInput.requirement (input : PSBTInput) : Requirement :=
  ⟨input.timeLocktime, input.heightLocktime⟩

/-- The greatest of the locks given, 0 where there is none. -/
def greatestLock (locks : List (Option UInt32)) : UInt32 :=
  locks.foldr (fun lock greatest => max (lock.getD 0) greatest) 0

/-- The lock time a transaction needs: by height if no input insists on a time, else by time,
and none where inputs insist on both kinds. -/
def neededLockTime (requirements : List Requirement) (fallback : UInt32) : Option UInt32 :=
  let byTime := requirements.any Requirement.timeOnly
  let byHeight := requirements.any Requirement.heightOnly
  let height := greatestLock (requirements.map Requirement.height)
  let time := greatestLock (requirements.map Requirement.time)
  if byTime && byHeight then none
  else if !byTime && 0 < height then some height
  else if !byHeight && 0 < time then some time
  else some fallback

section Scan

open PartiallySignedTransaction

theorem uint32_max (left right : UInt32) : max left right = if left ≤ right then right else left :=
  rfl

theorem uint32_max_assoc (left middle right : UInt32) : max (max left middle) right = max left (max middle right) := by
  grind [uint32_max]

theorem uint32_max_zero (lock : UInt32) : max lock 0 = lock := by grind [uint32_max]

theorem uint32_zero_max (lock : UInt32) : max 0 lock = lock := by grind [uint32_max]

theorem greatestLock_cons (lock : Option UInt32) (locks : List (Option UInt32)) :
    greatestLock (lock :: locks) = max (lock.getD 0) (greatestLock locks) := rfl

/-- The state of the scan after some inputs insisted on a time or on a height. -/
def scanState (byTime byHeight : Bool) (time height : UInt32) : OpenLocks :=
  ⟨if byHeight then none else some time, if byTime then none else some height⟩

theorem require_scanState {byTime byHeight : Bool} (undecided : (byTime && byHeight) = false)
    (time height : UInt32) (input : PSBTInput) :
    (scanState byTime byHeight time height).require input =
      if (byTime || input.requirement.timeOnly) && (byHeight || input.requirement.heightOnly) then
        none
      else some (scanState (byTime || input.requirement.timeOnly)
        (byHeight || input.requirement.heightOnly)
        (max time (input.timeLocktime.getD 0)) (max height (input.heightLocktime.getD 0))) := by
  cases byTime <;> cases byHeight <;> cases givenTime : input.timeLocktime <;>
    cases givenHeight : input.heightLocktime <;>
    simp_all [OpenLocks.require, scanState, requirement, Requirement.timeOnly, Requirement.heightOnly]

theorem foldlM_require (byTime byHeight : Bool) (undecided : (byTime && byHeight) = false)
    (time height : UInt32) (inputs : List PSBTInput) :
    inputs.foldlM OpenLocks.require (scanState byTime byHeight time height) =
      let requirements := inputs.map requirement
      let byTime := byTime || requirements.any Requirement.timeOnly
      let byHeight := byHeight || requirements.any Requirement.heightOnly
      if byTime && byHeight then none
      else some (scanState byTime byHeight
        (max time (greatestLock (requirements.map Requirement.time)))
        (max height (greatestLock (requirements.map Requirement.height)))) := by
  induction inputs generalizing byTime byHeight time height with
  | nil => simp [undecided, greatestLock, uint32_max_zero]
  | cons input inputs ih =>
    rw [List.foldlM_cons, require_scanState undecided]
    by_cases decided : ((byTime || input.requirement.timeOnly) && (byHeight || input.requirement.heightOnly)) = true
    · simp only [Bool.and_eq_true, Bool.or_eq_true] at decided
      simp only [List.map_cons, List.any_cons, ← Bool.or_assoc]
      simp [decided]
    rw [Bool.not_eq_true] at decided
    rw [if_neg (by simp [decided]), Option.bind_eq_bind, Option.bind_some, ih _ _ decided]
    simp only [List.map_cons, List.any_cons, greatestLock_cons, ← Bool.or_assoc,
      uint32_max_assoc, requirement]

/-- The scan of `ComputeTimeLock` finds the lock time that the requirements ask for. -/
theorem computeTimeLock_eq (psbt : PartiallySignedTransaction) : psbt.computeTimeLock = if psbt.getVersion ≥ 2 then
        neededLockTime (psbt.inputs.map requirement) (psbt.fallbackLocktime.getD 0)
      else some (psbt.fallbackLocktime.getD 0) := by
  rw [computeTimeLock]
  split
  · have scan := foldlM_require false false rfl 0 0 psbt.inputs
    simp only [scanState, Bool.false_eq_true, if_false] at scan
    rw [scan, neededLockTime]
    simp only [Bool.false_or, uint32_zero_max]
    cases psbt.inputs.map requirement |>.any Requirement.timeOnly <;>
      cases psbt.inputs.map requirement |>.any Requirement.heightOnly <;> simp
  · rfl

end Scan

/-! ## Requirements pooled from two lists -/

variable {locks : List (Option UInt32)} {item : Requirement} {field : Requirement → Option UInt32}

theorem le_greatestLock {lock : UInt32} (given : some lock ∈ locks) : lock ≤ greatestLock locks := by
  induction locks with
  | nil => simp at given
  | cons head locks ih =>
    rw [greatestLock_cons]
    rcases List.mem_cons.mp given with rfl | later
    · simp only [Option.getD_some]
      grind [uint32_max]
    · have := ih later
      grind [uint32_max]

theorem greatestLock_mem (pos : 0 < greatestLock locks) : some (greatestLock locks) ∈ locks := by
  induction locks with
  | nil => simp [greatestLock] at pos
  | cons head locks ih =>
    rw [greatestLock_cons, uint32_max] at pos ⊢
    split
    next smaller =>
      rw [if_pos smaller] at pos
      exact .tail _ (ih pos)
    next larger =>
      rw [if_neg larger] at pos
      cases head with
      | none => simp at pos
      | some lock => simp

theorem greatestLock_eq {lock : UInt32} (given : some lock ∈ locks)
    (bound : ∀ other, some other ∈ locks → other ≤ lock) : greatestLock locks = lock := by
  have least := le_greatestLock given
  by_cases pos : 0 < greatestLock locks
  · have most := bound _ (greatestLock_mem pos)
    grind
  · grind

namespace Requirement

def orElse (this other : Requirement) : Requirement :=
  ⟨this.time.or other.time, this.height.or other.height⟩

/-- What reading a PSBT checks of the locks of an input. -/
def InRange (requirement : Requirement) : Prop :=
  (∀ time, requirement.time = some time → LOCKTIME_THRESHOLD ≤ time) ∧
    ∀ height, requirement.height = some height → 0 < height ∧ height < LOCKTIME_THRESHOLD

def isFree (requirement : Requirement) : Bool :=
  requirement.time.isNone && requirement.height.isNone

variable {requirements : List Requirement} {fallback lock : UInt32}

def Free (requirements : List Requirement) : Prop := ∀ item ∈ requirements, item.isFree = true

namespace Free

variable (free : Free requirements)

include free

theorem eq_none (field : Requirement → Option UInt32) (absent : field ⟨none, none⟩ = none) :
    ∀ item ∈ requirements, field item = none := by
  intro item listed
  have required := free item listed
  cases item
  simp only [isFree, Bool.and_eq_true, Option.isNone_iff_eq_none] at required
  rw [required.1, required.2, absent]

theorem any_timeOnly : requirements.any timeOnly = false :=
  List.any_eq_false.mpr fun item listed => by simp [timeOnly, free.eq_none time rfl item listed]

theorem any_heightOnly : requirements.any heightOnly = false :=
  List.any_eq_false.mpr fun item listed => by simp [heightOnly, free.eq_none height rfl item listed]

theorem neededLockTime_eq : neededLockTime requirements fallback = some fallback := by
  have empty (field : Requirement → Option UInt32) (absent : field ⟨none, none⟩ = none) :
      ¬ 0 < greatestLock (requirements.map field) := by
    intro pos
    obtain ⟨item, listed, given⟩ := List.mem_map.mp (greatestLock_mem pos)
    simp [free.eq_none field absent item listed] at given
  simp [neededLockTime, free.any_timeOnly, empty time rfl, empty height rfl]

end Free

/-- Locks in range that ask for a lock time. -/
structure Asks (requirements : List Requirement) (fallback lock : UInt32) : Prop where
  inRange : ∀ item ∈ requirements, item.InRange
  needed : neededLockTime requirements fallback = some lock

namespace Asks

variable (asks : Asks requirements fallback lock)

include asks

/-- The ways to a lock time: nothing is required, an input insists on a time, or heights are
enough. -/
theorem ways : (Free requirements ∧ fallback = lock) ∨ (requirements.any timeOnly = true ∧ requirements.any heightOnly = false ∧
        lock = greatestLock (requirements.map time) ∧ LOCKTIME_THRESHOLD ≤ lock) ∨
      requirements.any timeOnly = false ∧ lock = greatestLock (requirements.map height) ∧ 0 < lock ∧
        lock < LOCKTIME_THRESHOLD := by
  obtain ⟨inRange, needed⟩ := asks
  by_cases free : Free requirements
  · exact .inl ⟨free, Option.some.inj (free.neededLockTime_eq.symm.trans needed)⟩
  right
  cases byTime : requirements.any timeOnly with
  | true =>
    obtain ⟨item, listed, insists⟩ := List.any_eq_true.mp byTime
    simp only [timeOnly, Bool.and_eq_true] at insists
    obtain ⟨time, given⟩ := Option.isSome_iff_exists.mp insists.1
    have late := (inRange item listed).1 time given
    have most := le_greatestLock (List.mem_map.mpr ⟨item, listed, given⟩)
    have pos : 0 < greatestLock (requirements.map Requirement.time) := by
      simp only [LOCKTIME_THRESHOLD] at late
      grind
    cases byHeight : requirements.any heightOnly with
    | true => simp [neededLockTime, byTime, byHeight] at needed
    | false =>
      simp only [neededLockTime, byTime, byHeight, pos] at needed
      simp at needed
      subst needed
      exact .inl ⟨rfl, rfl, rfl, by grind⟩
  | false =>
    obtain ⟨item, listed, required⟩ : ∃ item ∈ requirements, item.isFree = false := by
      simpa [Free] using free
    obtain ⟨height, given⟩ : ∃ height, item.height = some height := by
      have elsewhere := List.any_eq_false.mp byTime item listed
      cases given : item.height with
      | some height => exact ⟨height, rfl⟩
      | none => cases timed : item.time <;> simp [timeOnly, isFree, given, timed] at elsewhere required
    have most := le_greatestLock (List.mem_map.mpr ⟨item, listed, given⟩)
    have pos : 0 < greatestLock (requirements.map Requirement.height) := by
      have := ((inRange item listed).2 height given).1
      grind
    obtain ⟨giver, giverListed, given'⟩ := List.mem_map.mp (greatestLock_mem pos)
    simp only [neededLockTime, byTime, pos] at needed
    simp at needed
    subst needed
    exact .inr ⟨rfl, rfl, pos, ((inRange giver giverListed).2 _ given').2⟩

theorem le_of_any_timeOnly (byTime : requirements.any timeOnly = true) : LOCKTIME_THRESHOLD ≤ lock := by
  rcases asks.ways with ⟨free, -⟩ | ⟨-, -, -, late⟩ | ⟨notByTime, -⟩
  · simp [free.any_timeOnly] at byTime
  · exact late
  · simp [notByTime] at byTime

theorem lt_of_not_free (notByTime : requirements.any timeOnly = false) (required : ¬ Free requirements) :
    lock < LOCKTIME_THRESHOLD := by
  rcases asks.ways with ⟨free, -⟩ | ⟨byTime, -⟩ | ⟨-, -, -, early⟩
  · exact absurd free required
  · simp [notByTime] at byTime
  · exact early

theorem cases_of_late (late : LOCKTIME_THRESHOLD ≤ lock) :
    requirements.any heightOnly = false ∧ (Free requirements ∨ lock = greatestLock (requirements.map time)) := by
  rcases asks.ways with ⟨free, -⟩ | ⟨-, notByHeight, most, -⟩ | ⟨-, -, -, early⟩
  · exact ⟨free.any_heightOnly, .inl free⟩
  · exact ⟨notByHeight, .inr most⟩
  · grind

theorem cases_of_not_timeOnly (notByTime : requirements.any timeOnly = false) :
    Free requirements ∧ fallback = lock ∨ 0 < lock ∧ lock = greatestLock (requirements.map height) := by
  rcases asks.ways with free | ⟨byTime, -⟩ | ⟨-, most, pos, -⟩
  · exact .inl free
  · simp [notByTime] at byTime
  · exact .inr ⟨pos, most⟩

end Asks

/-- A list whose requirements are those of two lists, taken together input by input. -/
structure Pooled (left right both : List Requirement) : Prop where
  of_left : ∀ item ∈ left, ∃ other ∈ right, item.orElse other ∈ both
  of_right : ∀ other ∈ right, ∃ item ∈ left, item.orElse other ∈ both
  split : ∀ item ∈ both, ∃ first ∈ left, ∃ second ∈ right, item = first.orElse second

namespace Pooled

variable {left right both : List Requirement}

section

variable (pooled : Pooled left right both)

include pooled

theorem inRange (ofLeft : ∀ item ∈ left, item.InRange) (ofRight : ∀ item ∈ right, item.InRange) :
    ∀ item ∈ both, item.InRange := by
  intro item listed
  obtain ⟨first, firstListed, second, secondListed, rfl⟩ := pooled.split item listed
  have firstRange := ofLeft first firstListed
  have secondRange := ofRight second secondListed
  refine ⟨fun time given => ?_, fun height given => ?_⟩
  · rcases Option.or_eq_some_iff.mp given with given | ⟨-, given⟩
    · exact firstRange.1 time given
    · exact secondRange.1 time given
  · rcases Option.or_eq_some_iff.mp given with given | ⟨-, given⟩
    · exact firstRange.2 height given
    · exact secondRange.2 height given

theorem any_or {test : Requirement → Bool}
    (insists : ∀ this other, test (orElse this other) = true → test this = true ∨ test other = true)
    (found : both.any test = true) : left.any test = true ∨ right.any test = true := by
  obtain ⟨item, listed, holds⟩ := List.any_eq_true.mp found
  obtain ⟨first, firstListed, second, secondListed, rfl⟩ := pooled.split item listed
  rcases insists first second holds with holds | holds
  · exact .inl (List.any_eq_true.mpr ⟨first, firstListed, holds⟩)
  · exact .inr (List.any_eq_true.mpr ⟨second, secondListed, holds⟩)

theorem any_timeOnly (byTime : both.any timeOnly = true) : left.any timeOnly = true ∨ right.any timeOnly = true := by
  refine pooled.any_or (fun this other => ?_) byTime
  simp only [timeOnly, orElse, Bool.and_eq_true, Option.isSome_or, Bool.or_eq_true, Option.isNone_or]
  tauto

theorem any_heightOnly (byHeight : both.any heightOnly = true) :
    left.any heightOnly = true ∨ right.any heightOnly = true := by
  refine pooled.any_or (fun this other => ?_) byHeight
  simp only [heightOnly, orElse, Bool.and_eq_true, Option.isSome_or, Bool.or_eq_true, Option.isNone_or]
  tauto

theorem greatestLock_eq (field_orElse : ∀ this other : Requirement,
      field (this.orElse other) = (field this).or (field other))
    (leftBound : ∀ item ∈ left, ∀ other, field item = some other → other ≤ lock)
    (rightBound : ∀ item ∈ right, ∀ other, field item = some other → other ≤ lock)
    (attained : (∃ item ∈ left, field item = some lock) ∨
      (∀ item ∈ left, field item = none) ∧ ∃ item ∈ right, field item = some lock) :
    greatestLock (both.map field) = lock := by
  apply Sharecoin.greatestLock_eq
  · rw [List.mem_map]
    rcases attained with ⟨item, listed, given⟩ | ⟨missing, item, listed, given⟩
    · obtain ⟨other, -, joined⟩ := pooled.of_left item listed
      exact ⟨_, joined, by rw [field_orElse, given, Option.some_or]⟩
    · obtain ⟨other, otherListed, joined⟩ := pooled.of_right item listed
      exact ⟨_, joined, by rw [field_orElse, missing other otherListed, given, Option.none_or]⟩
  · intro other given
    obtain ⟨item, listed, given⟩ := List.mem_map.mp given
    obtain ⟨first, firstListed, second, secondListed, rfl⟩ := pooled.split item listed
    rw [field_orElse] at given
    rcases Option.or_eq_some_iff.mp given with given | ⟨-, given⟩
    · exact leftBound first firstListed other given
    · exact rightBound second secondListed other given

end

private theorem le_of_greatest (most : Free requirements ∨ lock = greatestLock (requirements.map field))
    (absent : field ⟨none, none⟩ = none) :
    ∀ item ∈ requirements, ∀ other, field item = some other → other ≤ lock := by
  intro item listed other given
  rcases most with free | most
  · rw [free.eq_none field absent item listed] at given
    cases given
  · rw [most]
    exact le_greatestLock (List.mem_map.mpr ⟨item, listed, given⟩)

private theorem exists_greatest (pos : 0 < lock) (most : lock = greatestLock (requirements.map field)) :
    ∃ item ∈ requirements, field item = some lock := by
  have attained := greatestLock_mem (most ▸ pos)
  rw [← most] at attained
  exact List.mem_map.mp attained

theorem greatestLock_both (pooled : Pooled left right both) (absent : field ⟨none, none⟩ = none)
    (field_orElse : ∀ this other : Requirement, field (this.orElse other) = (field this).or (field other))
    (pos : 0 < lock) (leftMost : Free left ∨ lock = greatestLock (left.map field))
    (rightMost : Free right ∨ lock = greatestLock (right.map field))
    (required : Free left → lock = greatestLock (right.map field)) : greatestLock (both.map field) = lock := by
  refine pooled.greatestLock_eq field_orElse (le_of_greatest leftMost absent) (le_of_greatest rightMost absent) ?_
  rcases leftMost with free | most
  · exact .inr ⟨free.eq_none field absent, exists_greatest pos (required free)⟩
  · exact .inl (exists_greatest pos most)

section Pair

variable {leftFallback rightFallback : Option UInt32} (pooled : Pooled left right both)
  (leftAsks : Asks left (leftFallback.getD 0) lock) (rightAsks : Asks right (rightFallback.getD 0) lock)

include pooled leftAsks rightAsks

theorem late_of_byTime (byTime : both.any timeOnly = true) : LOCKTIME_THRESHOLD ≤ lock := by
  rcases pooled.any_timeOnly byTime with insists | insists
  · exact leftAsks.le_of_any_timeOnly insists
  · exact rightAsks.le_of_any_timeOnly insists

/-- Two lists that ask for the same time ask for it together, if an input still insists on a
time. -/
theorem neededLockTime_byTime (byTime : both.any timeOnly = true) : neededLockTime both fallback = some lock := by
  have late := pooled.late_of_byTime leftAsks rightAsks byTime
  have pos : 0 < lock := by
    simp only [LOCKTIME_THRESHOLD] at late
    grind
  obtain ⟨leftNot, leftMost⟩ := leftAsks.cases_of_late late
  obtain ⟨rightNot, rightMost⟩ := rightAsks.cases_of_late late
  have notByHeight : both.any heightOnly = false :=
    Bool.eq_false_iff.mpr fun byHeight => by simpa [leftNot, rightNot] using pooled.any_heightOnly byHeight
  have greatest : greatestLock (both.map time) = lock := by
    refine pooled.greatestLock_both rfl (fun _ _ => rfl) pos leftMost rightMost fun leftFree => ?_
    refine rightMost.resolve_left fun rightFree => ?_
    simpa [leftFree.any_timeOnly, rightFree.any_timeOnly] using pooled.any_timeOnly byTime
  simp [neededLockTime, byTime, notByHeight, greatest, pos]

/-- Two lists no input of which insists on a time and that ask for the same lock time ask for
it together. -/
theorem neededLockTime_byHeight (leftNot : left.any timeOnly = false) (rightNot : right.any timeOnly = false) :
    neededLockTime both ((leftFallback.or rightFallback).getD 0) = some lock := by
  have notByTime : both.any timeOnly = false :=
    Bool.eq_false_iff.mpr fun byTime => by simpa [leftNot, rightNot] using pooled.any_timeOnly byTime
  have leftCases := leftAsks.cases_of_not_timeOnly leftNot
  have rightCases := rightAsks.cases_of_not_timeOnly rightNot
  by_cases free : Free left ∧ Free right
  · have bothFree : Free both := by
      intro item listed
      obtain ⟨first, firstListed, second, secondListed, rfl⟩ := pooled.split item listed
      have firstFree := free.1 first firstListed
      have secondFree := free.2 second secondListed
      simp_all [isFree, orElse]
    rw [bothFree.neededLockTime_eq]
    have := free.1.neededLockTime_eq.symm.trans leftAsks.needed
    have := free.2.neededLockTime_eq.symm.trans rightAsks.needed
    cases leftFallback <;> simp_all
  · have pos : 0 < lock := by
      rcases leftCases with ⟨leftFree, -⟩ | ⟨pos, -⟩
      · rcases rightCases with ⟨rightFree, -⟩ | ⟨pos, -⟩
        · exact absurd ⟨leftFree, rightFree⟩ free
        · exact pos
      · exact pos
    have greatest : greatestLock (both.map height) = lock :=
      pooled.greatestLock_both rfl (fun _ _ => rfl) pos (leftCases.imp And.left And.right)
        (rightCases.imp And.left And.right) fun leftFree =>
          (rightCases.resolve_left fun rightFree => free ⟨leftFree, rightFree.1⟩).2
    simp [neededLockTime, notByTime, greatest, pos]

end Pair

end Pooled

end Requirement

@[simp] theorem fillMissing_isNone {α : Type} (this other : Option α) :
    fillMissing Option.isNone this other = this.or other := by
  cases this <;> cases other <;> rfl

variable {this psbt out : PartiallySignedTransaction} {psbts : List PartiallySignedTransaction} {locktime : UInt32}

namespace PartiallySignedTransaction

/-! ## What the unique ID is hashed from -/

/-- The transaction `GetUniqueID` hashes, for a lock time. -/
def identity (psbt : PartiallySignedTransaction) (locktime : UInt32) : CTransaction :=
  { version := psbt.txVersion
    vin := psbt.inputs.map fun input => {
      prevout := ⟨input.prevTxid, input.prevOut⟩
      nSequence := if psbt.getVersion ≥ 2 then 0 else input.sequence.getD CTxIn.SEQUENCE_FINAL }
    vout := psbt.outputs.map fun output => ⟨output.amount, output.script⟩
    nLockTime := locktime }

variable {sha256d : Bytes → Uint256} {merged : PartiallySignedTransaction} {index : Nat}

theorem getUniqueID_eq (psbt : PartiallySignedTransaction) : psbt.getUniqueID sha256d =
      psbt.computeTimeLock.map fun locktime => (psbt.identity locktime).getHash sha256d := by
  cases locked : psbt.computeTimeLock with
  | none => simp [getUniqueID, getUnsignedTx, locked]
  | some locktime =>
    by_cases version : psbt.getVersion ≥ 2 <;>
      simp [getUniqueID, getUnsignedTx, locked, identity, version, Function.comp_def]

/-- PSBTs whose transactions have different txids where they are different, whatever lock
times are put into them. -/
def TxidsApart (sha256d : Bytes → Uint256) (psbts : List PartiallySignedTransaction) : Prop :=
  ∀ left ∈ psbts, ∀ right ∈ psbts, ∀ time time' : UInt32,
    (left.identity time).getHash sha256d = (right.identity time').getHash sha256d →
      left.identity time = right.identity time'

/-- Equal in everything the unique ID covers but the lock time. -/
def SameButLock (left right : PartiallySignedTransaction) : Prop :=
  left.getVersion = right.getVersion ∧ left.identity 0 = right.identity 0

namespace SameButLock

variable {left middle right : PartiallySignedTransaction}

theorem identity_eq (same : SameButLock left right) (locktime : UInt32) :
    left.identity locktime = right.identity locktime :=
  congrArg (fun tx : CTransaction => { tx with nLockTime := locktime }) same.2

theorem trans (first : SameButLock left middle) (second : SameButLock middle right) : SameButLock left right :=
  ⟨first.1.trans second.1, first.2.trans second.2⟩

theorem symm (same : SameButLock left right) : SameButLock right left :=
  ⟨same.1.symm, same.2.symm⟩

theorem length_inputs (same : SameButLock left right) : left.inputs.length = right.inputs.length := by
  simpa [identity] using congrArg (fun tx : CTransaction => tx.vin.length) same.2

end SameButLock

section

variable (this psbt : PartiallySignedTransaction)

@[simp] theorem getVersion_mergeFields : (this.mergeFields psbt).getVersion = this.getVersion := rfl

@[simp] theorem inputs_mergeFields :
    (this.mergeFields psbt).inputs = mergeEach PSBTInput.merge this.inputs psbt.inputs := rfl

@[simp] theorem outputs_mergeFields :
    (this.mergeFields psbt).outputs = mergeEach PSBTOutput.merge this.outputs psbt.outputs := rfl

@[simp] theorem txVersion_mergeFields : (this.mergeFields psbt).txVersion = this.txVersion := rfl

@[simp] theorem fallbackLocktime_mergeFields :
    (this.mergeFields psbt).fallbackLocktime = this.fallbackLocktime.or psbt.fallbackLocktime :=
  fillMissing_isNone _ _

end

/-- Merging does not touch what the unique ID covers, but for the lock time. -/
theorem sameButLock_mergeFields (same : SameButLock this psbt) : SameButLock (this.mergeFields psbt) this := by
  refine ⟨rfl, ?_⟩
  have inputs := congrArg CTransaction.vin same.2
  simp only [identity, inputs_mergeFields, outputs_mergeFields, getVersion_mergeFields,
    txVersion_mergeFields] at inputs ⊢
  congr 1
  · apply List.ext_getElem?
    intro index
    have here := congrArg (·[index]?) inputs
    simp only [List.getElem?_map, getElem?_mergeEach] at here ⊢
    cases found : this.inputs[index]? with
    | none => rfl
    | some input =>
      rw [found] at here
      cases other : psbt.inputs[index]? with
      | none => simp [other] at here
      | some input' =>
        rw [other] at here
        simp only [Option.map_some, Option.some.injEq, CTxIn.mk.injEq, ← same.1] at here
        simp only [Option.map_some, Option.getD_some, PSBTInput.merge, fillMissing_isNone]
        by_cases version : this.getVersion ≥ 2
        · simp [version]
        simp only [version, if_false] at here ⊢
        cases given : input.sequence with
        | some sequence => rfl
        | none =>
          rw [given] at here
          rw [Option.none_or, ← here.2.2.1]
  · apply List.ext_getElem?
    intro index
    simp only [List.getElem?_map, getElem?_mergeEach]
    cases this.outputs[index]? with
    | none => rfl
    | some output => cases psbt.outputs[index]? <;> rfl

/-! ## Runs of `CombinePSBTs` -/

/-- A PSBT made by merging a list of them, in this order and in groups of any kind. -/
inductive Combines (sha256d : Bytes → Uint256) :
    List PartiallySignedTransaction → PartiallySignedTransaction → Prop where
  | single {psbt : PartiallySignedTransaction} : Combines sha256d [psbt] psbt
  | join {left right : List PartiallySignedTransaction} {merged psbt out : PartiallySignedTransaction}
      (first : Combines sha256d left merged) (second : Combines sha256d right psbt)
      (step : merged.merge sha256d psbt = some out) : Combines sha256d (left ++ right) out

theorem combines_of_foldlM {rest : List PartiallySignedTransaction} (before : Combines sha256d psbts merged)
    (combined : rest.foldlM (merge sha256d) merged = some out) : Combines sha256d (psbts ++ rest) out := by
  induction rest generalizing psbts merged with
  | nil =>
    cases combined
    simpa using before
  | cons psbt rest ih =>
    obtain ⟨next, step, combined⟩ := Option.bind_eq_some_iff.mp combined
    simpa using ih (before.join .single step) combined

theorem combines_of_combinePSBTs (combined : combinePSBTs sha256d psbts = some out) : Combines sha256d psbts out := by
  cases psbts with
  | nil => cases combined
  | cons psbt rest => exact combines_of_foldlM .single combined

/-- A merge that succeeds joins the fields of two PSBTs with one unique ID. -/
theorem merge_eq_some_iff : this.merge sha256d psbt = some out ↔
      (∃ id, this.getUniqueID sha256d = some id ∧ psbt.getUniqueID sha256d = some id) ∧
        this.getVersion = psbt.getVersion ∧ this.mergeFields psbt = out := by
  cases own : this.getUniqueID sha256d with
  | none => simp [merge, own]
  | some id =>
    cases other : psbt.getUniqueID sha256d with
    | none => simp [merge, own, other]
    | some id' =>
      simp only [merge, own, other]
      by_cases same : id = id'
      · subst same
        by_cases version : this.getVersion = psbt.getVersion <;> simp [version]
      constructor
      · intro impossible
        simp [same] at impossible
      · rintro ⟨⟨shared, first, second⟩, -⟩
        exact (same (Option.some.inj (first.trans second.symm))).elim

/-- What one merge of a run knows: both PSBTs describe the same transaction, with its lock
time. -/
structure Agree (merged psbt : PartiallySignedTransaction) : Prop where
  sameButLock : SameButLock merged psbt
  sameLock : ∃ locktime, merged.computeTimeLock = some locktime ∧ psbt.computeTimeLock = some locktime

theorem Combines.ne_nil (combines : Combines sha256d psbts out) : psbts ≠ [] := by
  induction combines with
  | single => simp
  | join _ _ _ leftNonempty => simp [leftNonempty]

theorem agree_of_merge {left right : List PartiallySignedTransaction} (apart : TxidsApart sha256d (left ++ right))
    (first : Combines sha256d left merged) (second : Combines sha256d right psbt)
    (ofFirst : ∀ psbt ∈ left, SameButLock merged psbt) (ofSecond : ∀ other ∈ right, SameButLock psbt other)
    (step : merged.merge sha256d psbt = some out) : Agree merged psbt := by
  obtain ⟨head, listed⟩ := List.exists_mem_of_ne_nil left first.ne_nil
  obtain ⟨head', listed'⟩ := List.exists_mem_of_ne_nil right second.ne_nil
  obtain ⟨⟨id, ownId, otherId⟩, version, -⟩ := merge_eq_some_iff.mp step
  rw [getUniqueID_eq] at ownId otherId
  obtain ⟨time, ownLock, ownHash⟩ := Option.map_eq_some_iff.mp ownId
  obtain ⟨time', otherLock, otherHash⟩ := Option.map_eq_some_iff.mp otherId
  -- both are hashed as PSBTs of the list would be
  rw [(ofFirst head listed).identity_eq] at ownHash
  rw [(ofSecond head' listed').identity_eq] at otherHash
  have hashed := apart head (List.mem_append_left _ listed) head' (List.mem_append_right _ listed') time time'
    (ownHash.trans otherHash.symm)
  have sameTime : time = time' := congrArg CTransaction.nLockTime hashed
  subst sameTime
  have same := congrArg (fun tx : CTransaction => { tx with nLockTime := 0 }) hashed
  exact ⟨⟨version, (ofFirst head listed).2.trans (same.trans (ofSecond head' listed').2.symm)⟩, time, ownLock, otherLock⟩

theorem TxidsApart.mono {others : List PartiallySignedTransaction} (apart : TxidsApart sha256d psbts)
    (among : ∀ psbt ∈ others, psbt ∈ psbts) : TxidsApart sha256d others := fun left leftListed right rightListed =>
  apart left (among left leftListed) right (among right rightListed)

/-- A run over PSBTs that their txids tell apart. -/
structure Run (sha256d : Bytes → Uint256) (psbts : List PartiallySignedTransaction)
    (out : PartiallySignedTransaction) : Prop where
  combines : Combines sha256d psbts out
  apart : TxidsApart sha256d psbts

theorem exists_of_mergeEach {α : Type} {merge : α → α → α} {items others : List α} {item : α}
    (length : items.length = others.length) (found : (mergeEach merge items others)[index]? = some item) :
    ∃ own other, items[index]? = some own ∧ others[index]? = some other ∧ item = merge own other := by
  rw [getElem?_mergeEach] at found
  obtain ⟨own, ownFound, found⟩ := Option.map_eq_some_iff.mp found
  have inside := length ▸ (List.getElem?_eq_some_iff.mp ownFound).1
  rw [List.getElem?_eq_getElem inside] at found
  exact ⟨own, others[index], ownFound, List.getElem?_eq_getElem inside, found.symm⟩

namespace Run

variable (run : Run sha256d psbts out)

include run

/-- The PSBTs combined describe one transaction up to the lock time, and so does the result. -/
theorem sameButLock : ∀ psbt ∈ psbts, SameButLock out psbt := by
  obtain ⟨combines, apart⟩ := run
  induction combines with
  | single => simpa using ⟨rfl, rfl⟩
  | join first second step firstIH secondIH =>
    have ofLeft := firstIH (apart.mono fun _ => List.mem_append_left _)
    have ofRight := secondIH (apart.mono fun _ => List.mem_append_right _)
    have same := (agree_of_merge apart first second ofLeft ofRight step).sameButLock
    obtain ⟨-, -, rfl⟩ := merge_eq_some_iff.mp step
    have kept := sameButLock_mergeFields same
    exact List.forall_mem_append.mpr ⟨fun other listed => kept.trans (ofLeft other listed),
      fun other listed => kept.trans (same.trans (ofRight other listed))⟩

/-- Every run joins results that agree. -/
@[elab_as_elim]
theorem induct {motive : List PartiallySignedTransaction → PartiallySignedTransaction → Prop}
    (single : ∀ psbt, motive [psbt] psbt)
    (join : ∀ left right merged psbt, Run sha256d left merged → Run sha256d right psbt → Agree merged psbt →
      motive left merged → motive right psbt → motive (left ++ right) (merged.mergeFields psbt)) :
    motive psbts out := by
  obtain ⟨combines, apart⟩ := run
  induction combines with
  | single => exact single _
  | @join left right merged psbt out first second step firstIH secondIH =>
    have leftRun : Run sha256d left merged := ⟨first, apart.mono fun _ => List.mem_append_left _⟩
    have rightRun : Run sha256d right psbt := ⟨second, apart.mono fun _ => List.mem_append_right _⟩
    have agree := agree_of_merge apart first second leftRun.sameButLock rightRun.sameButLock step
    obtain ⟨-, -, rfl⟩ := merge_eq_some_iff.mp step
    exact join left right merged psbt leftRun rightRun agree (firstIH leftRun.apart) (secondIH rightRun.apart)

section Fields

variable {α β : Type} {parts : PartiallySignedTransaction → List α} {part : α}

/-- A field that a merge keeps, or takes over where it is missing, is the first one given. -/
theorem field_eq (field : PartiallySignedTransaction → Option β) (step : ∀ this psbt, Agree this psbt →
      field (this.mergeFields psbt) = (field this).or (field psbt)) :
    field out = psbts.findSome? field := by
  refine run.induct ?_ ?_
  · intro psbt
    rw [List.findSome?_singleton]
  · intro left right merged psbt _ _ agree leftHolds rightHolds
    rw [step merged psbt agree, List.findSome?_append, leftHolds, rightHolds]

variable (lengths : ∀ {left right : PartiallySignedTransaction}, SameButLock left right →
  (parts left).length = (parts right).length)

include lengths

theorem partField_eq {merge : α → α → α} (merges : ∀ this psbt : PartiallySignedTransaction,
      parts (this.mergeFields psbt) = mergeEach merge (parts this) (parts psbt))
    (field : α → Option β) (step : ∀ this other, field (merge this other) = (field this).or (field other))
    (found : (parts out)[index]? = some part) :
    field part = (psbts.filterMap fun psbt => (parts psbt)[index]?).findSome? field := by
  refine run.induct ?_ ?_ part found
  · intro psbt part found
    simp [found]
  intro left right merged psbt _ _ agree leftHolds rightHolds part found
  rw [merges] at found
  obtain ⟨own, other, ownFound, otherFound, rfl⟩ := exists_of_mergeEach (lengths agree.sameButLock) found
  rw [step, List.filterMap_append, List.findSome?_append, leftHolds own ownFound, rightHolds other otherFound]

theorem exists_part (listed : psbt ∈ psbts) (found : (parts psbt)[index]? = some part) :
    ∃ merged, (parts out)[index]? = some merged := by
  have inside := (List.getElem?_eq_some_iff.mp found).1
  rw [← lengths (run.sameButLock psbt listed)] at inside
  exact ⟨_, List.getElem?_eq_getElem inside⟩

end Fields

end Run

/-! ## The lock time of the result -/

/-- The locks that several PSBTs together require of the input at an index: the first ones
given. -/
def pooledRequirement (psbts : List PartiallySignedTransaction) (index : Nat) : Requirement :=
  ⟨psbts.findSome? fun psbt => psbt.inputs[index]?.bind timeLocktime,
    psbts.findSome? fun psbt => psbt.inputs[index]?.bind heightLocktime⟩

def pooledRequirements (psbts : List PartiallySignedTransaction) : List Requirement :=
  (List.range (psbts.head?.elim 0 (·.inputs.length))).map (pooledRequirement psbts)

/-- The lock time that several PSBTs of version 2 ask for together. -/
def pooledLockTime (psbts : List PartiallySignedTransaction) : Option UInt32 :=
  neededLockTime (pooledRequirements psbts) ((psbts.findSome? fallbackLocktime).getD 0)

theorem requirement_merge (this other : PSBTInput) :
    (this.merge other).requirement = this.requirement.orElse other.requirement := by
  simp [PSBTInput.requirement, PSBTInput.merge, Requirement.orElse]

/-- Below version 2 the lock time is a field of the transaction, which merging keeps. -/
theorem computeTimeLock_mergeFields (agree : Agree this psbt)
    (old : ¬ this.getVersion ≥ 2) : (this.mergeFields psbt).computeTimeLock = this.computeTimeLock := by
  have old' : ¬ psbt.getVersion ≥ 2 := agree.sameButLock.1 ▸ old
  obtain ⟨locktime, own, other⟩ := agree.sameLock
  rw [own]
  rw [Sharecoin.computeTimeLock_eq, if_neg old] at own
  rw [Sharecoin.computeTimeLock_eq, if_neg old'] at other
  rw [Sharecoin.computeTimeLock_eq, getVersion_mergeFields, if_neg old, fallbackLocktime_mergeFields]
  cases given : this.fallbackLocktime with
  | some fallback => simpa [given] using own
  | none => simpa using other

namespace Run

variable (run : Run sha256d psbts out)

include run

theorem requirement_eq {input : PSBTInput} (found : out.inputs[index]? = some input) :
    input.requirement = pooledRequirement psbts index := by
  have times := run.partField_eq SameButLock.length_inputs inputs_mergeFields timeLocktime
    (by simp [PSBTInput.merge]) found
  have heights := run.partField_eq SameButLock.length_inputs inputs_mergeFields heightLocktime
    (by simp [PSBTInput.merge]) found
  rw [← List.head?_filterMap, List.filterMap_filterMap, List.head?_filterMap] at times heights
  rw [requirement, times, heights, pooledRequirement]

theorem requirements_eq : out.inputs.map requirement = pooledRequirements psbts := by
  obtain ⟨head, rest, rfl⟩ := List.exists_cons_of_ne_nil run.combines.ne_nil
  have length := (run.sameButLock head (.head _)).length_inputs
  apply List.ext_getElem
  · simp [pooledRequirements, length]
  intro index inside _
  rw [List.length_map] at inside
  rw [List.getElem_map, run.requirement_eq (List.getElem?_eq_getElem inside)]
  simp [pooledRequirements]

theorem computeTimeLock_eq (version : out.getVersion ≥ 2) : out.computeTimeLock = pooledLockTime psbts := by
  have fallback := run.field_eq fallbackLocktime fun this psbt _ => fallbackLocktime_mergeFields this psbt
  rw [Sharecoin.computeTimeLock_eq, if_pos version, run.requirements_eq, fallback, pooledLockTime]

theorem computeTimeLock_eq_of_old (version : ¬ out.getVersion ≥ 2) :
    ∀ psbt ∈ psbts, out.computeTimeLock = psbt.computeTimeLock := by
  refine run.induct ?_ ?_ version
  · intro psbt _ other listed
    rw [List.mem_singleton.mp listed]
  intro left right merged psbt _ _ agree leftHolds rightHolds version
  rw [getVersion_mergeFields] at version
  obtain ⟨locktime, own, other⟩ := agree.sameLock
  rw [computeTimeLock_mergeFields agree version]
  intro earlier listed
  rcases List.mem_append.mp listed with listed | listed
  · exact leftHolds version earlier listed
  · rw [own, ← other, rightHolds (agree.sameButLock.1 ▸ version) earlier listed]

end Run

/-! ## When the ID is kept -/

/-- The PSBTs of version 2 among the list ask together for the lock time each of them asks for. -/
def KeepsLockTime (psbts : List PartiallySignedTransaction) : Prop :=
  ∀ psbt ∈ psbts, psbt.getVersion ≥ 2 → ∃ locktime,
    pooledLockTime psbts = some locktime ∧ psbt.computeTimeLock = some locktime

/-- Two PSBTs with one unique ID, whose unsigned transactions differ at most in sequence
numbers, which the ID of version 2 leaves out. -/
structure Unchanged (sha256d : Bytes → Uint256) (out psbt : PartiallySignedTransaction) : Prop where
  uniqueID : ∃ id, out.getUniqueID sha256d = some id ∧ psbt.getUniqueID sha256d = some id
  unsignedTx : ∃ tx tx', out.getUnsignedTx = some tx ∧ psbt.getUnsignedTx = some tx' ∧
    tx.version = tx'.version ∧ tx.vin.map CTxIn.prevout = tx'.vin.map CTxIn.prevout ∧
    tx.vout = tx'.vout ∧ tx.nLockTime = tx'.nLockTime

theorem SameButLock.unchanged (same : SameButLock out psbt) (outLock : out.computeTimeLock = some locktime)
    (psbtLock : psbt.computeTimeLock = some locktime) : Unchanged sha256d out psbt := by
  have prevouts (psbt : PartiallySignedTransaction) : (psbt.identity 0).vin.map CTxIn.prevout =
        psbt.inputs.map fun input => ⟨input.prevTxid, input.prevOut⟩ := by
    simp [identity, Function.comp_def]
  constructor
  · refine ⟨(psbt.identity locktime).getHash sha256d, ?_, ?_⟩
    · rw [getUniqueID_eq, outLock, Option.map_some, same.identity_eq]
    · rw [getUniqueID_eq, psbtLock, Option.map_some]
  simp only [getUnsignedTx, outLock, psbtLock, Option.bind_eq_bind, Option.bind_some]
  have versions : out.txVersion = psbt.txVersion := congrArg CTransaction.version same.2
  have outputs := congrArg CTransaction.vout same.2
  refine ⟨_, _, rfl, rfl, versions, ?_, outputs, rfl⟩
  simpa only [List.map_map, Function.comp_def, prevouts] using
    congrArg (fun tx : CTransaction => tx.vin.map CTxIn.prevout) same.2

/-- The result has the ID of a PSBT it was combined from exactly where it has its lock time. -/
theorem SameButLock.unchanged_iff (apart : TxidsApart sha256d psbts) (listed : psbt ∈ psbts)
    (same : SameButLock out psbt) :
    Unchanged sha256d out psbt ↔
      ∃ locktime, out.computeTimeLock = some locktime ∧ psbt.computeTimeLock = some locktime := by
  constructor
  · intro unchanged
    obtain ⟨id, outId, psbtId⟩ := unchanged.uniqueID
    rw [getUniqueID_eq] at outId psbtId
    obtain ⟨time, outLock, outHash⟩ := Option.map_eq_some_iff.mp outId
    obtain ⟨time', psbtLock, psbtHash⟩ := Option.map_eq_some_iff.mp psbtId
    rw [same.identity_eq] at outHash
    have hashed := apart psbt listed psbt listed time time' (outHash.trans psbtHash.symm)
    have sameTime : time = time' := congrArg CTransaction.nLockTime hashed
    exact ⟨time, outLock, sameTime ▸ psbtLock⟩
  · rintro ⟨locktime, outLock, psbtLock⟩
    exact same.unchanged outLock psbtLock

theorem Run.unchanged_iff (run : Run sha256d psbts out) :
    (∀ psbt ∈ psbts, Unchanged sha256d out psbt) ↔ KeepsLockTime psbts := by
  have same := run.sameButLock
  refine forall_congr' fun psbt => forall_congr' fun listed => ?_
  rw [(same psbt listed).unchanged_iff run.apart listed, ← (same psbt listed).1]
  by_cases version : out.getVersion ≥ 2
  · rw [run.computeTimeLock_eq version]
    simp [version]
  have kept := run.computeTimeLock_eq_of_old version psbt listed
  simp only [version, IsEmpty.forall_iff, iff_true, ← kept]
  rw [Sharecoin.computeTimeLock_eq, if_neg version]
  exact ⟨_, rfl, rfl⟩

/-! ## When lock times are of their kinds -/

/-- Whether an input insists on a lock time by time. -/
def insistsOnTime (psbt : PartiallySignedTransaction) : Bool :=
  (psbt.inputs.map requirement).any Requirement.timeOnly

/-- The locks that reading a PSBT lets through: times and heights are told apart by the
threshold, and a height is not 0. -/
def LocksInRange (psbt : PartiallySignedTransaction) : Prop :=
  ∀ input ∈ psbt.inputs, input.requirement.InRange

/-- If some PSBT insists on a time, then some input has a time in one of the PSBTs and a height
in none of them. -/
def TimeStaysRequired (psbts : List PartiallySignedTransaction) : Prop :=
  (∃ psbt ∈ psbts, psbt.getVersion ≥ 2 ∧ psbt.insistsOnTime = true) → ∃ index : Nat,
      (∃ psbt ∈ psbts, ∃ input : PSBTInput, psbt.inputs[index]? = some input ∧ input.timeLocktime.isSome) ∧
      ∀ psbt ∈ psbts, ∀ input : PSBTInput, psbt.inputs[index]? = some input → input.heightLocktime = none

theorem pooledRequirement_time_isSome : (pooledRequirement psbts index).time.isSome = true ↔
      ∃ psbt ∈ psbts, ∃ input : PSBTInput, psbt.inputs[index]? = some input ∧ input.timeLocktime.isSome = true := by
  simp only [pooledRequirement, List.findSome?_isSome_iff, Option.isSome_bind]
  refine exists_congr fun psbt => and_congr_right fun _ => ?_
  cases psbt.inputs[index]? <;> simp

theorem pooledRequirement_height_eq_none : (pooledRequirement psbts index).height = none ↔
      ∀ psbt ∈ psbts, ∀ input : PSBTInput, psbt.inputs[index]? = some input → input.heightLocktime = none := by
  simp only [pooledRequirement, List.findSome?_eq_none_iff, Option.bind_eq_none_iff]

theorem pooled_mergeFields (same : SameButLock this psbt) :
    Requirement.Pooled (this.inputs.map requirement) (psbt.inputs.map requirement)
      ((this.mergeFields psbt).inputs.map requirement) := by
  have length := same.length_inputs
  have at_index {index : Nat} {input other : PSBTInput} (found : this.inputs[index]? = some input)
      (found' : psbt.inputs[index]? = some other) :
      input.requirement.orElse other.requirement ∈ (this.mergeFields psbt).inputs.map requirement := by
    apply List.mem_of_getElem? (i := index)
    rw [List.getElem?_map, inputs_mergeFields, getElem?_mergeEach, found, found']
    simp [requirement_merge]
  refine ⟨List.forall_mem_map.mpr fun input listed => ?_, List.forall_mem_map.mpr fun input listed => ?_, ?_⟩
  · obtain ⟨index, found⟩ := List.mem_iff_getElem?.mp listed
    have inside := length ▸ (List.getElem?_eq_some_iff.mp found).1
    exact ⟨_, List.mem_map_of_mem (List.getElem_mem inside), at_index found (List.getElem?_eq_getElem inside)⟩
  · obtain ⟨index, found⟩ := List.mem_iff_getElem?.mp listed
    have inside := length.symm ▸ (List.getElem?_eq_some_iff.mp found).1
    exact ⟨_, List.mem_map_of_mem (List.getElem_mem inside), at_index (List.getElem?_eq_getElem inside) found⟩
  · refine List.forall_mem_map.mpr fun input listed => ?_
    obtain ⟨index, found⟩ := List.mem_iff_getElem?.mp listed
    obtain ⟨own, other, ownFound, otherFound, rfl⟩ := exists_of_mergeEach length found
    exact ⟨_, List.mem_map_of_mem (List.mem_of_getElem? ownFound), _,
      List.mem_map_of_mem (List.mem_of_getElem? otherFound), requirement_merge own other⟩

theorem LocksInRange.asks (inRange : LocksInRange psbt) (version : psbt.getVersion ≥ 2)
    (locked : psbt.computeTimeLock = some locktime) :
    Requirement.Asks (psbt.inputs.map requirement) (psbt.fallbackLocktime.getD 0) locktime := by
  rw [Sharecoin.computeTimeLock_eq, if_pos version] at locked
  exact ⟨List.forall_mem_map.mpr inRange, locked⟩

/-- A result that insists on a time if one of its PSBTs does. -/
def KeepsInsisting (psbts : List PartiallySignedTransaction) (out : PartiallySignedTransaction) : Prop :=
  ∀ psbt ∈ psbts, psbt.insistsOnTime = true → out.insistsOnTime = true

namespace Run

variable (run : Run sha256d psbts out)

include run

theorem exists_requirement {input : PSBTInput} (listed : psbt ∈ psbts) (found : psbt.inputs[index]? = some input) :
    ∃ merged ∈ out.inputs, merged.requirement = pooledRequirement psbts index := by
  obtain ⟨merged, mergedFound⟩ := run.exists_part SameButLock.length_inputs listed found
  exact ⟨merged, List.mem_of_getElem? mergedFound, run.requirement_eq mergedFound⟩

/-- The result insists on a time exactly where an input has a time and no height in all the
PSBTs together. -/
theorem insistsOnTime_iff : out.insistsOnTime = true ↔ ∃ index : Nat,
        (∃ psbt ∈ psbts, ∃ input : PSBTInput, psbt.inputs[index]? = some input ∧ input.timeLocktime.isSome = true) ∧
        ∀ psbt ∈ psbts, ∀ input : PSBTInput, psbt.inputs[index]? = some input → input.heightLocktime = none := by
  simp only [← pooledRequirement_time_isSome, ← pooledRequirement_height_eq_none]
  simp only [insistsOnTime, List.any_map, List.any_eq_true, Function.comp_apply]
  constructor
  · rintro ⟨input, listed, insists⟩
    obtain ⟨index, found⟩ := List.mem_iff_getElem?.mp listed
    rw [run.requirement_eq found] at insists
    simp only [Requirement.timeOnly, Bool.and_eq_true, Option.isNone_iff_eq_none] at insists
    exact ⟨index, insists⟩
  · rintro ⟨index, timed, unheighted⟩
    obtain ⟨psbt, listed, input, found, -⟩ := pooledRequirement_time_isSome.mp timed
    obtain ⟨merged, mergedListed, pooled⟩ := run.exists_requirement listed found
    refine ⟨merged, mergedListed, ?_⟩
    simp [pooled, Requirement.timeOnly, timed, unheighted]

theorem not_insistsOnTime (none : ∀ psbt ∈ psbts, ¬ psbt.insistsOnTime = true) : out.insistsOnTime = false := by
  rw [Bool.eq_false_iff]
  intro insists
  obtain ⟨index, ⟨psbt, listed, input, found, timed⟩, unheighted⟩ := run.insistsOnTime_iff.mp insists
  refine none psbt listed (List.any_eq_true.mpr ⟨input.requirement, ?_, ?_⟩)
  · exact List.mem_map_of_mem (List.mem_of_getElem? found)
  · simp [Requirement.timeOnly, requirement, timed, unheighted psbt listed input found]

theorem exists_required (listed : psbt ∈ psbts) (insists : psbt.insistsOnTime = true) :
    ¬ Requirement.Free (out.inputs.map requirement) := by
  intro free
  simp only [insistsOnTime, List.any_map, List.any_eq_true, Function.comp_apply] at insists
  obtain ⟨input, inputListed, insists⟩ := insists
  obtain ⟨index, found⟩ := List.mem_iff_getElem?.mp inputListed
  obtain ⟨merged, mergedListed, pooled⟩ := run.exists_requirement listed found
  have none := free.eq_none Requirement.time rfl _ (List.mem_map_of_mem mergedListed)
  simp only [Requirement.timeOnly, Bool.and_eq_true] at insists
  have timed := pooledRequirement_time_isSome.mpr ⟨psbt, listed, input, found, insists.1⟩
  simp [← pooled, none] at timed

theorem locksInRange (inRange : ∀ psbt ∈ psbts, LocksInRange psbt) : LocksInRange out := by
  refine run.induct ?_ ?_ inRange
  · intro psbt inRange
    exact inRange psbt (.head _)
  intro left right merged psbt _ _ agree leftHolds rightHolds inRange
  obtain ⟨leftRange, rightRange⟩ := List.forall_mem_append.mp inRange
  exact List.forall_mem_map.mp ((pooled_mergeFields agree.sameButLock).inRange
    (List.forall_mem_map.mpr (leftHolds leftRange)) (List.forall_mem_map.mpr (rightHolds rightRange)))

theorem insists_of_late (inRange : LocksInRange out) (version : out.getVersion ≥ 2)
    (locked : out.computeTimeLock = some locktime) (late : LOCKTIME_THRESHOLD ≤ locktime) :
    KeepsInsisting psbts out := by
  intro psbt listed insists
  by_contra notInsists
  have early := (inRange.asks version locked).lt_of_not_free (Bool.not_eq_true _ ▸ notInsists)
    (run.exists_required listed insists)
  grind

/-- While a result insists on a time if any of its PSBTs does, it has the lock time of all of
them. -/
theorem sameLock (inRange : ∀ psbt ∈ psbts, LocksInRange psbt)
    (version : out.getVersion ≥ 2) (met : ∀ psbt ∈ psbts, psbt.computeTimeLock.isSome = true)
    (stays : KeepsInsisting psbts out) :
    ∃ locktime, out.computeTimeLock = some locktime ∧ ∀ psbt ∈ psbts, psbt.computeTimeLock = some locktime := by
  refine run.induct ?_ ?_ inRange version met stays
  · intro psbt _ _ met _
    obtain ⟨locktime, locked⟩ := Option.isSome_iff_exists.mp (met psbt (.head _))
    exact ⟨locktime, locked, by simpa using locked⟩
  intro left right merged psbt leftRun rightRun agree leftHolds rightHolds inRange version met stays
  rw [getVersion_mergeFields] at version
  have version' : psbt.getVersion ≥ 2 := agree.sameButLock.1 ▸ version
  obtain ⟨locktime, own, other⟩ := agree.sameLock
  obtain ⟨leftRange, rightRange⟩ := List.forall_mem_append.mp inRange
  obtain ⟨leftMet, rightMet⟩ := List.forall_mem_append.mp met
  have ownRange := leftRun.locksInRange leftRange
  have otherRange := rightRun.locksInRange rightRange
  have pooled := pooled_mergeFields agree.sameButLock
  have ownAsks := ownRange.asks version own
  have otherAsks := otherRange.asks version' other
  -- the PSBTs of each side have the lock time of what they were merged into
  have finish (leftStays : KeepsInsisting left merged) (rightStays : KeepsInsisting right psbt)
      (kept : (merged.mergeFields psbt).computeTimeLock = some locktime) :
      ∃ locktime, (merged.mergeFields psbt).computeTimeLock = some locktime ∧
        ∀ listed ∈ left ++ right, listed.computeTimeLock = some locktime := by
    obtain ⟨locktime', own', leftLocks⟩ := leftHolds leftRange version leftMet leftStays
    obtain ⟨locktime'', other', rightLocks⟩ := rightHolds rightRange version' rightMet rightStays
    rw [own, Option.some.injEq] at own'
    rw [other, Option.some.injEq] at other'
    subst own' other'
    exact ⟨locktime, kept, List.forall_mem_append.mpr ⟨leftLocks, rightLocks⟩⟩
  cases insists : (merged.mergeFields psbt).insistsOnTime with
  | true =>
    have kept : (merged.mergeFields psbt).computeTimeLock = some locktime := by
      rw [Sharecoin.computeTimeLock_eq, getVersion_mergeFields, if_pos version]
      exact pooled.neededLockTime_byTime ownAsks otherAsks insists
    have late := pooled.late_of_byTime ownAsks otherAsks insists
    exact finish (leftRun.insists_of_late ownRange version own late)
      (rightRun.insists_of_late otherRange version' other late) kept
  | false =>
    have noneInsists : ∀ member ∈ left ++ right, ¬ member.insistsOnTime = true := by
      intro member listed memberInsists
      rw [stays member listed memberInsists] at insists
      cases insists
    obtain ⟨leftNone, rightNone⟩ := List.forall_mem_append.mp noneInsists
    refine finish (fun earlier listed insists => (leftNone earlier listed insists).elim)
      (fun later listed insists => (rightNone later listed insists).elim) ?_
    rw [Sharecoin.computeTimeLock_eq, getVersion_mergeFields, if_pos version, fallbackLocktime_mergeFields]
    exact pooled.neededLockTime_byHeight ownAsks otherAsks (leftRun.not_insistsOnTime leftNone)
      (rightRun.not_insistsOnTime rightNone)

/-- For PSBTs that could be read, the lock time is kept exactly where each has one and the
heights of some PSBTs do not free all inputs from the times of others. -/
theorem keepsLockTime_iff (inRange : ∀ psbt ∈ psbts, LocksInRange psbt) :
    KeepsLockTime psbts ↔ (∀ psbt ∈ psbts, psbt.computeTimeLock.isSome = true) ∧ TimeStaysRequired psbts := by
  have same := run.sameButLock
  by_cases version : out.getVersion ≥ 2
  · have versions psbt (listed : psbt ∈ psbts) :
        psbt.getVersion ≥ 2 := (same psbt listed).1 ▸ version
    have outLock := run.computeTimeLock_eq version
    constructor
    · intro keeps
      refine ⟨fun psbt listed => ?_, fun ⟨psbt, listed, version', insists⟩ => ?_⟩
      · obtain ⟨locktime, -, locked⟩ := keeps psbt listed (versions psbt listed)
        simp [locked]
      obtain ⟨locktime, pooledLock, locked⟩ := keeps psbt listed version'
      rw [← outLock] at pooledLock
      have late := ((inRange psbt listed).asks version' locked).le_of_any_timeOnly insists
      exact run.insistsOnTime_iff.mp
        (run.insists_of_late (run.locksInRange inRange) version pooledLock late psbt listed insists)
    · rintro ⟨met, stays⟩ psbt listed -
      obtain ⟨locktime, locked, locks⟩ := run.sameLock inRange version met fun psbt listed insists =>
        run.insistsOnTime_iff.mpr (stays ⟨psbt, listed, versions psbt listed, insists⟩)
      exact ⟨locktime, outLock ▸ locked, locks psbt listed⟩
  · have versions psbt (listed : psbt ∈ psbts) :
        ¬ psbt.getVersion ≥ 2 := (same psbt listed).1 ▸ version
    refine iff_of_true (fun psbt listed version' => (versions psbt listed version').elim)
      ⟨fun psbt listed => ?_, fun ⟨psbt, listed, version', _⟩ =>
        (versions psbt listed version').elim⟩
    rw [Sharecoin.computeTimeLock_eq, if_neg (versions psbt listed)]
    rfl

end Run

/-- The result of combining PSBTs has the unique ID of each of them, and describes the same
transaction, exactly where their pooled locks ask for the lock time each of them has. For locks
that reading a PSBT lets through that fails only where some PSBT insists on a time, and every
input that has a time anywhere has a height in some PSBT. -/
theorem combinePSBTs_unchanged_iff {psbts : List PartiallySignedTransaction} {out : PartiallySignedTransaction}
    (apart : TxidsApart sha256d psbts) (combined : combinePSBTs sha256d psbts = some out) :
    ((∀ psbt ∈ psbts, Unchanged sha256d out psbt) ↔ KeepsLockTime psbts) ∧
      ((∀ psbt ∈ psbts, LocksInRange psbt) → (KeepsLockTime psbts ↔
          (∀ psbt ∈ psbts, psbt.computeTimeLock.isSome = true) ∧ TimeStaysRequired psbts)) := by
  have run : Run sha256d psbts out := ⟨combines_of_combinePSBTs combined, apart⟩
  exact ⟨run.unchanged_iff, run.keepsLockTime_iff⟩

/-! ## Locks that free each other -/

/-- A PSBT of version 2 that spends two outputs and requires these locks of them. -/
def lockedPsbt (locks : List Requirement) : PartiallySignedTransaction where
  version := some 2
  txVersion := 2
  inputs := locks.mapIdx fun index lock => {
    prevTxid := .ofNat 1
    prevOut := UInt32.ofNat index
    timeLocktime := lock.time
    heightLocktime := lock.height }
  outputs := [{ amount := 1000, script := [OP_1] }]

/-- A stand-in for the hash that tells transactions apart by their lock times, which are the
last four bytes of what is hashed. -/
def lockHash (bytes : Bytes) : Uint256 := .ofNat (ofLeBytes (bytes.drop (bytes.length - 4)))

/-- Both PSBTs insist on the time 500000001, each for another input, and each allows the height
100 for the other one. Combined, every input allows the height, and the lock time changes. -/
theorem combined_lock_time_changes : let first := lockedPsbt [⟨some 500000001, none⟩, ⟨some 500000001, some 100⟩]
    let second := lockedPsbt [⟨some 500000001, some 100⟩, ⟨some 500000001, none⟩]
    let out := combinePSBTs lockHash [first, second]
    first.getUniqueID lockHash = second.getUniqueID lockHash ∧
      first.computeTimeLock = some 500000001 ∧ out.map computeTimeLock = some (some 100) ∧
      out.bind (getUniqueID lockHash) ≠ first.getUniqueID lockHash := by
  decide +kernel

theorem getHash_lockHash (tx : CTransaction) : tx.getHash lockHash = .ofNat tx.nLockTime.toNat := by
  have shape : ∃ front, tx.serialize false = front ++ leBytes 4 tx.nLockTime.toNat := ⟨_, rfl⟩
  obtain ⟨front, shape⟩ := shape
  have fits : tx.nLockTime.toNat < 256 ^ 4 := tx.nLockTime.toNat_lt
  simp [CTransaction.getHash, lockHash, shape, ofLeBytes_leBytes_of_lt fits]

theorem txidsApart_lockHash (same : ∀ left ∈ psbts, ∀ right ∈ psbts, left.identity 0 = right.identity 0) :
    TxidsApart lockHash psbts := by
  intro left leftListed right rightListed time time' hashed
  rw [getHash_lockHash, getHash_lockHash] at hashed
  have times : time = time' := by
    apply UInt32.toNat_inj.mp
    have numbers := congrArg Uint256.toNat hashed
    have fits := time.toNat_lt
    have fits' := time'.toNat_lt
    simp only [Uint256.toNat, Uint256.ofNat, identity] at numbers
    rwa [ofLeBytes_leBytes_of_lt (by omega), ofLeBytes_leBytes_of_lt (by omega)] at numbers
  subst times
  exact congrArg (fun tx : CTransaction => { tx with nLockTime := time })
    (same left leftListed right rightListed)

/-- Where the first input has a height in neither PSBT, their time stays the lock time. -/
theorem combinePSBTs_unchanged_timed : let first := lockedPsbt [⟨some 500000001, none⟩, ⟨some 500000001, some 100⟩]
    let second := lockedPsbt [⟨some 500000001, none⟩, ⟨none, none⟩]
    ∃ out, combinePSBTs lockHash [first, second] = some out ∧ TimeStaysRequired [first, second] ∧
      ∀ psbt ∈ [first, second], Unchanged lockHash out psbt := by
  intro first second
  obtain ⟨out, combined⟩ : ∃ out, combinePSBTs lockHash [first, second] = some out :=
    Option.isSome_iff_exists.mp (by decide +kernel)
  have apart : TxidsApart lockHash [first, second] := txidsApart_lockHash (by decide +kernel)
  have inRange : ∀ psbt ∈ [first, second], LocksInRange psbt := by
    simp [first, second, lockedPsbt, LocksInRange, Requirement.InRange, requirement, LOCKTIME_THRESHOLD]
  have stays : TimeStaysRequired [first, second] := by
    intro
    exact ⟨0, ⟨first, by simp, _, rfl, rfl⟩, by simp [first, second, lockedPsbt]⟩
  have settled := combinePSBTs_unchanged_iff apart combined
  exact ⟨out, combined, stays, settled.1.mpr ((settled.2 inRange).mpr ⟨by decide +kernel, stays⟩)⟩

end PartiallySignedTransaction

end Sharecoin
