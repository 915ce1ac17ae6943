import Sharecoin.Net.AddrManProperties

/-! Moves between the tables: to the tried addresses, with the eviction that makes room, and into a
slot of the new ones. -/

set_option autoImplicit false

namespace Sharecoin

open Lib

namespace AddrMan

variable {NetAddr : Type} [DecidableEq NetAddr] {groups : NetGroups NetAddr}
  {addrman : AddrMan NetAddr} {loose : Set Nat} {nId : Nat} {core : AddrInfo NetAddr}

/-! ## To the tried addresses -/

theorem Sound.tighten (sound : Sound groups (insert nId loose) addrman)
    (found : addrman.infos nId = some core) (referenced : 0 < core.nRefCount) : Sound groups loose addrman := by
  refine ⟨sound.index, sound.tables.tighten fun entry listed _ => ?_⟩
  rw [found] at listed
  cases listed
  exact referenced

theorem mem_bucketsFrom (start bucket : Fin ADDRMAN_NEW_BUCKET_COUNT) : bucket ∈ bucketsFrom start := by
  refine List.mem_map.mpr ⟨bucket - start, List.mem_finRange _, Fin.ext ?_⟩
  have startSmall := start.isLt
  have bucketSmall := bucket.isLt
  rw [Fin.val_add, Fin.val_sub]
  simp only [ADDRMAN_NEW_BUCKET_COUNT] at *
  omega

section

variable (found : addrman.infos nId = some core) (untried : core.fInTried = false)
include found untried

theorem leaveBuckets_spec (buckets : List (Fin ADDRMAN_NEW_BUCKET_COUNT))
    (sound : Sound groups (insert nId loose) addrman) :
    ∃ after nRefCount, leaveBuckets groups nId buckets addrman = some after ∧
      Sound groups (insert nId loose) after ∧ Steady groups addrman after ∧
      after.infos = Function.update addrman.infos nId (some { core with nRefCount }) ∧
      after.vvTried = addrman.vvTried ∧
      (∀ slot, addrman.vvNew slot ≠ some nId → after.vvNew slot ≠ some nId) ∧
      (nRefCount = 0 ∨ ∀ bucket ∈ buckets, after.vvNew (groups.slotIn addrman.nKey core.addr bucket) ≠ some nId) := by
  induction buckets generalizing addrman core with
  | nil =>
    refine ⟨addrman, core.nRefCount, rfl, sound, .refl _, ?_, rfl, fun _ => id, .inr (by simp)⟩
    rw [← found, Function.update_eq_self]
  | cons bucket buckets ih =>
    obtain ⟨info, listed, rfl⟩ := infos_eq_some found
    rw [leaveBuckets, listed, Option.bind_eq_bind, Option.bind_some]
    dsimp only
    let home := groups.slotIn addrman.nKey info.addr bucket
    split
    next held =>
      obtain ⟨left, steady, same⟩ := leaveSlot_spec listed sound held
      rw [Set.insert_eq_of_mem (Set.mem_insert nId loose)] at left
      have empty : (addrman.leaveSlot nId info home).vvNew home ≠ some nId := by
        rw [leaveSlot_vvNew, Function.update_self]
        simp
      have fewer (slot : NewSlot) (absent : addrman.vvNew slot ≠ some nId) :
          (addrman.leaveSlot nId info home).vvNew slot ≠ some nId := by
        by_cases here : slot = home
        · exact here ▸ empty
        · rw [leaveSlot_vvNew, Function.update_of_ne here]
          exact absent
      split
      next last =>
        exact ⟨_, info.nRefCount - 1, rfl, left, steady, same, rfl, fewer, .inl last⟩
      next more =>
        obtain ⟨after, nRefCount, ran, sounds, again, shape, tried, later, gone⟩ := ih (infos_self same) untried left
        refine ⟨after, nRefCount, ran, sounds, steady.trans again, ?_, tried,
          fun slot absent => later slot (fewer slot absent), gone.imp_right fun rest => ?_⟩
        · rw [shape, same, Function.update_idem]
        · exact List.forall_mem_cons.mpr ⟨later _ empty, rest⟩
    next absent =>
      obtain ⟨after, nRefCount, ran, sounds, steady, shape, tried, later, gone⟩ := ih found untried sound
      refine ⟨after, nRefCount, ran, sounds, steady, shape, tried, later, gone.imp_right fun rest => ?_⟩
      exact List.forall_mem_cons.mpr ⟨later _ absent, rest⟩

theorem leaveBuckets_all (start : Fin ADDRMAN_NEW_BUCKET_COUNT) (sound : Sound groups loose addrman) :
    ∃ after, leaveBuckets groups nId (bucketsFrom start) addrman = some after ∧
      Sound groups (insert nId loose) after ∧ Steady groups addrman after ∧
      after.infos = Function.update addrman.infos nId (some { core with nRefCount := 0 }) ∧
      after.vvTried = addrman.vvTried := by
  have looser : Sound groups (insert nId loose) addrman :=
    ⟨sound.index, sound.tables.loosen (Set.subset_insert nId loose)⟩
  obtain ⟨after, nRefCount, ran, sounds, steady, shape, tried, -, gone⟩ :=
    leaveBuckets_spec found untried (bucketsFrom start) looser
  have here := infos_self shape
  have none : nRefCount = 0 := by
    refine gone.elim id fun empty => ?_
    have refs : nRefCount = slotCount after.vvNew nId := sounds.tables.refs nId _ here
    rw [refs, Int.natCast_eq_zero, slotCount_eq_zero_iff]
    intro slot held
    have place := (sounds.tables.new_found here held).2
    rw [steady.nKey] at place
    exact empty slot.1 (mem_bucketsFrom start slot.1) (place ▸ held)
  exact ⟨after, ran, sounds, steady, none ▸ shape, tried⟩

theorem clearNew_enterSlot (sound : Sound groups (insert nId loose) addrman)
    (few : core.nRefCount < ADDRMAN_NEW_BUCKETS_PER_ADDRESS) {slot : NewSlot}
    (elsewhere : addrman.vvNew slot ≠ some nId) (place : groups.slotIn addrman.nKey core.addr slot.1 = slot) :
    ∃ cleared info, addrman.clearNew groups slot = some cleared ∧ cleared.vvNew slot = none ∧
      cleared.mapInfo.lookup nId = some info ∧ core = info.core ∧
      let after := cleared.enterSlot nId info slot (info.nRefCount + 1)
      Sound groups loose after ∧ Steady groups addrman after ∧ Shrinks addrman after ∧
        after.vvTried = addrman.vvTried ∧
        ∀ other ≠ nId, addrman.vvNew slot ≠ some other → after.infos other = addrman.infos other := by
  obtain ⟨cleared, clear, clearedSound, steady, shrinks, sameTried, empty, kept⟩ := clearNew_spec sound slot
  obtain ⟨info, listed, rfl⟩ := infos_eq_some ((kept nId elsewhere).trans found)
  obtain ⟨entered, enteredSteady, same⟩ := enterSlot_spec listed clearedSound untried few empty (steady.nKey ▸ place)
  refine ⟨cleared, info, clear, empty, listed, rfl, entered, steady.trans enteredSteady, shrinks.trans
    (shrinks_update (infos_of_lookup listed) same ?_), sameTried, fun other different absent => ?_⟩
  · rintro _ ⟨⟩
    exact ⟨rfl, rfl, rfl, id⟩
  · rw [same, Function.update_of_ne different, kept other absent]

omit found untried in
/-- The entry of a tried slot goes back to the new addresses. Entries that are in neither table stay. -/
theorem evictTried_spec (sound : Sound groups loose addrman) (slot : TriedSlot) :
    ∃ after, addrman.evictTried groups slot = some after ∧ Sound groups loose after ∧
      Steady groups addrman after ∧ Shrinks addrman after ∧
      after.vvTried = Function.update addrman.vvTried slot none ∧
      ∀ other info, addrman.infos other = some info → info.fInTried = false → info.nRefCount = 0 →
        after.infos other = some info := by
  cases held : addrman.vvTried slot with
  | none =>
    refine ⟨addrman, by rw [evictTried, held], sound, .refl _, .refl _, ?_, fun _ _ found _ _ => found⟩
    rw [← held, Function.update_eq_self]
  | some nIdEvict =>
    obtain ⟨core, found, tried, home⟩ := (sound.tables.tried slot nIdEvict).mp held
    obtain ⟨infoOld, listed, rfl⟩ := infos_eq_some found
    change groups.triedSlot addrman.nKey infoOld.addr = slot at home
    subst home
    have unreferenced : infoOld.core.nRefCount = 0 := sound.tables.refs_of_tried found tried
    let slot := groups.triedSlot addrman.nKey infoOld.addr
    let uSlot := groups.newSlot addrman.nKey infoOld.addr infoOld.source
    let network := groups.getNetwork infoOld.addr.host
    obtain ⟨removed, removedDrift, removedInfos⟩ := leaveTried_spec listed sound tried
    have removedHere := infos_self removedInfos
    obtain ⟨cleared, infoAgain, clear, empty, listedAgain, coreAgain, entered, steady, shrinks, sameTried, kept⟩ :=
      clearNew_enterSlot removedHere rfl removed (unreferenced.trans_lt (by decide))
        (removed.tables.not_new_of_refs removedHere unreferenced uSlot) rfl
    have sameAddr : infoAgain.addr = infoOld.addr := (congrArg (·.addr) coreAgain).symm
    have refsAgain : infoAgain.nRefCount = 0 := (congrArg (·.nRefCount) coreAgain).symm.trans unreferenced
    rw [refsAgain, zero_add] at entered steady shrinks sameTried kept
    refine ⟨(cleared.enterSlot nIdEvict infoAgain uSlot 1).countNew
      (groups.getNetwork infoAgain.addr.host) 1, ?_, ⟨entered.index, entered.tables⟩,
      ⟨steady.nKey, steady.nIdCount, steady.collisions, ?_⟩, ?_, sameTried, ?_⟩
    · simp only [uSlot] at clear empty
      simp only [evictTried, held, listed, clear, listedAgain, Option.bind_eq_bind, Option.bind_some, ne_eq,
        not_true_eq_false, if_false, empty, uSlot]
    · rw [drift_countNew, steady.drift, removedDrift, sameAddr, sub_add_cancel]
    · refine (shrinks_update found removedInfos ?_).trans shrinks
      rintro _ ⟨⟩
      exact ⟨rfl, rfl, rfl, fun inTried => by cases inTried⟩
    · intro other info known untried none
      have different : other ≠ nIdEvict := by
        rintro rfl
        rw [found] at known
        cases known
        exact Bool.noConfusion (tried.symm.trans untried)
      have removedOther : (addrman.leaveTried groups nIdEvict infoOld slot).infos other = some info := by
        rw [removedInfos, Function.update_of_ne different, known]
      exact (kept other different (removed.tables.not_new_of_refs removedOther none uSlot)).trans removedOther

/-- A new address moves to the tried ones. Slots of tried addresses stay taken. -/
theorem makeTried_spec (sound : Sound groups loose addrman) :
    ∃ after, addrman.makeTried groups nId = some after ∧ Sound groups loose after ∧ Steady groups addrman after ∧
      (∀ slot, addrman.vvTried slot ≠ none → after.vvTried slot ≠ none) ∧
      ∀ other info, after.infos other = some info →
        ∃ before, addrman.infos other = some before ∧ info.addr = before.addr ∧
          info.mLastTry = before.mLastTry ∧ info.mLastSuccess = before.mLastSuccess ∧
          (info.fInTried = true → before.fInTried = true ∨ other = nId) := by
  obtain ⟨info, listed, rfl⟩ := infos_eq_some found
  obtain ⟨left, leave, leftSound, leftSteady, leftInfos, leftTried⟩ :=
    leaveBuckets_all found untried (groups.getNewBucket addrman.nKey info.addr info.source) sound
  let uncounted := left.countNew (groups.getNetwork info.addr.host) (-1)
  have uncountedSound : Sound groups (insert nId loose) uncounted := ⟨leftSound.index, leftSound.tables⟩
  have uncountedHere : uncounted.infos nId = some { info.core with nRefCount := 0 } := infos_self leftInfos
  obtain ⟨infoLeft, listedLeft, coreLeft⟩ := infos_eq_some uncountedHere
  have addrLeft : infoLeft.addr = info.addr := (congrArg (·.addr) coreLeft).symm
  have refsLeft : infoLeft.nRefCount = 0 := (congrArg (·.nRefCount) coreLeft).symm
  obtain ⟨slot, home⟩ : ∃ slot, groups.triedSlot addrman.nKey infoLeft.addr = slot := ⟨_, rfl⟩
  obtain ⟨evicted, evict, evictedSound, evictedSteady, evictedShrinks, evictedTried, kept⟩ :=
    evictTried_spec uncountedSound slot
  obtain ⟨infoLast, listedLast, coreLast⟩ := infos_eq_some (kept nId _ uncountedHere untried rfl)
  have addrLast : infoLast.addr = info.addr := (congrArg (·.addr) coreLast).symm
  have keyLast : evicted.nKey = addrman.nKey := evictedSteady.nKey.trans leftSteady.nKey
  have slotLast : groups.triedSlot evicted.nKey infoLast.addr = slot := by
    rw [keyLast, addrLast, ← addrLeft, home]
  have empty : evicted.vvTried slot = none := by
    rw [evictedTried, Function.update_self]
  obtain ⟨tried, triedDrift, triedInfos⟩ := enterTried_spec listedLast evictedSound
    ((congrArg (·.fInTried) coreLast).symm.trans untried) (congrArg (·.nRefCount) coreLast).symm (slotLast ▸ empty)
  rw [slotLast] at tried triedDrift triedInfos
  refine ⟨evicted.enterTried groups nId infoLast slot, ?_, tried, ⟨keyLast, evictedSteady.nIdCount.trans leftSteady.nIdCount,
      evictedSteady.collisions.trans leftSteady.collisions, ?_⟩, ?_, ?_⟩
  · simp only [uncounted] at listedLeft evict
    simp only [makeTried, listed, leave, listedLeft, evict, listedLast, Option.bind_eq_bind, Option.bind_some, ne_eq,
      not_true_eq_false, if_false, refsLeft, home, empty]
  · rw [triedDrift, evictedSteady.drift, drift_countNew, leftSteady.drift, onNetwork_new_neg, addrLast]
    abel
  · intro other taken
    change Function.update evicted.vvTried _ _ other ≠ none
    by_cases here : other = slot
    · rw [here, Function.update_self]
      simp
    · rw [Function.update_of_ne here, evictedTried, Function.update_of_ne here]
      exact leftTried ▸ taken
  · intro other last known
    have uncountedShrinks : Shrinks addrman uncounted := by
      refine shrinks_update found leftInfos ?_
      rintro _ ⟨⟩
      exact ⟨rfl, rfl, rfl, id⟩
    have shrinks := uncountedShrinks.trans evictedShrinks
    rcases update_cases (triedInfos ▸ known) with ⟨rfl, ⟨⟩⟩ | ⟨-, known⟩
    · obtain ⟨before, listedBefore, descends⟩ := shrinks other _ (infos_of_lookup listedLast)
      exact ⟨before, listedBefore, descends.addr, descends.lastTry, descends.lastSuccess, fun _ => .inr rfl⟩
    · obtain ⟨before, listedBefore, descends⟩ := shrinks other last known
      exact ⟨before, listedBefore, descends.addr, descends.lastTry, descends.lastSuccess,
        fun inTried => .inl (descends.tried inTried)⟩

/-! ## Into a slot of new addresses -/

/-- An entry takes the slot for a source, or another slot holds it, or it goes. -/
theorem placeNew_spec (sound : Sound groups (insert nId loose) addrman)
    (few : core.nRefCount < ADDRMAN_NEW_BUCKETS_PER_ADDRESS) (source : NetAddr) (now : Int) :
    ∃ after, addrman.placeNew groups nId source now = some after ∧ Sound groups loose after.1 ∧
      Steady groups addrman after.1 ∧ Shrinks addrman after.1 ∧ after.1.vvTried = addrman.vvTried := by
  obtain ⟨info, listed, rfl⟩ := infos_eq_some found
  have nonneg : 0 ≤ info.core.nRefCount := sound.tables.refs_nonneg found
  unfold placeNew
  simp only [listed, Option.bind_eq_bind, Option.bind_some]
  split
  next empty =>
    obtain ⟨entered, steady, same⟩ := enterSlot_spec listed sound untried few empty rfl
    refine ⟨_, rfl, entered, steady, shrinks_update found same ?_, rfl⟩
    rintro _ ⟨⟩
    exact ⟨rfl, rfl, rfl, id⟩
  next other held =>
    split
    next same =>
      subst same
      have referenced : 0 < info.nRefCount := by
        have refs : info.nRefCount = slotCount addrman.vvNew other := sound.tables.refs other info.core found
        have counted := slotCount_empty held
        omega
      exact ⟨_, rfl, sound.tighten found referenced, .refl _, .refl _, rfl⟩
    next different =>
      obtain ⟨existing, foundOther, -⟩ := sound.tables.new _ other held
      obtain ⟨infoExisting, listedOther, rfl⟩ := infos_eq_some foundOther
      simp only [listedOther, Option.bind_some]
      split
      next replaced =>
        have elsewhere : addrman.vvNew (groups.newSlot addrman.nKey info.addr source) ≠ some nId := by
          rw [held]
          exact fun same => different (Option.some.inj same)
        obtain ⟨cleared, infoAgain, clear, -, listedAgain, -, entered, steady, shrinks, sameTried, -⟩ :=
          clearNew_enterSlot found untried sound few elsewhere rfl
        simp only [clear, listedAgain, Option.bind_some]
        exact ⟨_, rfl, entered, steady, shrinks, sameTried⟩
      next stays =>
        split
        next unreferenced =>
          obtain ⟨after, deleted, index, steady, gone, sameTried, sameNew⟩ :=
            delete_spec groups sound.index found untried unreferenced
          simp only [deleted, Option.bind_some]
          refine ⟨_, rfl, ⟨index, ?_⟩, steady, shrinks_update found gone (by simp), sameTried⟩
          rw [steady.nKey, gone, sameTried, sameNew]
          exact sound.tables.delete found untried unreferenced
        next referenced =>
          have positive : 0 < info.nRefCount := lt_of_le_of_ne nonneg (Ne.symm referenced)
          exact ⟨_, rfl, sound.tighten found positive, .refl _, .refl _, rfl⟩

end

end AddrMan

end Sharecoin
