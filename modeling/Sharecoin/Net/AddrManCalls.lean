import Sharecoin.Net.AddrManMoves

/-! What every call on the address manager keeps, whatever the random choices and the clock: the
tables and the counts fit the entries, and every entry that waits for a tried slot finds it taken. -/

set_option autoImplicit false

namespace Sharecoin

open Lib

variable {time : Int}

namespace AddrMan

variable {NetAddr : Type} {groups : NetGroups NetAddr} {addrman after : AddrMan NetAddr} {loose : Set Nat}
  {nId : Nat} {info changed : AddrInfo NetAddr}

/-! ## The invariant -/

/-- Every tried address was reached at some time. -/
def Proven (addrman : AddrMan NetAddr) : Prop :=
  ∀ nId info, addrman.infos nId = some info → info.fInTried = true → info.mLastSuccess ≠ 0

theorem Proven.shrinks (proven : addrman.Proven) (shrinks : Shrinks addrman after) : after.Proven := by
  intro nId info found tried
  obtain ⟨before, known, descends⟩ := shrinks nId info found
  rw [descends.lastSuccess]
  exact proven nId before known (descends.tried tried)

theorem infos_setInfo : (addrman.setInfo nId changed).infos =
    Function.update addrman.infos nId (some changed.core) := infos_insert rfl rfl

theorem Proven.setInfo (proven : addrman.Proven) (found : addrman.mapInfo.lookup nId = some info)
    (tried : changed.fInTried = info.fInTried)
    (success : changed.mLastSuccess = info.mLastSuccess ∨ changed.mLastSuccess ≠ 0) :
    (addrman.setInfo nId changed).Proven := by
  intro other entry listed inTried
  rcases update_cases (infos_setInfo ▸ listed) with ⟨rfl, ⟨⟩⟩ | ⟨-, listed⟩
  · refine success.elim (fun same => ?_) id
    change changed.mLastSuccess ≠ 0
    rw [same]
    exact proven other info.core (infos_of_lookup found) (tried ▸ inTried)
  · exact proven other entry listed inTried

variable [DecidableEq NetAddr]

structure Healthy (groups : NetGroups NetAddr) (loose : Set Nat) (addrman : AddrMan NetAddr) : Prop where
  sound : Sound groups loose addrman
  drift : addrman.drift groups = 0
  times : ∀ nId info, addrman.infos nId = some info → 0 ≤ info.mLastTry ∧ 0 ≤ info.mLastSuccess
  collisions : ∀ nId ∈ addrman.mTriedCollisions, nId < addrman.nIdCount ∧ ∀ info, addrman.infos nId = some info →
      addrman.vvTried (groups.triedSlot addrman.nKey info.addr) ≠ none

/-- What a call leaves: the key stays, and the addresses stay proven where the times allow it. -/
structure Keeps (groups : NetGroups NetAddr) (proves : Prop) (addrman after : AddrMan NetAddr) :
    Prop where
  healthy : Healthy groups ∅ after
  nKey : after.nKey = addrman.nKey
  proven : proves → addrman.Proven → after.Proven

theorem healthy_start (groups : NetGroups NetAddr) (nKey : Uint256) : Healthy groups ∅ { nKey : AddrMan NetAddr } where
  sound := ⟨index_start, Tables.start⟩
  drift := rfl
  times nId info found := by cases found
  collisions nId member := by cases member

theorem Keeps.refl (healthy : Healthy groups ∅ addrman) (proves : Prop) :
    Keeps groups proves addrman addrman := ⟨healthy, rfl, fun _ => id⟩

theorem Keeps.trans {proves : Prop} {last : AddrMan NetAddr} (first : Keeps groups proves addrman after)
    (second : Keeps groups proves after last) : Keeps groups proves addrman last where
  healthy := second.healthy
  nKey := second.nKey.trans first.nKey
  proven positive := second.proven positive ∘ first.proven positive

theorem Healthy.shrinks (healthy : Healthy groups loose addrman) (sound : Sound groups ∅ after)
    (steady : Steady groups addrman after) (shrinks : Shrinks addrman after)
    (taken : after.vvTried = addrman.vvTried) : Healthy groups ∅ after where
  sound := sound
  drift := steady.drift.trans healthy.drift
  times nId info found := by
    obtain ⟨before, known, descends⟩ := shrinks nId info found
    rw [descends.lastTry, descends.lastSuccess]
    exact healthy.times nId before known
  collisions nId member := by
    rw [steady.collisions] at member
    obtain ⟨old, waits⟩ := healthy.collisions nId member
    refine ⟨steady.nIdCount ▸ old, fun info found => ?_⟩
    obtain ⟨before, known, descends⟩ := shrinks nId info found
    rw [taken, steady.nKey, descends.addr]
    exact waits before known

theorem Healthy.setInfo (healthy : Healthy groups loose addrman) (found : addrman.mapInfo.lookup nId = some info)
    (addr : changed.addr = info.addr) (tried : changed.fInTried = info.fInTried)
    (refs : changed.nRefCount = info.nRefCount) (position : changed.nRandomPos = info.nRandomPos)
    (times : 0 ≤ changed.mLastTry ∧ 0 ≤ changed.mLastSuccess) :
    Healthy groups loose (addrman.setInfo nId changed) := by
  refine ⟨⟨healthy.sound.index.change found addr position, ?_⟩, ?_, fun other entry listed => ?_,
    fun other member => ⟨(healthy.collisions other member).1, fun entry listed => ?_⟩⟩
  · rw [infos_setInfo]
    exact healthy.sound.tables.change (infos_of_lookup found) addr tried refs
  · rw [← healthy.drift]
    exact congrArg (fun total => addrman.counters - total) (expected_keep found addr tried)
  · rcases update_cases (infos_setInfo ▸ listed) with ⟨rfl, ⟨⟩⟩ | ⟨-, listed⟩
    · exact times
    · exact healthy.times other entry listed
  · rcases update_cases (infos_setInfo ▸ listed) with ⟨rfl, ⟨⟩⟩ | ⟨-, listed⟩
    · have waits := (healthy.collisions other member).2 info.core (infos_of_lookup found)
      change addrman.vvTried (groups.triedSlot addrman.nKey changed.addr) ≠ none
      rw [addr]
      exact waits
    · exact (healthy.collisions other member).2 entry listed

variable {addr : CService NetAddr}

theorem find_eq_some (found : addrman.find addr = some (nId, info)) : addrman.mapInfo.lookup nId = some info := by
  obtain ⟨id', -, rest⟩ := Option.bind_eq_some_iff.mp found
  obtain ⟨entry, listed, same⟩ := Option.bind_eq_some_iff.mp rest
  cases same
  exact listed

theorem find_eq_none (index : addrman.Indexed) (absent : addrman.find addr = none) :
    addrman.mapAddr.lookup addr = none := by
  cases known : addrman.mapAddr.lookup addr with
  | none => rfl
  | some nId =>
    obtain ⟨info, listed, -⟩ := (index.addrs addr nId).mp known
    simp [find, known, listed] at absent

/-! ## Adding -/

variable {address : CAddress NetAddr}

theorem Proven.create (proven : addrman.Proven) (index : addrman.Indexed) (source : NetAddr)
    (unknown : addrman.mapAddr.lookup address.addr = none) : (addrman.create groups address source).Proven := by
  obtain ⟨-, -, same⟩ := create_spec groups index source unknown
  intro nId info found tried
  rcases update_cases (same ▸ found) with ⟨rfl, ⟨⟩⟩ | ⟨-, found⟩
  · cases tried
  · exact proven nId info found tried

theorem mem_insertId {ids : List Nat} {other : Nat} : other ∈ insertId nId ids ↔ other = nId ∨ other ∈ ids := by
  unfold insertId
  split
  next member => exact ⟨.inr, fun either => either.elim (· ▸ member) id⟩
  · exact List.mem_orderedInsert _

section

variable (healthy : Healthy groups ∅ addrman) (proves : Prop)
include healthy

theorem Healthy.create (source : NetAddr) (unknown : addrman.mapAddr.lookup address.addr = none) :
    Healthy groups (insert addrman.nIdCount ∅) (addrman.create groups address source) := by
  obtain ⟨index, drift, same⟩ := create_spec groups healthy.sound.index source unknown
  refine ⟨⟨index, ?_⟩, drift.trans healthy.drift, fun nId info found => ?_, fun nId member => ?_⟩
  · rw [same]
    exact healthy.sound.tables.create (by rw [infos, healthy.sound.index.absent, Option.map_none]) rfl rfl
  · rcases update_cases (same ▸ found) with ⟨rfl, ⟨⟩⟩ | ⟨-, found⟩
    · exact ⟨le_refl 0, le_refl 0⟩
    · exact healthy.times nId info found
  · obtain ⟨old, waits⟩ := healthy.collisions nId member
    refine ⟨old.trans (Nat.lt_succ_self _), fun info found => ?_⟩
    rw [same, Function.update_of_ne old.ne] at found
    exact waits info found

theorem addSingle_keeps (address : CAddress NetAddr) (source : NetAddr) (timePenalty now later : Int) (draw : Nat) :
    ∃ result, addrman.addSingle groups address source timePenalty now later draw = some result ∧
      Keeps groups proves addrman result.1 := by
  unfold addSingle
  split
  · exact ⟨_, rfl, .refl healthy _⟩
  extract_lets penalty
  split
  next nId known found =>
    have listed := find_eq_some found
    have times := healthy.times nId known.core (infos_of_lookup listed)
    let info := refresh address penalty now known
    have updated : Healthy groups ∅ (addrman.setInfo nId info) := healthy.setInfo listed rfl rfl rfl rfl times
    have kept : Keeps groups proves addrman (addrman.setInfo nId info) :=
      ⟨updated, rfl, fun _ proven => proven.setInfo listed rfl (.inl rfl)⟩
    have foundInfo : (addrman.setInfo nId info).mapInfo.lookup nId = some info := AList.lookup_insert ..
    dsimp only
    split
    · exact ⟨_, rfl, kept⟩
    split
    · exact ⟨_, rfl, kept⟩
    next untried =>
      split
      · exact ⟨_, rfl, kept⟩
      next notFull =>
        split
        · exact ⟨_, rfl, kept⟩
        have room : info.nRefCount ≤ ADDRMAN_NEW_BUCKETS_PER_ADDRESS :=
          updated.sound.tables.room nId info.core (infos_of_lookup foundInfo)
        have loosened : Sound groups (insert nId ∅) (addrman.setInfo nId info) :=
          ⟨updated.sound.index, updated.sound.tables.loosen (Set.subset_insert nId ∅)⟩
        obtain ⟨result, placed, sound, steady, shrinks, sameTried⟩ := placeNew_spec
          (infos_of_lookup foundInfo) (Bool.not_eq_true _ ▸ untried) loosened (lt_of_le_of_ne room notFull) source later
        refine ⟨result, placed, updated.shrinks sound steady shrinks sameTried,
          steady.nKey, fun positive proven => (kept.proven positive proven).shrinks shrinks⟩
  next absent =>
    let penalized := { address with nTime := max 0 (address.nTime - penalty) }
    have unknown : addrman.mapAddr.lookup penalized.addr = none := find_eq_none healthy.sound.index absent
    have created : Healthy groups (insert addrman.nIdCount ∅)
        (addrman.create groups penalized source) := healthy.create source unknown
    obtain ⟨-, -, same⟩ := create_spec groups healthy.sound.index source unknown
    have here := infos_self same
    obtain ⟨result, placed, sound, steady, shrinks, sameTried⟩ :=
      placeNew_spec here rfl created.sound (show (0 : Int) < ADDRMAN_NEW_BUCKETS_PER_ADDRESS by decide) source later
    refine ⟨result, placed, created.shrinks sound steady shrinks sameTried, steady.nKey,
      fun _ proven => (proven.create healthy.sound.index source unknown).shrinks shrinks⟩

theorem add_keeps (additions : List (Addition NetAddr)) (source : NetAddr) (timePenalty : Int) :
    ∃ result, addrman.add groups additions source timePenalty = some result ∧ Keeps groups proves addrman result.1 := by
  unfold add
  generalize false = added
  induction additions generalizing addrman added with
  | nil => exact ⟨_, rfl, .refl healthy _⟩
  | cons addition additions ih =>
    obtain ⟨single, ran, keeps⟩ := addSingle_keeps healthy proves addition.address source timePenalty
      addition.now addition.later addition.draw
    obtain ⟨result, rest, later⟩ := ih keeps.healthy (added || single.2)
    refine ⟨result, ?_, keeps.trans later⟩
    rw [List.foldlM_cons, ran]
    exact rest

/-! ## Trying -/

theorem Healthy.makeTried {core : AddrInfo NetAddr}
    (found : addrman.infos nId = some core) (untried : core.fInTried = false) :
    ∃ after, addrman.makeTried groups nId = some after ∧ Healthy groups ∅ after ∧ after.nKey = addrman.nKey ∧
      (addrman.Proven → core.mLastSuccess ≠ 0 → after.Proven) := by
  obtain ⟨after, made, sound, steady, taken, comes⟩ := makeTried_spec found untried healthy.sound
  refine ⟨after, made, ⟨sound, steady.drift.trans healthy.drift, fun other info listed => ?_,
    fun other member => ?_⟩, steady.nKey, fun proven success other info listed tried => ?_⟩
  · obtain ⟨before, known, -, lastTry, lastSuccess, -⟩ := comes other info listed
    rw [lastTry, lastSuccess]
    exact healthy.times other before known
  · rw [steady.collisions] at member
    obtain ⟨old, waits⟩ := healthy.collisions other member
    refine ⟨steady.nIdCount ▸ old, fun info listed => ?_⟩
    obtain ⟨before, known, addr, -⟩ := comes other info listed
    rw [steady.nKey, addr]
    exact taken _ (waits before known)
  · obtain ⟨before, known, -, -, lastSuccess, wasTried⟩ := comes other info listed
    rw [lastSuccess]
    rcases wasTried tried with inTried | rfl
    · exact proven other before known inTried
    · rw [found] at known
      cases known
      exact success

theorem good_keeps (addr : CService NetAddr) (testBeforeEvict : Bool) (nonneg : 0 ≤ time) :
    ∃ result, addrman.good groups addr testBeforeEvict time = some result ∧
      Keeps groups (time ≠ 0) addrman result.1 := by
  have marked : Healthy groups ∅ { addrman with mLastGood := time } :=
    ⟨⟨healthy.sound.index, healthy.sound.tables⟩, healthy.drift, healthy.times, healthy.collisions⟩
  unfold good
  dsimp only
  split
  · exact ⟨_, rfl, marked, rfl, fun _ => id⟩
  next nId known found =>
    have listed := find_eq_some found
    let info := { known with mLastSuccess := time, mLastTry := time, nAttempts := 0 }
    let updated := ({ addrman with mLastGood := time } : AddrMan NetAddr).setInfo nId info
    have updatedHealthy : Healthy groups ∅ updated := marked.setInfo listed rfl rfl rfl rfl ⟨nonneg, nonneg⟩
    have updatedProven (positive : time ≠ 0) (proven : addrman.Proven) : updated.Proven := by
      have still : ({ addrman with mLastGood := time } : AddrMan NetAddr).Proven := proven
      exact still.setInfo listed rfl (.inr positive)
    have foundInfo : updated.mapInfo.lookup nId = some info := AList.lookup_insert ..
    split
    · exact ⟨_, rfl, updatedHealthy, rfl, updatedProven⟩
    next untried =>
      rw [Bool.not_eq_true] at untried
      have referenced : 0 < info.nRefCount :=
        updatedHealthy.sound.tables.held nId info.core (infos_of_lookup foundInfo) untried (by simp)
      rw [if_neg (not_le.mpr referenced)]
      split
      next waits =>
        refine ⟨_, rfl, ⟨⟨updatedHealthy.sound.index, updatedHealthy.sound.tables⟩,
          updatedHealthy.drift, updatedHealthy.times, fun other member => ?_⟩, rfl, updatedProven⟩
        dsimp only at member
        split at member
        · rcases mem_insertId.mp member with rfl | inside
          · refine ⟨updatedHealthy.sound.index.fresh other info foundInfo, fun entry again => ?_⟩
            have same := (infos_of_lookup foundInfo).symm.trans again
            cases same
            exact waits.2
          · exact updatedHealthy.collisions other inside
        · exact updatedHealthy.collisions other member
      next free =>
        obtain ⟨after, made, afterHealthy, nKey, afterProven⟩ :=
          updatedHealthy.makeTried (infos_of_lookup foundInfo) untried
        refine ⟨(after, true), ?_, afterHealthy, nKey, fun positive proven =>
          afterProven (updatedProven positive proven) positive⟩
        have done : updated.makeTried groups nId = some after := made
        simp only [updated, info] at done
        rw [done]
        rfl

/-- An entry changes only in its times, attempts and services, and not in its last success. -/
structure Touches (info changed : AddrInfo NetAddr) : Prop where
  addr : changed.addr = info.addr
  tried : changed.fInTried = info.fInTried
  refs : changed.nRefCount = info.nRefCount
  position : changed.nRandomPos = info.nRandomPos
  lastTry : changed.mLastTry = info.mLastTry ∨ 0 ≤ changed.mLastTry
  success : changed.mLastSuccess = info.mLastSuccess

theorem keeps_setInfo (found : addrman.find addr = some (nId, info)) (touches : Touches info changed) :
    Keeps groups proves addrman (addrman.setInfo nId changed) := by
  have listed := find_eq_some found
  have times := healthy.times nId info.core (infos_of_lookup listed)
  have lastTry : 0 ≤ changed.mLastTry := touches.lastTry.elim (fun same => same ▸ times.1) id
  refine ⟨healthy.setInfo listed touches.addr touches.tried touches.refs touches.position
    ⟨lastTry, touches.success ▸ times.2⟩, rfl, fun _ proven => ?_⟩
  exact proven.setInfo listed touches.tried (.inl touches.success)

theorem attempt_keeps (addr : CService NetAddr) (fCountFailure : Bool) (nonneg : 0 ≤ time) :
    Keeps groups proves addrman (addrman.attempt addr fCountFailure time) := by
  unfold attempt
  split
  · exact .refl healthy _
  next nId info found =>
    refine keeps_setInfo healthy proves found ?_
    split <;> exact ⟨rfl, rfl, rfl, rfl, .inr nonneg, rfl⟩

theorem connected_keeps (addr : CService NetAddr) (time : Int) :
    Keeps groups proves addrman (addrman.connected addr time) := by
  unfold connected
  split
  · exact .refl healthy _
  next nId info found =>
    refine keeps_setInfo healthy proves found ?_
    split <;> exact ⟨rfl, rfl, rfl, rfl, .inl rfl, rfl⟩

theorem setServices_keeps (addr : CService NetAddr) (nServices : UInt64) :
    Keeps groups proves addrman (addrman.setServices addr nServices) := by
  unfold setServices
  split
  · exact .refl healthy _
  next nId info found =>
    refine keeps_setInfo healthy proves found ?_
    exact ⟨rfl, rfl, rfl, rfl, .inl rfl, rfl⟩

/-! ## Collisions -/

theorem Healthy.eraseCollision (nId : Nat) : Healthy groups ∅ (addrman.eraseCollision nId) where
  sound := ⟨healthy.sound.index, healthy.sound.tables⟩
  drift := healthy.drift
  times := healthy.times
  collisions other member := healthy.collisions other (List.mem_of_mem_erase member)

theorem keeps_eraseCollision (nId : Nat) : Keeps groups proves addrman (addrman.eraseCollision nId) :=
  ⟨healthy.eraseCollision nId, rfl, fun _ proven => proven⟩

theorem replaceTried_keeps (addr : CService NetAddr) (nonneg : 0 ≤ time) :
    ∃ after, addrman.replaceTried groups nId addr time = some after ∧ Keeps groups (time ≠ 0) addrman after := by
  obtain ⟨result, ran, keeps⟩ := good_keeps healthy addr false nonneg
  refine ⟨result.1.eraseCollision nId, ?_, keeps.trans (keeps_eraseCollision keeps.healthy _ nId)⟩
  rw [replaceTried, ran]
  rfl

theorem resolveCollision_keeps (nonneg : 0 ≤ time) (idNew : Nat) :
    ∃ after, addrman.resolveCollision groups time idNew = some after ∧ Keeps groups (time ≠ 0) addrman after := by
  have erased : ∃ after, some (addrman.eraseCollision idNew) = some after ∧
      Keeps groups (time ≠ 0) addrman after := ⟨_, rfl, keeps_eraseCollision healthy _ idNew⟩
  have stays : ∃ after, some addrman = some after ∧ Keeps groups (time ≠ 0) addrman after := ⟨_, rfl, .refl healthy _⟩
  unfold resolveCollision
  split
  · exact erased
  next infoNew listed =>
    split
    · exact erased
    split
    · exact replaceTried_keeps healthy infoNew.addr nonneg
    next idOld held =>
      obtain ⟨infoOld, listedOld⟩ := healthy.sound.lookup_of_tried held
      simp only [listedOld, Option.bind_eq_bind, Option.bind_some]
      split
      · exact erased
      split
      · split
        · exact replaceTried_keeps healthy infoNew.addr nonneg
        · exact stays
      · split
        · exact replaceTried_keeps healthy infoNew.addr nonneg
        · exact stays

theorem resolveCollisions_keeps {clock : Nat → Int} (nonneg : ∀ nId, 0 ≤ clock nId) :
    ∃ after, addrman.resolveCollisions groups clock = some after ∧
      Keeps groups (∀ nId, clock nId ≠ 0) addrman after := by
  unfold resolveCollisions
  generalize addrman.mTriedCollisions = ids
  induction ids generalizing addrman with
  | nil => exact ⟨_, rfl, .refl healthy _⟩
  | cons nId ids ih =>
    obtain ⟨next, ran, keeps⟩ := resolveCollision_keeps healthy (nonneg nId) nId
    obtain ⟨after, rest, later⟩ := ih keeps.healthy
    refine ⟨after, ?_, later.healthy, later.nKey.trans keeps.nKey, fun positive proven =>
      later.proven positive (keeps.proven (positive nId) proven)⟩
    rw [List.foldlM_cons, ran]
    exact rest

theorem selectTriedCollision_keeps (draw : Nat) :
    ∃ result, addrman.selectTriedCollision groups draw = some result ∧ Keeps groups proves addrman result.1 := by
  unfold selectTriedCollision
  split
  · exact ⟨_, rfl, .refl healthy _⟩
  next idNew picked =>
    split
    · exact ⟨_, rfl, keeps_eraseCollision healthy _ idNew⟩
    next newInfo listed =>
      have taken := (healthy.collisions idNew (List.mem_of_getElem? picked)).2 newInfo.core (infos_of_lookup listed)
      obtain ⟨idOld, held⟩ := Option.ne_none_iff_exists'.mp taken
      obtain ⟨infoOld, listedOld⟩ := healthy.sound.lookup_of_tried held
      have heldHere : addrman.vvTried (groups.triedSlot addrman.nKey newInfo.addr) = some idOld := held
      simp only [heldHere, listedOld, Option.bind_eq_bind, Option.bind_some]
      exact ⟨_, rfl, .refl healthy _⟩

/-! ## Selecting -/

theorem getEntry_lookup {useTried : Bool} {bucket position : Nat}
    (entry : addrman.getEntry useTried bucket position = some nId) :
    ∃ info, addrman.mapInfo.lookup nId = some info := by
  unfold getEntry at entry
  split at entry
  · split at entry
    · split at entry
      · exact healthy.sound.lookup_of_tried entry
      · cases entry
    · split at entry
      · obtain ⟨core, found, -⟩ := healthy.sound.tables.new _ nId entry
        exact (infos_eq_some found).imp fun _ => And.left
      · cases entry
  · cases entry

theorem searchBucket_some (networks : List Network) (searchTried : Bool) (bucket : Nat) (positions : List Nat) :
    ∃ found, addrman.searchBucket groups networks searchTried bucket positions = some found ∧
      ∀ nodeId, found = some nodeId → ∃ info, addrman.mapInfo.lookup nodeId = some info := by
  induction positions with
  | nil => exact ⟨none, rfl, by simp⟩
  | cons position positions ih =>
    unfold searchBucket
    split
    · exact ih
    next nodeId entry =>
      obtain ⟨info, listed⟩ := getEntry_lookup healthy entry
      have fits : ∃ fits, addrman.onNetworks groups networks nodeId = some fits := by
        unfold onNetworks
        split
        · exact ⟨true, rfl⟩
        · simp [listed]
      obtain ⟨fits, checked⟩ := fits
      simp only [checked, Option.bind_eq_bind, Option.bind_some]
      split
      · refine ⟨_, rfl, ?_⟩
        rintro _ ⟨⟩
        exact ⟨info, listed⟩
      · exact ih

theorem selectTurns_some (networks : List Network) (searchTried : Bool) (turns : List SelectTurn) :
    ∃ result, addrman.selectTurns groups networks searchTried turns = some result := by
  induction turns with
  | nil => exact ⟨none, rfl⟩
  | cons turn turns ih =>
    unfold selectTurns
    extract_lets bucketCount positions
    obtain ⟨found, searched, there⟩ := searchBucket_some healthy networks searchTried
      (turn.bucket % bucketCount) positions
    simp only [searched, Option.bind_eq_bind, Option.bind_some]
    split
    · exact ih
    next nodeId =>
      obtain ⟨info, listed⟩ := there nodeId rfl
      simp only [listed, Option.bind_some]
      split
      · exact ⟨_, rfl⟩
      · exact ih

theorem select_some (newOnly : Bool) (networks : List Network) (randbool : Bool) (turns : List SelectTurn) :
    ∃ result, addrman.select groups newOnly networks randbool turns = some result := by
  unfold select
  extract_lets counts newCount triedCount searchTried
  split
  · exact ⟨_, rfl⟩
  split
  · exact ⟨_, rfl⟩
  · split
    · exact ⟨_, rfl⟩
    · exact selectTurns_some healthy networks _ turns

theorem getAddrTurns_keeps (network : Option Network) (filtered : Bool) (now : Int)
    (draw : Nat → Nat) (nNodes : Nat) {turns n : Nat}
    (inside : n + turns ≤ addrman.vRandom.length) (addresses : List (CAddress NetAddr)) :
    ∃ result, getAddrTurns groups network filtered now draw nNodes turns n addrman addresses =
      some result ∧ Keeps groups proves addrman result.1 := by
  induction turns generalizing addrman n addresses with
  | zero => exact ⟨_, rfl, .refl healthy _⟩
  | succ turns ih =>
    unfold getAddrTurns
    split
    · exact ⟨_, rfl, .refl healthy _⟩
    have below : n < addrman.vRandom.length := by omega
    have picked : draw n % (addrman.vRandom.length - n) + n < addrman.vRandom.length := by
      have := Nat.mod_lt (draw n) (show 0 < addrman.vRandom.length - n by omega)
      omega
    obtain ⟨swapped, swap, index, steady, sameInfos, sameTried, sameNew, sameLength, -⟩ :=
      swapRandom_spec groups healthy.sound.index below picked
    have sound : Sound groups ∅ swapped := by
      refine ⟨index, ?_⟩
      rw [steady.nKey, sameInfos, sameTried, sameNew]
      exact healthy.sound.tables
    have shrinks : Shrinks addrman swapped := by
      intro nId info found
      exact ⟨info, sameInfos ▸ found, rfl, rfl, rfl, id⟩
    have keeps : Keeps groups proves addrman swapped :=
      ⟨healthy.shrinks sound steady shrinks sameTried, steady.nKey, fun _ proven => proven.shrinks shrinks⟩
    have stillBelow : n < swapped.vRandom.length := sameLength ▸ below
    obtain ⟨info, listed, -⟩ := (index.order n _).mp (List.getElem?_eq_getElem stillBelow)
    have again (more : List (CAddress NetAddr)) :
        ∃ result, getAddrTurns groups network filtered now draw nNodes turns (n + 1) swapped more =
          some result ∧ Keeps groups proves addrman result.1 := by
      have room : n + 1 + turns ≤ swapped.vRandom.length := by omega
      obtain ⟨result, ran, later⟩ := ih keeps.healthy room more
      exact ⟨result, ran, keeps.trans later⟩
    simp only [swap, List.getElem?_eq_getElem stillBelow, listed, Option.bind_eq_bind, Option.bind_some]
    split
    · exact again _
    · split
      · exact again _
      · exact again _

theorem getAddr_keeps (maxAddresses : Nat) {maxPct : Nat} (share : maxPct ≤ 100) (network : Option Network)
    (filtered : Bool) (now : Int) (draw : Nat → Nat) :
    ∃ result, addrman.getAddr groups maxAddresses maxPct network filtered now draw = some result ∧
      Keeps groups proves addrman result.1 := by
  unfold getAddr
  dsimp only
  rw [if_neg share.not_gt]
  exact getAddrTurns_keeps healthy proves network filtered now draw _ (by simp) []

end

end AddrMan

end Sharecoin
