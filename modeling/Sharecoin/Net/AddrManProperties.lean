import Mathlib.Algebra.Group.Pi.Lemmas
import Mathlib.Algebra.Group.Prod
import Sharecoin.Lib.MapTotal
import Sharecoin.Net.AddrTables

/-! What the functions of the address manager keep: ids, the random order and the addresses point at
each other, the tables fit the entries, and the counts are those of the entries. -/

set_option autoImplicit false

namespace Sharecoin

open Lib

variable {NetAddr : Type}

/-- An entry up to its place in the random order. -/
def AddrInfo.core (info : AddrInfo NetAddr) : AddrInfo NetAddr := { info with nRandomPos := 0 }

variable (network : Network) {after : AddrMan NetAddr}

namespace AddrMan

/-! ## Counts -/

/-- A number of new and of tried entries, in all and by network. -/
abbrev Tally := (Int × Int) × (Network → Int × Int)

/-- So many entries on one network. -/
def onNetwork (network : Network) (amount : Int × Int) : Tally :=
  (amount, Pi.single network amount)

def share (groups : NetGroups NetAddr) (info : AddrInfo NetAddr) : Tally :=
  onNetwork (groups.getNetwork info.addr.host) (if info.fInTried then (0, 1) else (1, 0))

def expected (groups : NetGroups NetAddr) (mapInfo : AList fun _ : Nat => AddrInfo NetAddr) : Tally :=
  mapTotal (share groups) mapInfo.toFinmap

def counters (addrman : AddrMan NetAddr) : Tally :=
  ((addrman.nNew, addrman.nTried), fun network =>
    let counts := (addrman.mNetworkCounts.lookup network).getD {}
    (counts.nNew, counts.nTried))

variable {groups : NetGroups NetAddr} {addrman last : AddrMan NetAddr} {core info changed : AddrInfo NetAddr}
  {nId : Nat} {mapInfo : AList fun _ : Nat => AddrInfo NetAddr} {value : Option (AddrInfo NetAddr)}

theorem onNetwork_neg (amount : Int × Int) : onNetwork network (-amount) = -onNetwork network amount := by
  rw [onNetwork, Pi.single_neg]
  rfl

theorem onNetwork_new_neg : onNetwork network (-1, 0) = -onNetwork network (1, 0) := onNetwork_neg network (1, 0)

def byNetwork (counts : AList fun _ : Network => NewTriedCount) (network : Network) : Int × Int :=
  let counts := (counts.lookup network).getD {}
  (counts.nNew, counts.nTried)

theorem byNetwork_insert {counts : AList fun _ : Network => NewTriedCount} {count : NewTriedCount} {amount : Int × Int}
    (added : (count.nNew, count.nTried) = byNetwork counts network + amount) :
    byNetwork (counts.insert network count) = byNetwork counts + Pi.single network amount := by
  funext other
  by_cases same : other = network
  · subst same
    simpa [byNetwork, AList.lookup_insert] using added
  · simp [byNetwork, AList.lookup_insert_ne same, Pi.single_eq_of_ne same]

theorem counters_countNew (change : Int) :
    (addrman.countNew network change).counters = addrman.counters + onNetwork network (change, 0) :=
  Prod.ext (by simp [counters, countNew, onNetwork]) (byNetwork_insert network (by simp [byNetwork]))

theorem counters_countTried (change : Int) :
    (addrman.countTried network change).counters = addrman.counters + onNetwork network (0, change) :=
  Prod.ext (by simp [counters, countTried, onNetwork]) (byNetwork_insert network (by simp [byNetwork]))

theorem share_of_untried (untried : info.fInTried = false) :
    share groups info = onNetwork (groups.getNetwork info.addr.host) (1, 0) := by
  rw [share, untried]
  rfl

theorem share_of_tried (tried : info.fInTried = true) :
    share groups info = onNetwork (groups.getNetwork info.addr.host) (0, 1) := by
  rw [share, tried]
  rfl

theorem expected_create (absent : mapInfo.lookup nId = none) :
    expected groups (mapInfo.insert nId info) = expected groups mapInfo + share groups info := by
  rw [expected, ← Finmap.insert_toFinmap, mapTotal_insert ((Finmap.lookup_toFinmap _ _).trans absent), add_comm]
  rfl

theorem expected_erase (found : mapInfo.lookup nId = some info) :
    expected groups (mapInfo.erase nId) = expected groups mapInfo - share groups info := by
  rw [eq_sub_iff_add_eq, expected, ← Finmap.erase_toFinmap, expected, mapTotal_erase ((Finmap.lookup_toFinmap _ _).trans found), add_comm]

theorem expected_change (found : mapInfo.lookup nId = some info) : expected groups (mapInfo.insert nId changed) =
      expected groups mapInfo - share groups info + share groups changed := by
  rw [sub_add_eq_add_sub, eq_sub_iff_add_eq, expected, ← Finmap.insert_toFinmap,
    mapTotal_change ((Finmap.lookup_toFinmap _ _).trans found)]
  rfl

/-! ## Entries, and what a function leaves alone -/

/-- The entries up to their places in the random order. -/
def infos (addrman : AddrMan NetAddr) (nId : Nat) : Option (AddrInfo NetAddr) :=
  (addrman.mapInfo.lookup nId).map AddrInfo.core

/-- The counts that are kept, less those of the entries. -/
def drift (groups : NetGroups NetAddr) (addrman : AddrMan NetAddr) : Tally :=
  addrman.counters - expected groups addrman.mapInfo

theorem drift_countNew (change : Int) : (addrman.countNew network change).drift groups =
      addrman.drift groups + onNetwork network (change, 0) := by
  rw [drift, counters_countNew, drift, add_sub_right_comm]
  rfl

theorem drift_countTried (change : Int) : (addrman.countTried network change).drift groups =
      addrman.drift groups + onNetwork network (0, change) := by
  rw [drift, counters_countTried, drift, add_sub_right_comm]
  rfl

/-- What the functions on slots keep: the key, the counter of ids, the collisions, and the drift of the
counts. -/
structure Steady (groups : NetGroups NetAddr) (addrman after : AddrMan NetAddr) : Prop where
  nKey : after.nKey = addrman.nKey
  nIdCount : after.nIdCount = addrman.nIdCount
  collisions : after.mTriedCollisions = addrman.mTriedCollisions
  drift : after.drift groups = addrman.drift groups

theorem Steady.refl (addrman : AddrMan NetAddr) : Steady groups addrman addrman := ⟨rfl, rfl, rfl, rfl⟩

theorem Steady.trans (first : Steady groups addrman after)
    (second : Steady groups after last) : Steady groups addrman last where
  nKey := second.nKey.trans first.nKey
  nIdCount := second.nIdCount.trans first.nIdCount
  collisions := second.collisions.trans first.collisions
  drift := second.drift.trans first.drift

theorem infos_eq_some (found : addrman.infos nId = some core) :
    ∃ info, addrman.mapInfo.lookup nId = some info ∧ core = info.core := by
  obtain ⟨info, listed, same⟩ := Option.map_eq_some_iff.mp found
  exact ⟨info, listed, same.symm⟩

theorem infos_of_lookup (found : addrman.mapInfo.lookup nId = some info) : addrman.infos nId = some info.core := by
  rw [infos, found, Option.map_some]

theorem infos_insert (same : addrman.mapInfo = mapInfo.insert nId info) (shape : info.core = core) :
    addrman.infos = Function.update (fun other => (mapInfo.lookup other).map AddrInfo.core) nId (some core) := by
  funext other
  rw [infos, same]
  by_cases here : other = nId
  · subst here
    rw [AList.lookup_insert, Function.update_self, Option.map_some, shape]
  · rw [AList.lookup_insert_ne here, Function.update_of_ne here]

theorem infos_erase (same : addrman.mapInfo = mapInfo.erase nId) :
    addrman.infos = Function.update (fun other => (mapInfo.lookup other).map AddrInfo.core) nId none := by
  funext other
  rw [infos, same]
  by_cases here : other = nId
  · subst here
    rw [AList.lookup_erase, Function.update_self, Option.map_none]
  · rw [AList.lookup_erase_ne here, Function.update_of_ne here]

/-- A change of an entry that leaves its address and its table alone leaves the drift alone. -/
theorem expected_keep (found : mapInfo.lookup nId = some info) (addr : changed.addr = info.addr)
    (tried : changed.fInTried = info.fInTried) :
    expected groups (mapInfo.insert nId changed) = expected groups mapInfo := by
  rw [expected_change found, show share groups changed = share groups info by rw [share, share, addr, tried],
    sub_add_cancel]

/-- What an entry keeps when other entries move: it stays where it was, or leaves the tried ones. -/
structure Descends (before after : AddrInfo NetAddr) : Prop where
  addr : after.addr = before.addr
  lastTry : after.mLastTry = before.mLastTry
  lastSuccess : after.mLastSuccess = before.mLastSuccess
  tried : after.fInTried = true → before.fInTried = true

/-- Every entry comes from one before. -/
def Shrinks (addrman after : AddrMan NetAddr) : Prop :=
  ∀ nId info, after.infos nId = some info → ∃ before, addrman.infos nId = some before ∧ Descends before info

theorem Shrinks.refl (addrman : AddrMan NetAddr) : Shrinks addrman addrman :=
  fun _ info found => ⟨info, found, rfl, rfl, rfl, id⟩

theorem Shrinks.trans (first : Shrinks addrman after) (second : Shrinks after last) : Shrinks addrman last := by
  intro nId info found
  obtain ⟨between, listed, later⟩ := second nId info found
  obtain ⟨before, known, earlier⟩ := first nId between listed
  exact ⟨before, known, later.addr.trans earlier.addr, later.lastTry.trans earlier.lastTry,
    later.lastSuccess.trans earlier.lastSuccess, earlier.tried ∘ later.tried⟩

theorem shrinks_update (found : addrman.infos nId = some info)
    (same : after.infos = Function.update addrman.infos nId value)
    (descends : ∀ changed, value = some changed → Descends info changed) : Shrinks addrman after := by
  intro other entry listed
  rcases update_cases (same ▸ listed) with ⟨rfl, own⟩ | ⟨-, listed⟩
  · exact ⟨info, found, descends entry own⟩
  · exact ⟨entry, listed, rfl, rfl, rfl, id⟩

theorem infos_self (same : after.infos = Function.update addrman.infos nId value) : after.infos nId = value := by
  rw [same, Function.update_self]

@[simp] theorem leaveSlot_vvNew (info : AddrInfo NetAddr) (slot : NewSlot) :
    (addrman.leaveSlot nId info slot).vvNew = Function.update addrman.vvNew slot none := rfl

/-! ## Ids, order and addresses -/

theorem exists_lookup_insert_iff {Shows : AddrInfo NetAddr → Prop}
    (found : mapInfo.lookup nId = some info) (same : Shows changed ↔ Shows info) (other : Nat) :
    (∃ entry, (mapInfo.insert nId changed).lookup other = some entry ∧ Shows entry) ↔
      ∃ entry, mapInfo.lookup other = some entry ∧ Shows entry := by
  by_cases here : other = nId
  · subst here
    rw [AList.lookup_insert, found]
    simpa only [Option.some.injEq, exists_eq_left'] using same
  · rw [AList.lookup_insert_ne here]

section Points

variable {K : Type} {table changed : K → Option Nat} {key : AddrInfo NetAddr → K}
  (points : ∀ place nId, table place = some nId ↔ ∃ info, mapInfo.lookup nId = some info ∧ key info = place)
  (others : ∀ place ≠ key info, changed place = table place)

include points others

/-- A table that points at the entries by a key still does with a new entry in a free place. -/
theorem points_insert (absent : mapInfo.lookup nId = none) (free : table (key info) = none)
    (own : changed (key info) = some nId) (place : K) (other : Nat) : changed place = some other ↔
      ∃ entry, (mapInfo.insert nId info).lookup other = some entry ∧ key entry = place := by
  have unheld (place : K) : table place ≠ some nId := by
    simp [points, absent]
  by_cases same : other = nId
  · subst same
    by_cases here : place = key info
    · simp [here, own, AList.lookup_insert]
    · simp [others place here, unheld, AList.lookup_insert, Ne.symm here]
  · rw [AList.lookup_insert_ne same, ← points]
    by_cases here : place = key info
    · simp [here, own, free, Ne.symm same]
    · rw [others place here]

theorem points_erase (found : mapInfo.lookup nId = some info) (own : changed (key info) = none)
    (place : K) (other : Nat) : changed place = some other ↔
      ∃ entry, (mapInfo.erase nId).lookup other = some entry ∧ key entry = place := by
  have held : table (key info) = some nId := (points _ _).mpr ⟨info, found, rfl⟩
  by_cases same : other = nId
  · subst same
    by_cases here : place = key info
    · simp [here, own]
    · simp [others place here, points, found, Ne.symm here]
  · rw [AList.lookup_erase_ne same, ← points]
    by_cases here : place = key info
    · simp [here, own, held, Ne.symm same]
    · rw [others place here]

end Points

/-- Ids are below the counter, and each entry is at its place in the random order and under its
address. -/
structure Index [DecidableEq NetAddr] (nIdCount : Nat) (mapInfo : AList fun _ : Nat => AddrInfo NetAddr)
    (mapAddr : AList fun _ : CService NetAddr => Nat) (vRandom : List Nat) : Prop where
  fresh : ∀ nId info, mapInfo.lookup nId = some info → nId < nIdCount
  order : ∀ (position nId : Nat), vRandom[position]? = some nId ↔
    ∃ info, mapInfo.lookup nId = some info ∧ info.nRandomPos = position
  addrs : ∀ addr nId, mapAddr.lookup addr = some nId ↔ ∃ info, mapInfo.lookup nId = some info ∧ info.addr = addr

variable [DecidableEq NetAddr]

section Index

variable {nIdCount : Nat} {mapAddr : AList fun _ : CService NetAddr => Nat} {vRandom : List Nat}

theorem index_start : Index 0 (∅ : AList fun _ : Nat => AddrInfo NetAddr) ∅ [] where
  fresh nId info found := by simp at found
  order position nId := by simp
  addrs addr nId := by simp

section

variable (index : Index nIdCount mapInfo mapAddr vRandom)

include index

section

variable (found : mapInfo.lookup nId = some info)

include found

theorem Index.change (addr : changed.addr = info.addr) (position : changed.nRandomPos = info.nRandomPos) :
    Index nIdCount (mapInfo.insert nId changed) mapAddr vRandom where
  fresh other entry listed := by
    by_cases same : other = nId
    · exact same ▸ index.fresh nId info found
    · rw [AList.lookup_insert_ne same] at listed
      exact index.fresh other entry listed
  order place other := by
    rw [index.order, exists_lookup_insert_iff found (by rw [position])]
  addrs address other := by
    rw [index.addrs, exists_lookup_insert_iff found (by rw [addr])]

theorem Index.order_iff (position : Nat) : vRandom[position]? = some nId ↔ info.nRandomPos = position := by
  simp only [index.order, found, Option.some.injEq, exists_eq_left']

theorem Index.lt_length : info.nRandomPos < vRandom.length :=
  (List.getElem?_eq_some_iff.mp ((index.order_iff found _).mpr rfl)).1

end

theorem Index.nodup : vRandom.Nodup := by
  rw [List.nodup_iff_getElem?_ne_getElem?]
  intro first second before inside same
  have listed := List.getElem?_eq_getElem inside
  obtain ⟨info, found, place⟩ := (index.order second _).mp listed
  have otherPlace := (index.order_iff found first).mp (same.trans listed)
  omega

theorem Index.perm : vRandom.Perm mapInfo.keys := by
  rw [List.perm_ext_iff_of_nodup index.nodup mapInfo.keys_nodup]
  intro nId
  rw [List.mem_iff_getElem?, ← AList.mem_keys, ← AList.lookup_isSome, Option.isSome_iff_exists]
  constructor
  · rintro ⟨place, listed⟩
    obtain ⟨info, found, -⟩ := (index.order place nId).mp listed
    exact ⟨info, found⟩
  · rintro ⟨info, found⟩
    exact ⟨info.nRandomPos, (index.order_iff found _).mpr rfl⟩

theorem Index.absent : mapInfo.lookup nIdCount = none := by
  cases found : mapInfo.lookup nIdCount with
  | none => rfl
  | some entry => exact absurd (index.fresh nIdCount entry found) (lt_irrefl _)

theorem Index.create (unknown : mapAddr.lookup info.addr = none) (last : info.nRandomPos = vRandom.length) :
    Index (nIdCount + 1) (mapInfo.insert nIdCount info) (mapAddr.insert info.addr nIdCount)
      (vRandom ++ [nIdCount]) where
  fresh other entry listed := by
    by_cases same : other = nIdCount
    · omega
    · rw [AList.lookup_insert_ne same] at listed
      exact (index.fresh other entry listed).trans (Nat.lt_succ_self _)
  order position other := by
    refine points_insert index.order ?_ index.absent ?_ ?_ position other
    · intro place elsewhere
      grind
    · simp [last]
    · simp [last]
  addrs := points_insert index.addrs (fun _ => AList.lookup_insert_ne) index.absent unknown (AList.lookup_insert _)

theorem Index.pop (found : mapInfo.lookup nId = some info) (last : info.nRandomPos + 1 = vRandom.length) :
    Index nIdCount (mapInfo.erase nId) (mapAddr.erase info.addr) vRandom.dropLast where
  fresh other entry listed := by
    by_cases same : other = nId
    · subst same
      rw [AList.lookup_erase] at listed
      cases listed
    · rw [AList.lookup_erase_ne same] at listed
      exact index.fresh other entry listed
  order position other := by
    refine points_erase index.order ?_ found ?_ position other
    · intro place elsewhere
      grind
    · grind
  addrs := points_erase index.addrs (fun _ => AList.lookup_erase_ne) found (AList.lookup_erase _ _)

theorem Index.swap {first second : Nat} {info1 info2 : AddrInfo NetAddr} (different : first ≠ second)
    (found1 : mapInfo.lookup first = some info1) (found2 : mapInfo.lookup second = some info2) :
    Index nIdCount ((mapInfo.insert first { info1 with nRandomPos := info2.nRandomPos }).insert second
        { info2 with nRandomPos := info1.nRandomPos }) mapAddr
      ((vRandom.set info1.nRandomPos second).set info2.nRandomPos first) := by
  have inside1 := index.lt_length found1
  have inside2 := index.lt_length found2
  have still2 : (mapInfo.insert first { info1 with nRandomPos := info2.nRandomPos }).lookup second =
      some info2 := by
    rw [AList.lookup_insert_ne different.symm, found2]
  have shown {Shows : AddrInfo NetAddr → Prop}
      (same1 : Shows { info1 with nRandomPos := info2.nRandomPos } ↔ Shows info1)
      (same2 : Shows { info2 with nRandomPos := info1.nRandomPos } ↔ Shows info2) (other : Nat) :
      (∃ entry, ((mapInfo.insert first { info1 with nRandomPos := info2.nRandomPos }).insert second
        { info2 with nRandomPos := info1.nRandomPos }).lookup other = some entry ∧ Shows entry) ↔
        ∃ entry, mapInfo.lookup other = some entry ∧ Shows entry := by
    rw [exists_lookup_insert_iff still2 same2, exists_lookup_insert_iff found1 same1]
  constructor
  · intro other entry listed
    obtain ⟨before, known, -⟩ := (@shown (fun _ => True) Iff.rfl Iff.rfl other).mp ⟨entry, listed, trivial⟩
    exact index.fresh other before known
  · intro position other
    have order1 := index.order_iff found1 position
    have order2 := index.order_iff found2 position
    rw [List.getElem?_set, List.length_set, List.getElem?_set]
    by_cases same2 : other = second
    · subst same2
      simp only [AList.lookup_insert, Option.some.injEq, exists_eq_left']
      grind
    rw [AList.lookup_insert_ne same2]
    by_cases same1 : other = first
    · subst same1
      simp only [AList.lookup_insert, Option.some.injEq, exists_eq_left']
      grind
    · rw [AList.lookup_insert_ne same1, ← index.order]
      grind
  · intro addr other
    rw [index.addrs, shown Iff.rfl Iff.rfl]

end

end Index

abbrev Indexed (addrman : AddrMan NetAddr) : Prop :=
  Index addrman.nIdCount addrman.mapInfo addrman.mapAddr addrman.vRandom

/-! ## The random order -/

section

variable (groups) (index : addrman.Indexed)

include index

theorem swapRandom_spec {nRndPos1 nRndPos2 : Nat} (inside1 : nRndPos1 < addrman.vRandom.length)
    (inside2 : nRndPos2 < addrman.vRandom.length) :
    ∃ after, addrman.swapRandom nRndPos1 nRndPos2 = some after ∧ after.Indexed ∧
      Steady groups addrman after ∧ after.infos = addrman.infos ∧ after.vvTried = addrman.vvTried ∧
      after.vvNew = addrman.vvNew ∧ after.vRandom.length = addrman.vRandom.length ∧
      ∀ nId, addrman.vRandom[nRndPos1]? = some nId → after.vRandom[nRndPos2]? = some nId := by
  unfold swapRandom
  split
  next same =>
    subst same
    exact ⟨addrman, rfl, index, .refl _, rfl, rfl, rfl, rfl, fun _ => id⟩
  next apart =>
    obtain ⟨nId1, at1⟩ : ∃ nId, addrman.vRandom[nRndPos1]? = some nId := ⟨_, List.getElem?_eq_getElem inside1⟩
    obtain ⟨nId2, at2⟩ : ∃ nId, addrman.vRandom[nRndPos2]? = some nId := ⟨_, List.getElem?_eq_getElem inside2⟩
    obtain ⟨info1, found1, rfl⟩ := (index.order nRndPos1 nId1).mp at1
    obtain ⟨info2, found2, rfl⟩ := (index.order nRndPos2 nId2).mp at2
    have different : nId1 ≠ nId2 := by
      rintro rfl
      rw [found1] at found2
      cases found2
      exact apart rfl
    have still2 : (addrman.mapInfo.insert nId1 { info1 with nRandomPos := info2.nRandomPos }).lookup
        nId2 = some info2 := by
      rw [AList.lookup_insert_ne different.symm, found2]
    simp only [at1, at2, found1, found2, Option.bind_eq_bind, Option.bind_some]
    refine ⟨_, rfl, index.swap different found1 found2, ⟨rfl, rfl, rfl, ?_⟩, ?_, rfl, rfl, by simp,
      fun nId listed => ?_⟩
    · refine congrArg (fun total => addrman.counters - total) ?_
      exact (expected_keep still2 (by rfl) (by rfl)).trans (expected_keep found1 (by rfl) (by rfl))
    · funext other
      rw [infos_insert rfl rfl]
      by_cases same2 : other = nId2
      · subst same2
        rw [Function.update_self, infos, found2]
        rfl
      rw [Function.update_of_ne same2]
      by_cases same1 : other = nId1
      · subst same1
        rw [AList.lookup_insert, infos, found1]
        rfl
      · rw [AList.lookup_insert_ne same1]
        rfl
    · cases listed
      rw [List.getElem?_set_self (by simpa using inside2)]

/-! ## Deleting and creating -/

theorem delete_spec (found : addrman.infos nId = some core)
    (untried : core.fInTried = false) (unreferenced : core.nRefCount = 0) :
    ∃ after, addrman.delete groups nId = some after ∧ after.Indexed ∧ Steady groups addrman after ∧
      after.infos = Function.update addrman.infos nId none ∧ after.vvTried = addrman.vvTried ∧
      after.vvNew = addrman.vvNew := by
  obtain ⟨info, listed, rfl⟩ := infos_eq_some found
  have place := index.lt_length listed
  obtain ⟨swapped, swap, swappedIndex, steady, sameInfos, sameTried, sameNew, sameLength, moved⟩ := swapRandom_spec groups index place
      (show addrman.vRandom.length - 1 < addrman.vRandom.length by omega)
  obtain ⟨last, listedLast, atLast⟩ := (swappedIndex.order _ nId).mp (moved nId ((index.order_iff listed _).mpr rfl))
  have sameCore : last.core = info.core := by
    have here : swapped.infos nId = addrman.infos nId := by rw [sameInfos]
    rw [infos, listedLast, infos, listed] at here
    exact Option.some.inj here
  have addr : last.addr = info.addr := congrArg (·.addr) sameCore
  have tried : last.fInTried = info.fInTried := congrArg (·.fInTried) sameCore
  have alive : ¬ (info.fInTried = true ∨ info.nRefCount ≠ 0) := by
    rintro (tried | referenced)
    · exact Bool.noConfusion (tried.symm.trans untried)
    · exact referenced unreferenced
  have deleted : addrman.delete groups nId = some (swapped.popEntry groups nId last.addr) := by
    simp only [delete, listed, Option.bind_eq_bind, Option.bind_some, if_neg alive, swap, addr]
  refine ⟨_, deleted, swappedIndex.pop listedLast (by omega), ⟨steady.nKey, steady.nIdCount,
    steady.collisions, ?_⟩, ?_, sameTried, sameNew⟩
  · have counted : (swapped.popEntry groups nId last.addr).counters =
        swapped.counters + onNetwork (groups.getNetwork last.addr.host) (-1, 0) :=
      counters_countNew _ _
    have removed : expected groups (swapped.popEntry groups nId last.addr).mapInfo =
        expected groups swapped.mapInfo - onNetwork (groups.getNetwork last.addr.host) (1, 0) := by
      rw [← share_of_untried (tried.trans untried)]
      exact expected_erase listedLast
    rw [← steady.drift, drift, drift, counted, removed, onNetwork_new_neg]
    abel
  · rw [infos_erase rfl, ← sameInfos]
    rfl

theorem create_spec {address : CAddress NetAddr} (source : NetAddr)
    (unknown : addrman.mapAddr.lookup address.addr = none) :
    (addrman.create groups address source).Indexed ∧
      (addrman.create groups address source).drift groups = addrman.drift groups ∧
      (addrman.create groups address source).infos = Function.update addrman.infos addrman.nIdCount
          (some { address with source, nRandomPos := 0 }) := by
  refine ⟨index.create unknown rfl, ?_, infos_insert rfl rfl⟩
  have counted : (addrman.create groups address source).counters =
      addrman.counters + onNetwork (groups.getNetwork address.addr.host) (1, 0) :=
    counters_countNew _ _
  have added : expected groups (addrman.create groups address source).mapInfo =
      expected groups addrman.mapInfo + onNetwork (groups.getNetwork address.addr.host) (1, 0) :=
    expected_create index.absent
  rw [drift, drift, counted, added]
  abel

end

/-! ## Slots of new addresses -/

/-- The index and the tables fit the entries. -/
structure Sound (groups : NetGroups NetAddr) (loose : Set Nat) (addrman : AddrMan NetAddr) : Prop where
  index : addrman.Indexed
  tables : Tables groups addrman.nKey addrman.infos addrman.vvTried addrman.vvNew loose

variable {loose : Set Nat}

theorem Sound.lookup_of_tried (sound : Sound groups loose addrman) {slot : TriedSlot}
    (held : addrman.vvTried slot = some nId) : ∃ info, addrman.mapInfo.lookup nId = some info := by
  obtain ⟨core, found, -⟩ := (sound.tables.tried slot nId).mp held
  exact (infos_eq_some found).imp fun _ => And.left

section

variable {slot : NewSlot} (found : addrman.mapInfo.lookup nId = some info)

include found

theorem leaveSlot_spec (sound : Sound groups loose addrman) (held : addrman.vvNew slot = some nId) :
    let after := addrman.leaveSlot nId info slot
    Sound groups (insert nId loose) after ∧ Steady groups addrman after ∧
      after.infos = Function.update addrman.infos nId (some { info.core with nRefCount := info.nRefCount - 1 }) := by
  intro after
  refine ⟨⟨sound.index.change found rfl rfl, ?_⟩, ⟨rfl, rfl, rfl, ?_⟩, infos_insert rfl rfl⟩
  · rw [show after.infos = _ from infos_insert rfl rfl]
    exact sound.tables.leave (infos_of_lookup found) held
  · refine congrArg (fun total => addrman.counters - total) ?_
    exact expected_keep found (by rfl) (by rfl)

theorem enterSlot_spec (sound : Sound groups (insert nId loose) addrman) (untried : info.fInTried = false)
    (few : info.nRefCount < ADDRMAN_NEW_BUCKETS_PER_ADDRESS) (empty : addrman.vvNew slot = none)
    (place : groups.slotIn addrman.nKey info.addr slot.1 = slot) :
    let after := addrman.enterSlot nId info slot (info.nRefCount + 1)
    Sound groups loose after ∧ Steady groups addrman after ∧ after.infos = Function.update addrman.infos nId
        (some { info.core with nRefCount := info.nRefCount + 1 }) := by
  intro after
  refine ⟨⟨sound.index.change found rfl rfl, ?_⟩, ⟨rfl, rfl, rfl, ?_⟩, infos_insert rfl rfl⟩
  · rw [show after.infos = _ from infos_insert rfl rfl]
    exact sound.tables.enter (infos_of_lookup found) untried few empty place
  · refine congrArg (fun total => addrman.counters - total) ?_
    exact expected_keep found (by rfl) (by rfl)

end

theorem clearNew_spec (sound : Sound groups loose addrman) (slot : NewSlot) :
    ∃ after, addrman.clearNew groups slot = some after ∧ Sound groups loose after ∧
      Steady groups addrman after ∧ Shrinks addrman after ∧ after.vvTried = addrman.vvTried ∧
      after.vvNew slot = none ∧
      ∀ other, addrman.vvNew slot ≠ some other → after.infos other = addrman.infos other := by
  unfold clearNew
  cases held : addrman.vvNew slot with
  | none => exact ⟨addrman, rfl, sound, .refl _, .refl _, rfl, held, fun _ _ => rfl⟩
  | some nId =>
    obtain ⟨core, found, untried, place⟩ := sound.tables.new slot nId held
    obtain ⟨info, listed, rfl⟩ := infos_eq_some found
    have referenced : info.nRefCount > 0 := by
      have refs : info.nRefCount = slotCount addrman.vvNew nId := sound.tables.refs nId info.core found
      have counted := slotCount_empty held
      omega
    obtain ⟨left, steady, same⟩ := leaveSlot_spec listed sound held
    have here := infos_self same
    have empty : (addrman.leaveSlot nId info slot).vvNew slot = none := Function.update_self ..
    have kept {after : AddrMan NetAddr} {value : Option (AddrInfo NetAddr)}
        (shape : after.infos = Function.update addrman.infos nId value) (other : Nat)
        (elsewhere : some nId ≠ some other) : after.infos other = addrman.infos other := by
      rw [shape, Function.update_of_ne fun same => elsewhere (congrArg some same.symm)]
    simp only [listed, Option.bind_eq_bind, Option.bind_some, if_pos referenced]
    split
    next last =>
      obtain ⟨after, deleted, index, again, gone, sameTried, sameNew⟩ :=
        delete_spec groups left.index here untried last
      have shape : after.infos = Function.update addrman.infos nId none := by
        rw [gone, same, Function.update_idem]
      refine ⟨after, deleted, ⟨index, ?_⟩, steady.trans again,
        shrinks_update found shape (by simp), sameTried, sameNew ▸ empty, kept shape⟩
      rw [again.nKey, gone, sameTried, sameNew]
      exact left.tables.delete here untried last
    next more =>
      refine ⟨_, rfl, ⟨left.index, left.tables.tighten fun entry found _ => ?_⟩, steady,
        shrinks_update found same ?_, rfl, empty, kept same⟩
      · rw [here] at found
        cases found
        dsimp only
        omega
      · rintro _ ⟨⟩
        exact ⟨rfl, rfl, rfl, id⟩

/-! ## Slots of tried addresses -/

section

variable (found : addrman.mapInfo.lookup nId = some info)

include found

omit [DecidableEq NetAddr] in
theorem drift_slot (changed : AddrInfo NetAddr) (vvTried : TriedSlot → Option Nat) :
    ({ addrman with mapInfo := addrman.mapInfo.insert nId changed, vvTried } : AddrMan NetAddr).drift
      groups = addrman.drift groups + share groups info - share groups changed := by
  refine (congrArg (addrman.counters - ·) (expected_change found)).trans ?_
  rw [drift]
  abel

theorem leaveTried_spec (sound : Sound groups loose addrman) (tried : info.fInTried = true) :
    let after := addrman.leaveTried groups nId info (groups.triedSlot addrman.nKey info.addr)
    Sound groups (insert nId loose) after ∧
      after.drift groups = addrman.drift groups - onNetwork (groups.getNetwork info.addr.host) (1, 0) ∧
      after.infos = Function.update addrman.infos nId (some { info.core with fInTried := false }) := by
  intro after
  refine ⟨⟨sound.index.change found rfl rfl, ?_⟩, ?_, infos_insert rfl rfl⟩
  · rw [show after.infos = _ from infos_insert rfl rfl]
    exact sound.tables.leaveTried (infos_of_lookup found) tried
  have back : onNetwork (groups.getNetwork info.addr.host) (0, -1) =
      -onNetwork (groups.getNetwork info.addr.host) (0, 1) := onNetwork_neg _ (0, 1)
  change (leaveTried _ _ _ _ _).drift groups = _
  rw [leaveTried, drift_countTried, drift_slot found, share_of_tried tried, share_of_untried rfl, back]
  abel

theorem enterTried_spec (sound : Sound groups (insert nId loose) addrman) (untried : info.fInTried = false)
    (unreferenced : info.nRefCount = 0) (empty : addrman.vvTried (groups.triedSlot addrman.nKey info.addr) = none) :
    let after := addrman.enterTried groups nId info (groups.triedSlot addrman.nKey info.addr)
    Sound groups loose after ∧
      after.drift groups = addrman.drift groups + onNetwork (groups.getNetwork info.addr.host) (1, 0) ∧
      after.infos = Function.update addrman.infos nId (some { info.core with fInTried := true }) := by
  intro after
  refine ⟨⟨sound.index.change found rfl rfl, ?_⟩, ?_, infos_insert rfl rfl⟩
  · rw [show after.infos = _ from infos_insert rfl rfl]
    exact sound.tables.enterTried (infos_of_lookup found) untried unreferenced empty
  · change (enterTried _ _ _ _ _).drift groups = _
    rw [enterTried, drift_countTried, drift_slot found, share_of_untried untried, share_of_tried rfl]
    abel

end

end AddrMan

end Sharecoin
