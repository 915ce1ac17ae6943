import Sharecoin.Lib.Program
import Sharecoin.Net.AddrManCalls

/-! `CheckAddrman` on a state that fits: its loops find what the tables and the counts promise, and
only a missing success of a tried address or a null key can make it fail. -/

set_option autoImplicit false

namespace Sharecoin

open Lib

namespace AddrMan

variable {NetAddr : Type} {groups : NetGroups NetAddr} {addrman : AddrMan NetAddr} {condition : Prop}

theorem refuse_of_not [Decidable condition] (holds : ¬ condition) (err : Int) :
    refuse condition err = .ok () := if_neg holds

theorem refuse_of [Decidable condition] (holds : condition) (err : Int) :
    refuse condition err = .error err := if_pos holds

/-! ## The loop over the entries -/

/-- What an entry adds where it passes. -/
def Gathered.adding (groups : NetGroups NetAddr) (gathered : Gathered)
    (entry : (_ : Nat) × AddrInfo NetAddr) : Gathered :=
  if entry.2.fInTried then
    { gathered.count (groups.getNetwork entry.2.addr.host) 0 1 with
      setTried := entry.1 :: gathered.setTried }
  else
    { gathered.count (groups.getNetwork entry.2.addr.host) 1 0 with
      mapNew := gathered.mapNew.insert entry.1 entry.2.nRefCount }

/-- A tried address that was never reached. -/
def Unproven (entry : (_ : Nat) × AddrInfo NetAddr) : Prop :=
  entry.2.fInTried = true ∧ entry.2.mLastSuccess = 0

instance : DecidablePred (Unproven : (_ : Nat) × AddrInfo NetAddr → Prop) :=
  fun entry => inferInstanceAs (Decidable (entry.2.fInTried = true ∧ entry.2.mLastSuccess = 0))

variable {entry : (_ : Nat) × AddrInfo NetAddr}

/-- What the counts of the gathered entries are. -/
def Gathered.tally (gathered : Gathered) : Tally :=
  (((gathered.mapNew.entries.length : Int), (gathered.setTried.length : Int)), fun network =>
    let counts := (gathered.localCounts.lookup network).getD {}
    (counts.nNew, counts.nTried))

theorem Gathered.tally_adding (gathered : Gathered) (fresh : entry.1 ∉ gathered.mapNew) :
    (gathered.adding groups entry).tally = gathered.tally + share groups entry.2 := by
  unfold Gathered.adding
  split
  next tried =>
    rw [share_of_tried tried]
    refine Prod.ext ?_ (byNetwork_insert _ (by simp [byNetwork]))
    simp [Gathered.tally, Gathered.count, onNetwork]
  next untried =>
    rw [share_of_untried (Bool.not_eq_true _ ▸ untried)]
    refine Prod.ext ?_ (byNetwork_insert _ (by simp [byNetwork]))
    simp only [Gathered.tally, Gathered.count, onNetwork, AList.entries_insert_of_notMem fresh]
    simp

/-- What the loop over entries with distinct ids has gathered. -/
structure Gathers (groups : NetGroups NetAddr) (entries : List ((_ : Nat) × AddrInfo NetAddr))
    (gathered : Gathered) : Prop where
  tally : gathered.tally = (entries.map fun entry => share groups entry.2).sum
  nodup : gathered.setTried.Nodup
  tried : ∀ nId, nId ∈ gathered.setTried ↔ ∃ info, ⟨nId, info⟩ ∈ entries ∧ info.fInTried = true
  new : ∀ nId count, gathered.mapNew.lookup nId = some count ↔
    ∃ info, ⟨nId, info⟩ ∈ entries ∧ info.fInTried = false ∧ info.nRefCount = count
  networks : ∀ network, network ∈ gathered.localCounts →
    ∃ entry ∈ entries, groups.getNetwork entry.2.addr.host = network

variable {entries : List ((_ : Nat) × AddrInfo NetAddr)}

theorem exists_mem_snoc {nId other : Nat} {info : AddrInfo NetAddr} {Shows : AddrInfo NetAddr → Prop} :
    (∃ entry, ⟨other, entry⟩ ∈ entries ++ [⟨nId, info⟩] ∧ Shows entry) ↔
      (∃ entry, ⟨other, entry⟩ ∈ entries ∧ Shows entry) ∨ other = nId ∧ Shows info := by
  constructor
  · rintro ⟨entry, member, shows⟩
    rcases List.mem_append.mp member with before | last
    · exact .inl ⟨entry, before, shows⟩
    · cases List.mem_singleton.mp last
      exact .inr ⟨rfl, shows⟩
  · rintro (⟨entry, before, shows⟩ | ⟨rfl, shows⟩)
    · exact ⟨entry, List.mem_append_left _ before, shows⟩
    · exact ⟨info, by simp, shows⟩

theorem gathers_nil (groups : NetGroups NetAddr) : Gathers groups [] {} where
  tally := rfl
  nodup := List.nodup_nil
  tried nId := by simp
  new nId count := by simp
  networks network member := absurd member (AList.notMem_empty _)

theorem Gathers.adding {gathered : Gathered} (gathers : Gathers groups entries gathered)
    (fresh : entry.1 ∉ entries.keys) : Gathers groups (entries ++ [entry]) (gathered.adding groups entry) := by
  obtain ⟨nId, info⟩ := entry
  have absent (other : AddrInfo NetAddr) : ⟨nId, other⟩ ∉ entries :=
    fun member => fresh (List.mem_keys.mpr ⟨other, member⟩)
  have freshNew : nId ∉ gathered.mapNew := by
    rw [← AList.lookup_eq_none]
    cases found : gathered.mapNew.lookup nId with
    | none => rfl
    | some count =>
      obtain ⟨other, member, -⟩ := (gathers.new nId count).mp found
      exact absurd member (absent other)
  have counted (network : Network) (nNew nTried : Int)
      (member : network ∈ (gathered.count (groups.getNetwork info.addr.host) nNew nTried).localCounts) :
      ∃ entry ∈ entries ++ [⟨nId, info⟩], groups.getNetwork entry.2.addr.host = network := by
    rcases AList.mem_insert _ |>.mp member with rfl | before
    · exact ⟨⟨nId, info⟩, by simp, rfl⟩
    · obtain ⟨entry, listed, same⟩ := gathers.networks network before
      exact ⟨entry, List.mem_append_left _ listed, same⟩
  refine ⟨?_, ?_, fun other => ?_, fun other count => ?_, fun network member => ?_⟩
  · rw [gathered.tally_adding freshNew, gathers.tally, List.map_append, List.sum_append]
    simp
  · unfold Gathered.adding
    split
    next tried =>
      refine List.nodup_cons.mpr ⟨fun member => ?_, gathers.nodup⟩
      obtain ⟨other, listed, -⟩ := (gathers.tried nId).mp member
      exact absent other listed
    · exact gathers.nodup
  · rw [exists_mem_snoc, ← gathers.tried]
    cases tried : info.fInTried with
    | true => simp [Gathered.adding, tried, or_comm]
    | false => simp [Gathered.adding, tried, Gathered.count]
  · rw [exists_mem_snoc, ← gathers.new]
    cases tried : info.fInTried with
    | true => simp [Gathered.adding, tried, Gathered.count]
    | false =>
      by_cases same : other = nId
      · subst same
        have none := AList.lookup_eq_none.mpr freshNew
        simp [Gathered.adding, tried, none, AList.lookup_insert]
      · simp [Gathered.adding, tried, same, AList.lookup_insert_ne same, Gathered.count]
  · unfold Gathered.adding at member
    split at member
    · exact counted network 0 1 member
    · exact counted network 1 0 member

theorem gathers_foldl (nodup : entries.NodupKeys) :
    Gathers groups entries (entries.foldl (Gathered.adding groups) {}) := by
  induction entries using List.reverseRecOn with
  | nil => exact gathers_nil groups
  | append_singleton entries entry ih =>
    rw [List.NodupKeys, List.keys_append, List.nodup_append] at nodup
    rw [List.foldl_append, List.foldl_cons, List.foldl_nil]
    refine (ih nodup.1).adding fun member => ?_
    exact nodup.2.2 entry.1 member entry.1 (by simp) rfl

theorem sum_share (groups : NetGroups NetAddr) (entries : List ((_ : Nat) × AddrInfo NetAddr)) :
    (entries.map fun entry => share groups entry.2).sum.1.1 +
      (entries.map fun entry => share groups entry.2).sum.1.2 = entries.length := by
  induction entries with
  | nil => rfl
  | cons entry entries ih =>
    have one : (share groups entry.2).1.1 + (share groups entry.2).1.2 = 1 := by
      unfold share onNetwork
      split <;> rfl
    rw [List.map_cons, List.sum_cons, Prod.fst_add, Prod.fst_add, Prod.snd_add, List.length_cons]
    push_cast
    omega

theorem share_network (groups : NetGroups NetAddr) (info : AddrInfo NetAddr) (network : Network) :
    0 ≤ ((share groups info).2 network).1 ∧ 0 ≤ ((share groups info).2 network).2 ∧
      (groups.getNetwork info.addr.host = network →
        ((share groups info).2 network).1 + ((share groups info).2 network).2 = 1) := by
  unfold share onNetwork
  by_cases same : groups.getNetwork info.addr.host = network
  · subst same
    dsimp only
    rw [Pi.single_eq_same]
    split <;> exact ⟨by decide, by decide, fun _ => rfl⟩
  · dsimp only
    rw [Pi.single_eq_of_ne (Ne.symm same)]
    exact ⟨le_refl 0, le_refl 0, fun here => absurd here same⟩

theorem sum_share_network (groups : NetGroups NetAddr) (entries : List ((_ : Nat) × AddrInfo NetAddr))
    (network : Network) :
    0 ≤ ((entries.map fun entry => share groups entry.2).sum.2 network).1 ∧
      0 ≤ ((entries.map fun entry => share groups entry.2).sum.2 network).2 ∧
      ((∃ entry ∈ entries, groups.getNetwork entry.2.addr.host = network) →
        0 < ((entries.map fun entry => share groups entry.2).sum.2 network).1 +
          ((entries.map fun entry => share groups entry.2).sum.2 network).2) := by
  induction entries with
  | nil => exact ⟨le_refl 0, le_refl 0, by simp⟩
  | cons entry entries ih =>
    obtain ⟨restNew, restTried, restSome⟩ := ih
    obtain ⟨ownNew, ownTried, ownSome⟩ := share_network groups entry.2 network
    simp only [List.map_cons, List.sum_cons, Prod.snd_add, Pi.add_apply, Prod.fst_add]
    refine ⟨by omega, by omega, ?_⟩
    rintro ⟨other, member, here⟩
    rcases List.mem_cons.mp member with rfl | member
    · have := ownSome here
      omega
    · have := restSome ⟨other, member, here⟩
      omega

theorem proven_iff : addrman.Proven ↔ ∀ nId info, addrman.mapInfo.lookup nId = some info →
    info.fInTried = true → info.mLastSuccess ≠ 0 := by
  constructor
  · intro proven nId info listed
    exact proven nId info.core (infos_of_lookup listed)
  · intro proven nId core found
    obtain ⟨info, listed, rfl⟩ := infos_eq_some found
    exact proven nId info listed

variable [DecidableEq NetAddr]

theorem checkInfo_eq (healthy : Healthy groups ∅ addrman)
    (member : entry ∈ addrman.mapInfo.entries) (gathered : Gathered) :
    addrman.checkInfo groups gathered entry =
      if Unproven entry then .error (-1) else .ok (gathered.adding groups entry) := by
  obtain ⟨nId, info⟩ := entry
  have listed : addrman.mapInfo.lookup nId = some info := AList.mem_lookup_iff.mpr member
  have found := infos_of_lookup listed
  have times := healthy.times nId info.core found
  have addr : ¬ addrman.mapAddr.lookup info.addr ≠ some nId :=
    not_not.mpr ((healthy.sound.index.addrs info.addr nId).mpr ⟨info, listed, rfl⟩)
  have place : ¬ addrman.vRandom[info.nRandomPos]? ≠ some nId :=
    not_not.mpr ((healthy.sound.index.order info.nRandomPos nId).mpr ⟨info, listed, rfl⟩)
  have lastTry : ¬ info.mLastTry < 0 := not_lt.mpr times.1
  have lastSuccess : ¬ info.mLastSuccess < 0 := not_lt.mpr times.2
  cases tried : info.fInTried with
  | true =>
    have unreferenced : info.core.nRefCount = 0 := healthy.sound.tables.refs_of_tried found tried
    have refs : ¬ info.nRefCount ≠ 0 := not_not.mpr unreferenced
    by_cases success : info.mLastSuccess = 0
    · rw [if_pos ⟨tried, success⟩]
      simp only [checkInfo, gather, tried, if_true, refuse_of success]
      rfl
    rw [if_neg fun unproven => success unproven.2]
    simp only [checkInfo, gather, tried, if_true, refuse_of_not success, refuse_of_not refs,
      refuse_of_not addr, refuse_of_not place, refuse_of_not lastTry, refuse_of_not lastSuccess,
      Gathered.adding]
    rfl
  | false =>
    have nonneg := healthy.sound.tables.refs_nonneg found
    have room := healthy.sound.tables.room nId info.core found
    have held := healthy.sound.tables.held nId info.core found tried (by simp)
    have range : ¬ (info.nRefCount < 0 ∨ info.nRefCount > ADDRMAN_NEW_BUCKETS_PER_ADDRESS) :=
      not_or.mpr ⟨not_lt.mpr nonneg, not_lt.mpr room⟩
    have positive : ¬ info.nRefCount = 0 := held.ne'
    rw [if_neg fun unproven => Bool.noConfusion (unproven.1.symm.trans tried)]
    simp only [checkInfo, gather, tried, refuse_of_not range, refuse_of_not positive,
      refuse_of_not addr, refuse_of_not place, refuse_of_not lastTry, refuse_of_not lastSuccess,
      Gathered.adding]
    rfl

/-! ## The loops over the slots -/

theorem mem_slots {bucketCount : Nat} (slot : Fin bucketCount × Fin ADDRMAN_BUCKET_SIZE) : slot ∈ slots bucketCount :=
  List.mem_product.mpr ⟨List.mem_finRange _, List.mem_finRange _⟩

theorem nodup_slots (bucketCount : Nat) : (slots bucketCount).Nodup :=
  (List.nodup_finRange _).product (List.nodup_finRange _)

theorem foldlM_checkTried (healthy : Healthy groups ∅ addrman) {places : List TriedSlot}
    (nodup : places.Nodup) {setTried : List Nat} (nodupTried : setTried.Nodup)
    (waiting : ∀ nId, nId ∈ setTried ↔ ∃ slot ∈ places, addrman.vvTried slot = some nId) :
    places.foldlM (addrman.checkTried groups) setTried = .ok [] := by
  induction places generalizing setTried with
  | nil =>
    have empty : setTried = [] := List.eq_nil_iff_forall_not_mem.mpr fun nId member => by
      simpa using (waiting nId).mp member
    rw [empty]
    rfl
  | cons slot places ih =>
    rw [List.nodup_cons] at nodup
    rw [List.foldlM_cons]
    cases held : addrman.vvTried slot with
    | none =>
      have stays : addrman.checkTried groups setTried slot = .ok setTried := by
        rw [checkTried, held]
      rw [stays]
      refine ih nodup.2 nodupTried fun nId => ?_
      rw [waiting]
      simp [held]
    | some nId =>
      obtain ⟨core, found, tried, home⟩ := (healthy.sound.tables.tried slot nId).mp held
      obtain ⟨info, listed, rfl⟩ := infos_eq_some found
      have member : ¬ nId ∉ setTried := not_not.mpr ((waiting nId).mpr ⟨slot, (.head _), held⟩)
      have bucket : ¬ groups.getTriedBucket addrman.nKey info.addr ≠ slot.1 := not_not.mpr (congrArg Prod.fst home)
      have position : ¬ groups.getBucketPosition addrman.nKey false slot.1 info.addr ≠ slot.2 := by
        rw [not_not, ← not_not.mp bucket]
        exact congrArg Prod.snd home
      have erased : addrman.checkTried groups setTried slot = .ok (setTried.erase nId) := by
        simp only [checkTried, held, listed, refuse_of_not member, refuse_of_not bucket, refuse_of_not position]
        rfl
      rw [erased]
      refine ih nodup.2 (nodupTried.erase nId) fun other => ?_
      rw [nodupTried.mem_erase_iff, waiting]
      constructor
      · rintro ⟨different, place, among, there⟩
        rcases List.mem_cons.mp among with rfl | among
        · rw [held] at there
          exact absurd (Option.some.inj there).symm different
        · exact ⟨place, among, there⟩
      · rintro ⟨place, among, there⟩
        refine ⟨?_, place, .tail _ among, there⟩
        rintro rfl
        obtain ⟨again, foundAgain, -, homeAgain⟩ := (healthy.sound.tables.tried place other).mp there
        rw [found] at foundAgain
        cases foundAgain
        rw [home] at homeAgain
        exact nodup.1 (homeAgain ▸ among)

theorem foldlM_checkNew (healthy : Healthy groups ∅ addrman) (places : List NewSlot) {mapNew : AList fun _ : Nat => Int}
    (waiting : ∀ nId, mapNew.lookup nId = if places.countP (fun slot => addrman.vvNew slot = some nId) = 0 then none
      else some ((places.countP fun slot => addrman.vvNew slot = some nId : Nat) : Int)) :
    ∃ last, places.foldlM (addrman.checkNew groups) mapNew = .ok last ∧ last.entries.length = 0 := by
  induction places generalizing mapNew with
  | nil =>
    refine ⟨mapNew, rfl, List.length_eq_zero_iff.mpr (List.eq_nil_iff_forall_not_mem.mpr ?_)⟩
    rintro ⟨nId, count⟩ member
    have found : mapNew.lookup nId = some count := AList.mem_lookup_iff.mpr member
    rw [waiting] at found
    cases found
  | cons slot places ih =>
    rw [List.foldlM_cons]
    cases held : addrman.vvNew slot with
    | none =>
      have stays : addrman.checkNew groups mapNew slot = .ok mapNew := by
        rw [checkNew, held]
      rw [stays]
      refine ih fun nId => ?_
      rw [waiting]
      simp [held]
    | some nId =>
      obtain ⟨core, found, untried, home⟩ := healthy.sound.tables.new slot nId held
      obtain ⟨info, listed, rfl⟩ := infos_eq_some found
      have position : ¬ groups.getBucketPosition addrman.nKey true slot.1 info.addr ≠ slot.2 :=
        not_not.mpr (congrArg Prod.snd home)
      let count := places.countP fun place => addrman.vvNew place = some nId
      have counted : mapNew.lookup nId = some ((count + 1 : Nat) : Int) := by
        rw [waiting]
        simp [held, count]
      have taken : addrman.checkNew groups mapNew slot = .ok (if ((count + 1 : Nat) : Int) - 1 = 0 then mapNew.erase nId
            else mapNew.insert nId (((count + 1 : Nat) : Int) - 1)) := by
        simp only [checkNew, held, listed, counted, refuse_of_not position]
        rfl
      rw [taken]
      refine ih fun other => ?_
      by_cases same : other = nId
      · subst same
        by_cases last : count = 0
        · rw [if_pos (by omega), AList.lookup_erase]
          exact (if_pos last).symm
        rw [if_neg (by omega), AList.lookup_insert]
        refine Eq.trans ?_ (if_neg last).symm
        congr 1
        omega
      · have before : mapNew.lookup other = _ := waiting other
        rw [List.countP_cons_of_neg (by simp [held, Ne.symm same])] at before
        split
        · rw [AList.lookup_erase_ne same, before]
        · rw [AList.lookup_insert_ne same, before]

/-! ## The whole check -/

section

variable (healthy : Healthy groups ∅ addrman)

include healthy

theorem Healthy.counters_eq :
    addrman.counters = (addrman.mapInfo.entries.map fun entry => share groups entry.2).sum := by
  refine (sub_eq_zero.mp healthy.drift).trans ?_
  rw [expected, mapTotal]
  exact Multiset.sum_coe _

theorem Healthy.length_eq : (addrman.vRandom.length : Int) = addrman.nTried + addrman.nNew := by
  have keys : addrman.vRandom.length = addrman.mapInfo.entries.length := by
    rw [healthy.sound.index.perm.length_eq, AList.keys, List.keys, List.length_map]
  have total := sum_share groups addrman.mapInfo.entries
  rw [← healthy.counters_eq] at total
  rw [keys, ← total, add_comm]
  rfl

section Whole

variable {gathered : Gathered} (gathers : Gathers groups addrman.mapInfo.entries gathered)

include gathers

theorem Gathers.tried_waiting (nId : Nat) : nId ∈ gathered.setTried ↔
      ∃ slot ∈ slots ADDRMAN_TRIED_BUCKET_COUNT, addrman.vvTried slot = some nId := by
  rw [gathers.tried]
  constructor
  · rintro ⟨info, member, tried⟩
    have listed : addrman.mapInfo.lookup nId = some info := AList.mem_lookup_iff.mpr member
    refine ⟨groups.triedSlot addrman.nKey info.core.addr, mem_slots _, ?_⟩
    exact healthy.sound.tables.triedSlot_eq (infos_of_lookup listed) tried
  rintro ⟨slot, -, held⟩
  obtain ⟨core, found, tried, -⟩ := (healthy.sound.tables.tried slot nId).mp held
  obtain ⟨info, listed, rfl⟩ := infos_eq_some found
  exact ⟨info, AList.mem_lookup_iff.mp listed, tried⟩

theorem Gathers.new_waiting (nId : Nat) : gathered.mapNew.lookup nId =
      if (slots ADDRMAN_NEW_BUCKET_COUNT).countP (fun slot => addrman.vvNew slot = some nId) = 0 then none
      else some (((slots ADDRMAN_NEW_BUCKET_COUNT).countP
        fun slot => addrman.vvNew slot = some nId : Nat) : Int) := by
  rw [← slotCount_eq_countP (nodup_slots ADDRMAN_NEW_BUCKET_COUNT) mem_slots]
  split
  next unreferenced =>
    cases found : gathered.mapNew.lookup nId with
    | none => rfl
    | some count =>
      obtain ⟨info, member, untried, -⟩ := (gathers.new nId count).mp found
      have listed : addrman.mapInfo.lookup nId = some info := AList.mem_lookup_iff.mpr member
      have refs : info.nRefCount = slotCount addrman.vvNew nId :=
        healthy.sound.tables.refs nId info.core (infos_of_lookup listed)
      have held : 0 < info.nRefCount :=
        healthy.sound.tables.held nId info.core (infos_of_lookup listed) untried (by simp)
      omega
  next referenced =>
    rw [slotCount_eq_zero_iff] at referenced
    push Not at referenced
    obtain ⟨slot, held⟩ := referenced
    obtain ⟨core, found, untried, -⟩ := healthy.sound.tables.new slot nId held
    obtain ⟨info, listed, rfl⟩ := infos_eq_some found
    exact (gathers.new nId _).mpr ⟨info, AList.mem_lookup_iff.mp listed, untried,
      healthy.sound.tables.refs nId info.core found⟩

theorem Gathers.networks_le : gathered.localCounts.entries.length ≤ addrman.mNetworkCounts.entries.length := by
  have subset : gathered.localCounts.keys ⊆ addrman.mNetworkCounts.keys := by
    intro network member
    have used := gathers.networks network member
    have positive := (sum_share_network groups addrman.mapInfo.entries network).2.2 used
    rw [← healthy.counters_eq] at positive
    rw [← AList.mem_keys, ← AList.lookup_isSome]
    cases found : addrman.mNetworkCounts.lookup network with
    | none =>
      simp [counters, found] at positive
    | some counts => rfl
  have shorter := (gathered.localCounts.keys_nodup.subperm subset).length_le
  simpa [AList.keys, List.keys] using shorter

end Whole

theorem checkAll_eq : addrman.checkAll groups =
      if ∃ entry ∈ addrman.mapInfo.entries, Unproven entry then .error (-1)
      else if addrman.nKey.isNull = true then .error (-16) else .ok () := by
  have gathers : Gathers groups addrman.mapInfo.entries (addrman.mapInfo.entries.foldl (Gathered.adding groups) {}) :=
    gathers_foldl addrman.mapInfo.nodupKeys
  have loop := foldlM_refuse (fun entry member state => checkInfo_eq healthy member state) {}
  have counts := gathers.tally.trans healthy.counters_eq.symm
  rw [checkAll, refuse_of_not (not_not.mpr healthy.length_eq), loop]
  split
  · rfl
  generalize addrman.mapInfo.entries.foldl (Gathered.adding groups) {} = gathered at gathers counts
  have nTried : ¬ (gathered.setTried.length : Int) ≠ addrman.nTried :=
    not_not.mpr (congrArg (fun tally => tally.1.2) counts)
  have nNew : ¬ (gathered.mapNew.entries.length : Int) ≠ addrman.nNew :=
    not_not.mpr (congrArg (fun tally => tally.1.1) counts)
  have tried := foldlM_checkTried healthy (nodup_slots ADDRMAN_TRIED_BUCKET_COUNT) gathers.nodup
    (gathers.tried_waiting healthy)
  obtain ⟨mapNew, new, empty⟩ := foldlM_checkNew healthy (slots ADDRMAN_NEW_BUCKET_COUNT) (gathers.new_waiting healthy)
  have networks := not_lt.mpr (gathers.networks_le healthy)
  have same : ¬ ∃ entry ∈ addrman.mNetworkCounts.entries, (gathered.localCounts.lookup entry.1).getD {} ≠ entry.2 := by
    rintro ⟨⟨network, kept⟩, member, differs⟩
    have found : addrman.mNetworkCounts.lookup network = some kept := AList.mem_lookup_iff.mpr member
    have here := congrArg (fun tally => tally.2 network) counts
    simp only [Gathered.tally, counters, found, Option.getD_some, Prod.mk.injEq] at here
    exact differs (by cases kept; simpa [NewTriedCount.ext_iff] using here)
  simp only [ok_bind, refuse_of_not nTried, refuse_of_not nNew, tried, new, refuse_of_not same,
    refuse_of_not networks, refuse_of_not (not_not.mpr empty), refuse_of_not (not_not.mpr (Eq.refl _))]
  split
  next null =>
    rw [refuse_of null]
    rfl
  next valid =>
    rw [refuse_of_not valid]
    rfl

theorem checkAddrman_eq_zero_iff : addrman.checkAddrman groups = 0 ↔ addrman.nKey.isNull = false ∧ addrman.Proven := by
  have proven : addrman.Proven ↔ ¬ ∃ entry ∈ addrman.mapInfo.entries, Unproven entry := by
    simp [proven_iff, Unproven, ← AList.mem_lookup_iff]
  rw [checkAddrman, checkAll_eq healthy, proven]
  by_cases unproven : ∃ entry ∈ addrman.mapInfo.entries, Unproven entry
  · rw [if_pos unproven]
    exact iff_of_false (by decide) fun both => both.2 unproven
  rw [if_neg unproven]
  cases null : addrman.nKey.isNull with
  | true => simp
  | false => simp [unproven]

end

/-! ## Runs -/

/-- The times of a call are not negative, and a share of the addresses is a percentage. -/
def Call.Admissible : Call NetAddr → Prop
  | .good _ time => 0 ≤ time
  | .attempt _ _ time => 0 ≤ time
  | .resolveCollisions clock => ∀ nId, 0 ≤ clock nId
  | .getAddr _ maxPct _ _ _ _ => maxPct ≤ 100
  | _ => True

/-- The times at which a call notes a success are not zero, which stands for never. -/
def Call.Late : Call NetAddr → Prop
  | .good _ time => time ≠ 0
  | .resolveCollisions clock => ∀ nId, clock nId ≠ 0
  | _ => True

theorem call_keeps (healthy : Healthy groups ∅ addrman) {request : Call NetAddr}
    (admissible : request.Admissible) :
    ∃ after, addrman.call groups request = some after ∧ Keeps groups request.Late addrman after := by
  cases request with
  | add additions source timePenalty =>
    obtain ⟨result, ran, keeps⟩ := add_keeps healthy True additions source timePenalty
    exact ⟨result.1, by rw [call, ran, Option.map_some], keeps⟩
  | good addr time =>
    obtain ⟨result, ran, keeps⟩ := good_keeps healthy addr true admissible
    exact ⟨result.1, by rw [call, ran, Option.map_some], keeps⟩
  | attempt addr fCountFailure time =>
    exact ⟨_, rfl, attempt_keeps healthy True addr fCountFailure admissible⟩
  | connected addr time => exact ⟨_, rfl, connected_keeps healthy True addr time⟩
  | setServices addr nServices => exact ⟨_, rfl, setServices_keeps healthy True addr nServices⟩
  | resolveCollisions clock => exact resolveCollisions_keeps healthy admissible
  | selectTriedCollision draw =>
    obtain ⟨result, ran, keeps⟩ := selectTriedCollision_keeps healthy True draw
    exact ⟨result.1, by rw [call, ran, Option.map_some], keeps⟩
  | select newOnly networks randbool turns =>
    obtain ⟨result, ran⟩ := select_some healthy newOnly networks randbool turns
    exact ⟨addrman, by rw [call, ran, Option.map_some], .refl healthy True⟩
  | getAddr maxAddresses maxPct network filtered now draw =>
    obtain ⟨result, ran, keeps⟩ := getAddr_keeps healthy True maxAddresses admissible network filtered now draw
    exact ⟨result.1, by rw [call, ran, Option.map_some], keeps⟩

theorem check_eq (healthy : Healthy groups ∅ addrman) {drawn : Bool}
    (passes : drawn = false ∨ addrman.nKey.isNull = false ∧ addrman.Proven) :
    addrman.check groups drawn = some addrman := by
  refine if_neg fun failed => ?_
  rcases passes with off | fine
  · cases off.symm.trans failed.1
  · exact failed.2 ((checkAddrman_eq_zero_iff healthy).mpr fine)

/-- No check is drawn. -/
def Unchecked (requests : List (Request NetAddr)) : Prop :=
  ∀ request ∈ requests, request.before = false ∧ request.after = false

theorem requests_keep (healthy : Healthy groups ∅ addrman) {requests : List (Request NetAddr)}
    (admissible : ∀ request ∈ requests, request.call.Admissible)
    (passes : Unchecked requests ∨
      (addrman.nKey.isNull = false ∧ addrman.Proven) ∧ ∀ request ∈ requests, request.call.Late) :
    ∃ after, requests.foldlM (answer groups) addrman = some after ∧
      Keeps groups (∀ request ∈ requests, request.call.Late) addrman after := by
  induction requests generalizing addrman with
  | nil => exact ⟨addrman, rfl, .refl healthy _⟩
  | cons request requests ih =>
    obtain ⟨next, called, keeps⟩ := call_keeps healthy (admissible request (.head _))
    have fine (clear : addrman.nKey.isNull = false ∧ addrman.Proven) (late : request.call.Late) :
        next.nKey.isNull = false ∧ next.Proven :=
      ⟨keeps.nKey ▸ clear.1, keeps.proven late clear.2⟩
    have before := check_eq healthy (passes.imp (fun off => (off request (.head _)).1) And.left)
    have passed := check_eq keeps.healthy
      (passes.imp (fun off => (off request (.head _)).2) fun both => fine both.1 (both.2 request (.head _)))
    obtain ⟨after, rest, later⟩ := ih keeps.healthy (List.forall_mem_cons.mp admissible).2
      (passes.imp (fun off => (List.forall_mem_cons.mp off).2) fun both =>
        ⟨fine both.1 (both.2 request (.head _)), (List.forall_mem_cons.mp both.2).2⟩)
    refine ⟨after, ?_, later.healthy, later.nKey.trans keeps.nKey, fun late proven => ?_⟩
    · simp only [List.foldlM_cons, answer, before, called, passed, Option.bind_eq_bind, Option.bind_some, rest]
    · exact later.proven (List.forall_mem_cons.mp late).2
        (keeps.proven (late request (.head _)) proven)

/-- No assertion fails, except that of a drawn check over a null key or a success noted at time zero. No
other fault is there to be found, and an entry that waits for a tried slot finds it taken. -/
theorem run_consistent (groups : NetGroups NetAddr) (nKey : Uint256) {requests : List (Request NetAddr)}
    (admissible : ∀ request ∈ requests, request.call.Admissible)
    (passes : Unchecked requests ∨ nKey.isNull = false ∧ ∀ request ∈ requests, request.call.Late) :
    ∃ addrman, run groups nKey requests = some addrman ∧ (addrman.checkAddrman groups = 0 ↔ nKey.isNull = false ∧
        ∀ nId info, addrman.mapInfo.lookup nId = some info → info.fInTried = true → info.mLastSuccess ≠ 0) ∧
      ((∀ request ∈ requests, request.call.Late) → nKey.isNull = false → addrman.checkAddrman groups = 0) ∧
      ∀ nId ∈ addrman.mTriedCollisions, ∀ info, addrman.mapInfo.lookup nId = some info →
        ∃ idOld infoOld, addrman.vvTried (groups.triedSlot addrman.nKey info.addr) = some idOld ∧
          addrman.mapInfo.lookup idOld = some infoOld := by
  have empty : ({ nKey } : AddrMan NetAddr).Proven := fun nId info found => by cases found
  obtain ⟨addrman, ran, keeps⟩ := requests_keep (healthy_start groups nKey) admissible
    (passes.imp_right fun both => ⟨⟨both.1, empty⟩, both.2⟩)
  have key : addrman.nKey = nKey := keeps.nKey
  have checked := checkAddrman_eq_zero_iff keeps.healthy
  rw [key, proven_iff] at checked
  refine ⟨addrman, ran, checked, fun late valid => ?_, fun nId member info listed => ?_⟩
  · exact checked.mpr ⟨valid, proven_iff.mp (keeps.proven late empty)⟩
  have taken := (keeps.healthy.collisions nId member).2 info.core (infos_of_lookup listed)
  obtain ⟨idOld, held⟩ := Option.ne_none_iff_exists'.mp taken
  obtain ⟨core, found, -⟩ := (keeps.healthy.sound.tables.tried _ idOld).mp held
  obtain ⟨infoOld, listedOld, -⟩ := infos_eq_some found
  exact ⟨idOld, infoOld, held, listedOld⟩

/-- One host, whose addresses go to the first slots. -/
def oneHost : NetGroups Unit where
  isRoutable _ := true
  isValid _ := true
  getNetwork _ := .NET_IPV4
  getNetClass _ := .NET_IPV4
  getTriedBucket _ _ := 0
  getNewBucket _ _ _ := 0
  getBucketPosition _ _ _ _ := 0

/-- An address is added, and reached at the given time. The last check is drawn apart from the others. -/
def addAndReach (time : Int) (drawn last : Bool) : List (Request Unit) :=
  [⟨.add [⟨⟨⟨(), 8333⟩, 100, 1⟩, 100, 100, 0⟩] () 0, drawn, drawn⟩, ⟨.good ⟨(), 8333⟩ time, drawn, last⟩]

/-- A success at time 100 passes every check. -/
theorem run_consistent_reached : ∃ addrman, run oneHost (.ofNat 1) (addAndReach 100 true true) = some addrman ∧
      addrman.checkAddrman oneHost = 0 := by
  have admissible : ∀ request ∈ addAndReach 100 true true, request.call.Admissible := by
    simp [addAndReach, Call.Admissible]
  have late : ∀ request ∈ addAndReach 100 true true, request.call.Late := by
    simp [addAndReach, Call.Late]
  obtain ⟨addrman, ran, -, checked, -⟩ :=
    run_consistent oneHost (.ofNat 1) admissible (.inr ⟨by decide, late⟩)
  exact ⟨addrman, ran, checked late (by decide)⟩

/-- A success at time 0 is found, and ends the run if the check after it is drawn. -/
theorem reached_at_zero_fails :
    (run oneHost (.ofNat 1) (addAndReach 0 false false)).map (checkAddrman oneHost) = some (-1) ∧
      run oneHost (.ofNat 1) (addAndReach 0 false true) = none := by
  refine ⟨?_, ?_⟩ <;> decide +kernel

end AddrMan

end Sharecoin
