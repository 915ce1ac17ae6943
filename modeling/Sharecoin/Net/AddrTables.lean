import Sharecoin.Lib.Slots
import Sharecoin.Net.AddrMan

/-! The tables of new and tried addresses: which slots hold an entry, for the entries there are. What
the tables ask of the entries is kept when an entry leaves or enters a slot, goes or comes. -/

set_option autoImplicit false

namespace Sharecoin

open Lib

namespace AddrMan

variable {NetAddr : Type} {groups : NetGroups NetAddr} {nKey : Uint256}

/-- Every tried entry is in its slot; a slot of the new table that holds an entry is one where the entry
belongs, and the entry counts these slots. Loose entries may be in no slot at all. -/
structure Tables (groups : NetGroups NetAddr) (nKey : Uint256) (infos : Nat → Option (AddrInfo NetAddr))
    (vvTried : TriedSlot → Option Nat) (vvNew : NewSlot → Option Nat) (loose : Set Nat) : Prop where
  tried : ∀ slot nId, vvTried slot = some nId ↔
    ∃ info, infos nId = some info ∧ info.fInTried = true ∧ groups.triedSlot nKey info.addr = slot
  new : ∀ slot nId, vvNew slot = some nId →
    ∃ info, infos nId = some info ∧ info.fInTried = false ∧ groups.slotIn nKey info.addr slot.1 = slot
  refs : ∀ nId info, infos nId = some info → info.nRefCount = slotCount vvNew nId
  room : ∀ nId info, infos nId = some info → info.nRefCount ≤ ADDRMAN_NEW_BUCKETS_PER_ADDRESS
  held : ∀ nId info, infos nId = some info → info.fInTried = false → nId ∉ loose → 0 < info.nRefCount

namespace Tables

variable {infos : Nat → Option (AddrInfo NetAddr)} {vvTried : TriedSlot → Option Nat}
  {vvNew : NewSlot → Option Nat} {loose : Set Nat} {nId : Nat} {info changed : AddrInfo NetAddr}

theorem start : Tables groups nKey (fun _ => none) (fun _ => none) (fun _ => none) loose where
  tried slot nId := by simp
  new slot nId held := by cases held
  refs nId info found := by cases found
  room nId info found := by cases found
  held nId info found := by cases found

theorem loosen (tables : Tables groups nKey infos vvTried vvNew loose) {looser : Set Nat}
    (subset : loose ⊆ looser) : Tables groups nKey infos vvTried vvNew looser :=
  { tables with
    held := fun nId info found untried outside =>
      tables.held nId info found untried fun member => outside (subset member) }

theorem tighten (tables : Tables groups nKey infos vvTried vvNew (insert nId loose))
    (held : ∀ info, infos nId = some info → info.fInTried = false → 0 < info.nRefCount) :
    Tables groups nKey infos vvTried vvNew loose :=
  { tables with
    held := fun other info found untried outside => by
      by_cases same : other = nId
      · subst same
        exact held info found untried
      · exact tables.held other info found untried fun member =>
          (Set.mem_insert_iff.mp member).elim same outside }

section

variable (tables : Tables groups nKey infos vvTried vvNew loose)

include tables

section

variable (found : infos nId = some info)

include found

theorem tried_iff {slot : TriedSlot} :
    vvTried slot = some nId ↔ info.fInTried = true ∧ groups.triedSlot nKey info.addr = slot := by
  rw [tables.tried]
  simp only [found, Option.some.injEq, exists_eq_left']

theorem tried_still (addr : changed.addr = info.addr)
    (tried : changed.fInTried = info.fInTried) (slot : TriedSlot) : vvTried slot = some nId ↔
      ∃ info, some changed = some info ∧ info.fInTried = true ∧ groups.triedSlot nKey info.addr = slot := by
  rw [tables.tried_iff found]
  simp only [Option.some.injEq, exists_eq_left', addr, tried]

theorem new_found {slot : NewSlot} (held : vvNew slot = some nId) :
    info.fInTried = false ∧ groups.slotIn nKey info.addr slot.1 = slot := by
  obtain ⟨_, same, belongs⟩ := tables.new slot nId held
  cases found.symm.trans same
  exact belongs

theorem refs_of_tried (tried : info.fInTried = true) : info.nRefCount = 0 := by
  rw [tables.refs nId info found, Int.natCast_eq_zero, slotCount_eq_zero_iff]
  intro slot held
  cases tried.symm.trans (tables.new_found found held).1

theorem refs_nonneg : 0 ≤ info.nRefCount := by
  rw [tables.refs nId info found]
  exact Int.natCast_nonneg _

theorem not_new_of_refs (none : info.nRefCount = 0) (slot : NewSlot) : vvNew slot ≠ some nId := by
  rw [tables.refs nId info found, Int.natCast_eq_zero, slotCount_eq_zero_iff] at none
  exact none slot

theorem triedSlot_eq (tried : info.fInTried = true) : vvTried (groups.triedSlot nKey info.addr) = some nId :=
  (tables.tried_iff found).mpr ⟨tried, rfl⟩

end

theorem update {value : Option (AddrInfo NetAddr)} {triedAfter : TriedSlot → Option Nat}
    {newAfter : NewSlot → Option Nat} {looseAfter : Set Nat}
    (triedElse : ∀ other, other ≠ nId → ∀ slot, triedAfter slot = some other ↔ vvTried slot = some other)
    (newElse : ∀ other, other ≠ nId → ∀ slot, newAfter slot = some other ↔ vvNew slot = some other)
    (looseElse : loose ⊆ insert nId looseAfter)
    (triedHere : ∀ slot, triedAfter slot = some nId ↔
      ∃ info, value = some info ∧ info.fInTried = true ∧ groups.triedSlot nKey info.addr = slot)
    (newHere : ∀ slot, newAfter slot = some nId →
      ∃ info, value = some info ∧ info.fInTried = false ∧ groups.slotIn nKey info.addr slot.1 = slot)
    (here : ∀ info, value = some info → info.nRefCount = slotCount newAfter nId ∧
      info.nRefCount ≤ ADDRMAN_NEW_BUCKETS_PER_ADDRESS ∧
      (info.fInTried = false → nId ∉ looseAfter → 0 < info.nRefCount)) :
    Tables groups nKey (Function.update infos nId value) triedAfter newAfter looseAfter := by
  constructor
  · intro slot other
    by_cases same : other = nId
    · subst same
      rw [Function.update_self]
      exact triedHere slot
    · rw [Function.update_of_ne same]
      exact (triedElse other same slot).trans (tables.tried slot other)
  · intro slot other held
    by_cases same : other = nId
    · subst same
      rw [Function.update_self]
      exact newHere slot held
    · rw [Function.update_of_ne same]
      exact tables.new slot other ((newElse other same slot).mp held)
  · intro other info found
    rcases update_cases found with ⟨rfl, own⟩ | ⟨same, found⟩
    · exact (here info own).1
    · rw [tables.refs other info found, slotCount_congr (newElse other same)]
  · intro other info found
    rcases update_cases found with ⟨rfl, own⟩ | ⟨-, found⟩
    · exact (here info own).2.1
    · exact tables.room other info found
  · intro other info found untried outside
    rcases update_cases found with ⟨rfl, own⟩ | ⟨same, found⟩
    · exact (here info own).2.2 untried outside
    · exact tables.held other info found untried fun member => (looseElse member).elim same outside

theorem change (found : infos nId = some info) (addr : changed.addr = info.addr)
    (tried : changed.fInTried = info.fInTried) (refs : changed.nRefCount = info.nRefCount) :
    Tables groups nKey (Function.update infos nId (some changed)) vvTried vvNew loose := by
  refine tables.update (fun _ _ _ => .rfl) (fun _ _ _ => .rfl) (Set.subset_insert _ _)
    (tables.tried_still found addr tried) (fun slot held => ?_) ?_
  · obtain ⟨untried, place⟩ := tables.new_found found held
    exact ⟨changed, rfl, tried.trans untried, addr ▸ place⟩
  · rintro _ ⟨⟩
    rw [refs, tried]
    exact ⟨tables.refs nId info found, tables.room nId info found, tables.held nId info found⟩

theorem leave {slot : NewSlot} (found : infos nId = some info) (held : vvNew slot = some nId) : Tables groups nKey
      (Function.update infos nId (some { info with nRefCount := info.nRefCount - 1 })) vvTried
      (Function.update vvNew slot none) (insert nId loose) := by
  have counted := slotCount_empty held
  have refs := tables.refs nId info found
  have room := tables.room nId info found
  refine tables.update (fun _ _ _ => .rfl) (fun other different => ?_) (by simp)
    (tables.tried_still found rfl rfl) (fun cell still => ?_) ?_
  · exact update_eq_some_iff (fun same => different (Option.some.inj (held ▸ same)).symm) (by simp)
  · rcases update_cases still with ⟨-, impossible⟩ | ⟨-, still⟩
    · cases impossible
    · exact ⟨_, rfl, tables.new_found found still⟩
  · rintro _ ⟨⟩
    dsimp only
    exact ⟨by omega, by omega, fun _ outside => absurd (Set.mem_insert nId loose) outside⟩

theorem leaveTried (found : infos nId = some info) (tried : info.fInTried = true) :
    Tables groups nKey (Function.update infos nId (some { info with fInTried := false }))
      (Function.update vvTried (groups.triedSlot nKey info.addr) none) vvNew (insert nId loose) := by
  have here := tables.triedSlot_eq found tried
  have refs := tables.refs nId info found
  have room := tables.room nId info found
  refine tables.update (fun other different => ?_) (fun _ _ _ => .rfl) (by simp) (fun slot => ?_)
    (fun slot held => ?_) ?_
  · exact update_eq_some_iff (fun same => different (Option.some.inj (here ▸ same)).symm) (by simp)
  · refine iff_of_false (fun held => ?_) (by simp)
    rcases update_cases held with ⟨-, impossible⟩ | ⟨same, held⟩
    · cases impossible
    · exact same ((tables.tried_iff found).mp held).2.symm
  · cases tried.symm.trans (tables.new_found found held).1
  · rintro _ ⟨⟩
    exact ⟨refs, room, fun _ outside => absurd (Set.mem_insert nId loose) outside⟩

theorem create (fresh : infos nId = none) (untried : info.fInTried = false) (none : info.nRefCount = 0) :
    Tables groups nKey (Function.update infos nId (some info)) vvTried vvNew (insert nId loose) := by
  have absent (slot : NewSlot) : vvNew slot ≠ some nId := by
    intro held
    obtain ⟨before, same, -⟩ := tables.new slot nId held
    rw [fresh] at same
    cases same
  refine tables.update (fun _ _ _ => .rfl) (fun _ _ _ => .rfl) (by simp) (fun slot => ?_)
    (fun slot held => absurd held (absent slot)) ?_
  · rw [tables.tried]
    refine iff_of_false ?_ ?_
    · rintro ⟨before, same, -⟩
      rw [fresh] at same
      cases same
    · rintro ⟨_, ⟨⟩, tried, -⟩
      rw [untried] at tried
      cases tried
  · rintro _ ⟨⟩
    rw [none, slotCount_eq_zero_iff.mpr absent]
    exact ⟨rfl, by decide, fun _ outside => absurd (Set.mem_insert nId loose) outside⟩

end

section

variable (tables : Tables groups nKey infos vvTried vvNew (insert nId loose))
  (found : infos nId = some info) (untried : info.fInTried = false)

include tables found untried

theorem enter {slot : NewSlot} (few : info.nRefCount < ADDRMAN_NEW_BUCKETS_PER_ADDRESS) (empty : vvNew slot = none)
    (place : groups.slotIn nKey info.addr slot.1 = slot) :
    Tables groups nKey (Function.update infos nId (some { info with nRefCount := info.nRefCount + 1 })) vvTried
      (Function.update vvNew slot (some nId)) loose := by
  have counted : slotCount (Function.update vvNew slot (some nId)) nId = slotCount vvNew nId + 1 :=
    slotCount_fill empty
  have refs := tables.refs nId info found
  refine tables.update (fun _ _ _ => .rfl) (fun other different => ?_) subset_rfl
    (tables.tried_still found rfl rfl) (fun cell still => ?_) ?_
  · exact update_eq_some_iff (by simp [empty]) fun same => different (Option.some.inj same).symm
  · refine ⟨_, rfl, untried, ?_⟩
    rcases update_cases still with ⟨rfl, -⟩ | ⟨-, still⟩
    · exact place
    · exact (tables.new_found found still).2
  · rintro _ ⟨⟩
    dsimp only
    exact ⟨by omega, by omega, fun _ _ => by omega⟩

theorem enterTried (none : info.nRefCount = 0) (empty : vvTried (groups.triedSlot nKey info.addr) = Option.none) :
    Tables groups nKey (Function.update infos nId (some { info with fInTried := true }))
      (Function.update vvTried (groups.triedSlot nKey info.addr) (some nId)) vvNew loose := by
  refine tables.update (fun other different => ?_) (fun _ _ _ => .rfl) subset_rfl (fun slot => ?_)
    (fun slot held => ?_) ?_
  · exact update_eq_some_iff (by simp [empty]) fun same => different (Option.some.inj same).symm
  · by_cases same : slot = groups.triedSlot nKey info.addr
    · rw [same, Function.update_self]
      exact iff_of_true rfl ⟨_, rfl, rfl, rfl⟩
    rw [Function.update_of_ne same, tables.tried_iff found, untried]
    refine iff_of_false (by simp) ?_
    rintro ⟨_, ⟨⟩, -, place⟩
    exact same place.symm
  · exact absurd held (tables.not_new_of_refs found none slot)
  · rintro _ ⟨⟩
    refine ⟨tables.refs nId info found, tables.room nId info found, ?_⟩
    intro tried
    cases tried

theorem delete (none : info.nRefCount = 0) :
    Tables groups nKey (Function.update infos nId Option.none) vvTried vvNew loose := by
  refine tables.update (fun _ _ _ => .rfl) (fun _ _ _ => .rfl) subset_rfl (fun slot => ?_) (fun slot held => ?_) ?_
  · rw [tables.tried_iff found, untried]
    exact iff_of_false (by simp) (by simp)
  · exact absurd held (tables.not_new_of_refs found none slot)
  · intro _ gone
    cases gone

end

end Tables

end AddrMan

end Sharecoin
