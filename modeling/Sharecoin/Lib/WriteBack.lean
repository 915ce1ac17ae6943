import Mathlib.Data.Option.Basic

/-! One key of a write-back cache with the flags DIRTY and FRESH. A slot holds a
value, or the mark of a removed one. `Tracks slot below here` says that a layer
with this slot turns the content `below` of its backing store into `here`. The
rules of this file say what every cache operation does to the three. -/

set_option autoImplicit false

namespace Sharecoin.Lib

/-- A cached value, or `none` for a removed one. -/
structure Slot (V : Type) where
  value : Option V
  dirty : Bool
  fresh : Bool

/-- The states of a key. A fresh slot has nothing below it, a removed one is dirty
and not fresh, and a clean one repeats what is below. -/
inductive Tracks {V : Type} : Option (Slot V) → Option V → Option V → Prop where
  | absent (below : Option V) : Tracks none below below
  | clean (value : V) : Tracks (some ⟨some value, false, false⟩) (some value) (some value)
  | fresh (value : V) : Tracks (some ⟨some value, true, true⟩) none (some value)
  | dirty (value below : Option V) : Tracks (some ⟨value, true, false⟩) below value

namespace Tracks

variable {V : Type} {slot : Option (Slot V)} {below here : Option V}

theorem value_eq {cached : Slot V} (tracks : Tracks (some cached) below here) : cached.value = here := by
  cases tracks <;> rfl

theorem absent_eq (tracks : Tracks (none : Option (Slot V)) below here) : here = below := by
  cases tracks
  rfl

section

variable {cached : Slot V} (tracks : Tracks (some cached) below here)

include tracks

theorem clean_eq (clean : cached.dirty = false) : here = below := by
  cases tracks with
  | clean value => rfl
  | fresh value => cases clean
  | dirty value below => cases clean

theorem dirty_of_fresh (fresh : cached.fresh = true) : cached.dirty = true := by
  cases tracks with
  | clean value => cases fresh
  | fresh value => rfl
  | dirty value below => rfl

theorem removed_flags (removed : cached.value = none) : cached.dirty = true ∧ cached.fresh = false := by
  cases tracks with
  | clean value => cases removed
  | fresh value => cases removed
  | dirty value below => exact ⟨rfl, rfl⟩

end

theorem fetch {value : V} (tracks : Tracks (none : Option (Slot V)) (some value) here) :
    Tracks (some ⟨some value, false, false⟩) (some value) here := by
  cases tracks
  exact .clean value

theorem add {overwrite : Bool} (tracks : Tracks slot below here) (value : V)
    (admissible : overwrite = true ∨ here = none) :
    Tracks (some ⟨some value, true, (slot.elim false Slot.fresh) || !overwrite && !(slot.elim false Slot.dirty)⟩)
      below (some value) := by
  cases tracks with
  | absent below =>
    cases overwrite with
    | true => exact .dirty (some value) below
    | false =>
      rcases admissible with impossible | nothing
      · cases impossible
      · cases nothing
        exact .fresh value
  | clean old =>
    rcases admissible with rfl | impossible
    · exact .dirty (some value) (some old)
    · cases impossible
  | fresh old => exact .fresh value
  | dirty old below => cases overwrite <;> exact .dirty (some value) below

theorem remove {cached : Slot V} (tracks : Tracks (some cached) below here) :
    Tracks (if cached.fresh then none else some ⟨none, true, false⟩) below none := by
  cases tracks with
  | clean value => exact .dirty none (some value)
  | fresh value => exact .absent none
  | dirty value below => exact .dirty none below

/-- What a parent makes of a dirty slot of its child; `none` is the exception. -/
def merge (parent : Option (Slot V)) (child : Slot V) : Option (Option (Slot V)) :=
  match parent with
  | none =>
    if child.fresh && child.value.isNone then some none
    else some (some ⟨child.value, true, child.fresh⟩)
  | some old =>
    if child.fresh && old.value.isSome then none
    else if old.fresh && child.value.isNone then some none
    else some (some ⟨child.value, true, old.fresh⟩)

/-- Writing a child's slot back into its parent gives the parent the content of the
child, and the exception cannot occur. -/
theorem write_back {parent : Option (Slot V)} {deeper : Option V} {child : Slot V}
    (outer : Tracks parent deeper below) (inner : Tracks (some child) below here) (changed : child.dirty = true) :
    ∃ merged, merge parent child = some merged ∧ Tracks merged deeper here := by
  cases inner with
  | clean value => cases changed
  | fresh value =>
    cases outer with
    | absent => exact ⟨_, rfl, .fresh value⟩
    | dirty => exact ⟨_, rfl, .dirty (some value) deeper⟩
  | dirty =>
    cases outer with
    | absent =>
      cases here with
      | none => exact ⟨_, rfl, .dirty none below⟩
      | some value => exact ⟨_, rfl, .dirty (some value) below⟩
    | clean old =>
      cases here with
      | none => exact ⟨_, rfl, .dirty none (some old)⟩
      | some value => exact ⟨_, rfl, .dirty (some value) (some old)⟩
    | fresh old =>
      cases here with
      | none => exact ⟨_, rfl, .absent none⟩
      | some value => exact ⟨_, rfl, .fresh value⟩
    | dirty =>
      cases here with
      | none => exact ⟨_, rfl, .dirty none deeper⟩
      | some value => exact ⟨_, rfl, .dirty (some value) deeper⟩

end Tracks

end Sharecoin.Lib
