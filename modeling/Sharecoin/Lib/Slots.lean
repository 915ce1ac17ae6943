import Mathlib.Algebra.BigOperators.Group.Finset.Piecewise
import Mathlib.Data.Fintype.Card
import Mathlib.Data.Fintype.Prod

/-! Tables of slots that hold keys: how many slots hold a key, and how this changes with a slot. -/

set_option autoImplicit false

namespace Sharecoin.Lib

variable {S K : Type} {key : K} {value : Option K}

/-- A slot that neither held nor holds the key does not count. -/
theorem update_eq_some_iff [DecidableEq S] {table : S → Option K} {slot : S}
    (before : table slot ≠ some key) (after : value ≠ some key) (place : S) :
    Function.update table slot value place = some key ↔ table place = some key := by
  by_cases same : place = slot
  · subst same
    rw [Function.update_self]
    exact iff_of_false after before
  · rw [Function.update_of_ne same]

theorem update_cases [DecidableEq S] {table : S → Option K} {slot place : S}
    (found : Function.update table slot value place = some key) :
    (place = slot ∧ value = some key) ∨ (place ≠ slot ∧ table place = some key) := by
  by_cases same : place = slot
  · subst same
    exact .inl ⟨rfl, by rwa [Function.update_self] at found⟩
  · exact .inr ⟨same, by rwa [Function.update_of_ne same] at found⟩

variable [Fintype S] [DecidableEq K]

def slotCount (table : S → Option K) (key : K) : Nat :=
  (Finset.univ.filter fun slot => table slot = some key).card

variable {table : S → Option K} {slot : S} {key : K}

theorem slotCount_eq_zero_iff : slotCount table key = 0 ↔ ∀ slot, table slot ≠ some key := by
  simp [slotCount, Finset.filter_eq_empty_iff]

theorem slotCount_congr {changed : S → Option K} (same : ∀ slot, changed slot = some key ↔ table slot = some key) :
    slotCount changed key = slotCount table key :=
  congrArg Finset.card (Finset.filter_congr fun slot _ => same slot)

variable [DecidableEq S]

theorem slotCount_fill (empty : table slot = none) :
    slotCount (Function.update table slot (some key)) key = slotCount table key + 1 := by
  have filled : (Finset.univ.filter fun place => Function.update table slot (some key) place = some key) =
      insert slot (Finset.univ.filter fun place => table place = some key) := by
    ext place
    by_cases same : place = slot
    · simp [same]
    · simp [same]
  unfold slotCount
  rw [filled, Finset.card_insert_of_notMem (by simp [empty])]

theorem slotCount_empty (held : table slot = some key) :
    slotCount (Function.update table slot none) key + 1 = slotCount table key := by
  rw [← slotCount_fill (Function.update_self slot none table), Function.update_idem]
  rw [← held, Function.update_eq_self]

theorem slotCount_eq_countP {slots : List S} (nodup : slots.Nodup) (all : ∀ slot, slot ∈ slots)
    (table : S → Option K) (key : K) : slotCount table key = slots.countP fun slot => table slot = some key := by
  have complete : (Finset.univ : Finset S) = slots.toFinset := by
    ext slot
    simp [all slot]
  have listed : (slots.toFinset.filter fun slot => table slot = some key) =
      (slots.filter fun slot => table slot = some key).toFinset := by
    ext slot
    simp
  rw [slotCount, complete, listed, List.toFinset_card_of_nodup (nodup.filter _), List.countP_eq_length_filter]

end Sharecoin.Lib
