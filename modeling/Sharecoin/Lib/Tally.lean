import Mathlib.Algebra.BigOperators.Group.Finset.Basic
import Mathlib.Algebra.BigOperators.Group.Finset.Piecewise
import Mathlib.Algebra.BigOperators.Group.List.Basic
import Mathlib.Algebra.Order.BigOperators.Group.Finset
import Mathlib.Data.Finset.Dedup

/-! Totals over a list of entries: by a key of the entries, and over the distinct values of
a key; and the greatest entry by a comparison. -/

set_option autoImplicit false

namespace Sharecoin.Lib

/-! ## The greatest entry -/

section Greatest

variable {α : Type} {less : α → α → Bool} {items : List α} {item first : α}

/-- The entry that no other one is greater than, the earliest of several. -/
def greatest (less : α → α → Bool) : List α → Option α
  | [] => none
  | first :: items => some (items.foldl (fun best item => if less best item then item else best) first)

theorem foldl_greatest_mem (less : α → α → Bool) (first : α) (items : List α) :
    items.foldl (fun best item => if less best item then item else best) first ∈ first :: items := by
  induction items generalizing first with
  | nil => exact .head _
  | cons item items ih =>
    rw [List.foldl_cons]
    rcases List.mem_cons.mp (ih (if less first item then item else first)) with same | member
    · rw [same]
      split <;> simp
    · exact .tail _ (.tail _ member)

theorem greatest_mem (found : greatest less items = some item) : item ∈ items := by
  cases items with
  | nil => cases found
  | cons first items =>
    cases found
    exact foldl_greatest_mem less first items

theorem greatest_isSome (nonempty : items ≠ []) : ∃ item, greatest less items = some item := by
  obtain ⟨first, rest, rfl⟩ := List.exists_cons_of_ne_nil nonempty
  exact ⟨_, rfl⟩

theorem measure_le_greatest {β : Type} [LinearOrder β] (measure : α → β)
    (rises : ∀ left ∈ items, ∀ right ∈ items, less left right = true → measure left ≤ measure right)
    (falls : ∀ left ∈ items, ∀ right ∈ items, less left right = false → measure right ≤ measure left)
    (found : greatest less items = some item) {other : α} (member : other ∈ items) :
    measure other ≤ measure item := by
  cases items with
  | nil => cases found
  | cons first items =>
    cases found
    induction items generalizing first other with
    | nil =>
      rw [List.mem_singleton.mp member]
      exact le_rfl
    | cons second items ih =>
      rw [List.foldl_cons]
      -- The better of the first two stands for both of them from here on.
      generalize picked : (if less first second then second else first) = better
      have among : better = first ∨ better = second := by
        rw [← picked]
        split <;> simp
      have kept : ∀ entry ∈ better :: items, entry ∈ first :: second :: items := by
        intro entry inside
        rcases List.mem_cons.mp inside with rfl | inside
        · rcases among with same | same <;> rw [same] <;> simp
        · exact .tail _ (.tail _ inside)
      have first_le : measure first ≤ measure better := by
        rw [← picked]
        split
        next lower => exact rises first (by simp) second (by simp) lower
        next => exact le_rfl
      have second_le : measure second ≤ measure better := by
        rw [← picked]
        split
        next => exact le_rfl
        next higher => exact falls first (by simp) second (by simp) (Bool.not_eq_true _ ▸ higher)
      have rest : ∀ entry ∈ better :: items, _ := fun entry => @ih entry better
        (fun left inside right also => rises left (kept left inside) right (kept right also))
        (fun left inside right also => falls left (kept left inside) right (kept right also))
      rcases List.mem_cons.mp member with rfl | member
      · exact first_le.trans (rest _ (.head _))
      · rcases List.mem_cons.mp member with rfl | member
        · exact second_le.trans (rest _ (.head _))
        · exact rest _ (.tail _ member)

end Greatest

/-! ## Totals by key -/

section Totals

variable {α κ M : Type} [DecidableEq κ]

def totalOf [AddCommMonoid M] (key : α → κ) (value : α → M) (items : List α) (wanted : κ) : M :=
  ((items.filter fun item => key item = wanted).map value).sum

def distinctTotal [AddCommMonoid M] (key : α → κ) (value : κ → M) (items : List α) : M :=
  ∑ wanted ∈ (items.map key).toFinset, value wanted

variable {key : α → κ} {items : List α} {item : α}

theorem totalOf_cons [AddCommMonoid M] (value : α → M) (wanted : κ) : totalOf key value (item :: items) wanted =
      (if key item = wanted then value item else 0) + totalOf key value items wanted := by
  unfold totalOf
  rw [List.filter_cons]
  by_cases same : key item = wanted <;> simp [same]

theorem sum_totalOf [AddCommMonoid M] (value : α → M) {keys : Finset κ} (covered : ∀ item ∈ items, key item ∈ keys) :
    ∑ wanted ∈ keys, totalOf key value items wanted = (items.map value).sum := by
  induction items with
  | nil => simp [totalOf]
  | cons item items ih =>
    have rest := ih (List.forall_mem_cons.mp covered).2
    simp only [totalOf_cons, Finset.sum_add_distrib, rest, List.map_cons, List.sum_cons]
    rw [Finset.sum_ite_eq, if_pos (covered item (.head _))]

variable {value : κ → M} {others : List α}

theorem distinctTotal_cons_of_mem [AddCommMonoid M] (known : key item ∈ items.map key) :
    distinctTotal key value (item :: items) = distinctTotal key value items := by
  unfold distinctTotal
  rw [List.map_cons, List.toFinset_cons, Finset.insert_eq_of_mem (List.mem_toFinset.mpr known)]

theorem distinctTotal_cons_of_notMem [AddCommMonoid M] (fresh : key item ∉ items.map key) :
    distinctTotal key value (item :: items) = value (key item) + distinctTotal key value items := by
  unfold distinctTotal
  rw [List.map_cons, List.toFinset_cons, Finset.sum_insert fun member => fresh (List.mem_toFinset.mp member)]

theorem distinctTotal_perm [AddCommMonoid M]
    (perm : items.Perm others) : distinctTotal key value items = distinctTotal key value others := by
  unfold distinctTotal
  rw [List.toFinset_eq_of_perm _ _ (perm.map key)]

theorem totalOf_perm [AddCommMonoid M] {value : α → M} {wanted : κ}
    (perm : items.Perm others) : totalOf key value items wanted = totalOf key value others wanted :=
  ((perm.filter _).map value).sum_eq

theorem distinctTotal_le_sum [AddCommMonoid M] [PartialOrder M] [IsOrderedAddMonoid M]
    (nonneg : ∀ wanted, 0 ≤ value wanted) :
    distinctTotal key value items ≤ (items.map fun item => value (key item)).sum := by
  induction items with
  | nil => simp [distinctTotal]
  | cons item items ih =>
    rw [List.map_cons, List.sum_cons]
    by_cases known : key item ∈ items.map key
    · rw [distinctTotal_cons_of_mem known]
      exact ih.trans (le_add_of_nonneg_left (nonneg _))
    · rw [distinctTotal_cons_of_notMem known]
      exact add_le_add_right ih _

end Totals

end Sharecoin.Lib
