import Mathlib

/-! Ordered maps whose insertion keeps the value already present, and what a chain of such
insertions leaves: at every key, the first value that any of the maps gives. -/

set_option autoImplicit false

namespace Sharecoin.Lib

open Std (ExtTreeMap TransCmp LawfulEqCmp)

/-! ## Orders on keys -/

theorem lawfulEqCmp_compareOn {α β : Type} [Ord β] [Std.LawfulEqOrd β] {image : α → β}
    (injective : Function.Injective image) : LawfulEqCmp (compareOn image) where
  compare_self := Std.ReflCmp.compare_self
  eq_of_compare same := injective (Std.LawfulEqCmp.eq_of_compare same)

/-- Pairs compared by their first parts, and by their second ones where these are equal. -/
abbrev comparePair {α β : Type} [Ord α] [Ord β] : α × β → α × β → Ordering :=
  compareLex (compareOn Prod.fst) (compareOn Prod.snd)

instance {α β : Type} [Ord α] [Ord β] [Std.LawfulEqOrd α] [Std.LawfulEqOrd β] :
    LawfulEqCmp (comparePair (α := α) (β := β)) where
  compare_self := by simp [comparePair, compareLex, compareOn]
  eq_of_compare {left right} same := by
    simp only [comparePair, compareLex, compareOn, Ordering.then_eq_eq] at same
    exact Prod.ext (Std.LawfulEqCmp.eq_of_compare same.1) (Std.LawfulEqCmp.eq_of_compare same.2)

/-! ## Insertion that keeps what is there -/

section Maps

variable {κ ι ν : Type} {cmp : κ → κ → Ordering} {inner : ι → ι → Ordering}

/-- `this.insert(other.begin(), other.end())`. -/
def keepFirst [TransCmp cmp] (this other : ExtTreeMap κ ν cmp) : ExtTreeMap κ ν cmp := other ∪ this

@[simp] theorem getElem?_keepFirst [TransCmp cmp] (this other : ExtTreeMap κ ν cmp) (key : κ) :
    (keepFirst this other)[key]? = this[key]?.or other[key]? :=
  ExtTreeMap.getElem?_union

variable [TransCmp cmp] [TransCmp inner]

/-- Every inner map of `other` inserted into the one under the same key, which is made where
it is missing. -/
def mergeNested (this other : ExtTreeMap κ (ExtTreeMap ι ν inner) cmp) : ExtTreeMap κ (ExtTreeMap ι ν inner) cmp :=
  other.toList.foldl (fun merged entry => merged.alter entry.1 fun found =>
      some (keepFirst (found.getD ∅) entry.2))
    this

def lookupNested (nested : ExtTreeMap κ (ExtTreeMap ι ν inner) cmp) (outer : κ) (key : ι) : Option ν :=
  nested[outer]?.bind (·[key]?)

variable [LawfulEqCmp cmp]

private theorem lookupNested_alter (nested : ExtTreeMap κ (ExtTreeMap ι ν inner) cmp)
    (entry : κ × ExtTreeMap ι ν inner) (outer : κ) (key : ι) :
    lookupNested (nested.alter entry.1 fun found => some (keepFirst (found.getD ∅) entry.2))
        outer key =
      if cmp entry.1 outer = .eq then (lookupNested nested outer key).or entry.2[key]?
      else lookupNested nested outer key := by
  simp only [lookupNested, ExtTreeMap.getElem?_alter]
  split
  next same =>
    cases LawfulEqCmp.eq_of_compare same
    cases nested[entry.1]? <;> simp
  next => rfl

private theorem lookupNested_foldl (entries : List (κ × ExtTreeMap ι ν inner))
    (distinct : entries.Pairwise fun left right => ¬ cmp left.1 right.1 = .eq)
    (nested : ExtTreeMap κ (ExtTreeMap ι ν inner) cmp) (outer : κ) (key : ι) :
    lookupNested (entries.foldl (fun merged entry => merged.alter entry.1 fun found =>
          some (keepFirst (found.getD ∅) entry.2))
        nested) outer key =
      (lookupNested nested outer key).or ((entries.find? fun entry => cmp entry.1 outer == .eq).bind (·.2[key]?)) := by
  induction entries generalizing nested with
  | nil => simp
  | cons entry entries ih =>
    obtain ⟨apart, distinct⟩ := List.pairwise_cons.mp distinct
    rw [List.foldl_cons, ih distinct, lookupNested_alter]
    by_cases same : cmp entry.1 outer = .eq
    · -- the later entries have other keys
      have gone : entries.find? (fun later => cmp later.1 outer == .eq) = none := by
        apply List.find?_eq_none.mpr
        intro later listed found
        have sameKey := LawfulEqCmp.eq_of_compare (beq_iff_eq.mp found)
        exact apart later listed (sameKey ▸ same)
      simp [same, gone]
    · simp [same]

theorem lookupNested_mergeNested (this other : ExtTreeMap κ (ExtTreeMap ι ν inner) cmp) (outer : κ) (key : ι) :
    lookupNested (mergeNested this other) outer key =
      (lookupNested this outer key).or (lookupNested other outer key) := by
  rw [mergeNested, lookupNested_foldl _ ExtTreeMap.distinct_keys_toList]
  congr 1
  cases found : other.toList.find? fun entry => cmp entry.1 outer == .eq with
  | none =>
    have missing : other[outer]? = none := by
      apply ExtTreeMap.getElem?_eq_none
      rw [← ExtTreeMap.find?_toList_eq_none_iff_not_mem]
      simpa [LawfulEqCmp.compare_eq_iff_eq, eq_comm] using found
    simp [lookupNested, missing]
  | some entry =>
    have listed := List.mem_of_find?_eq_some found
    have same := List.find?_some found
    simp only [beq_iff_eq, LawfulEqCmp.compare_eq_iff_eq] at same
    subst same
    have value := ExtTreeMap.mem_toList_iff_getElem?_eq_some.mp listed
    simp [lookupNested, value]

end Maps

/-! ## Chains of merges -/

section Chains

variable {α : Type} {merge : α → α → α}

/-- Two lists merged item by item; the second one is read only as far as the first one goes. -/
def mergeEach (merge : α → α → α) : List α → List α → List α
  | item :: items, other :: others => merge item other :: mergeEach merge items others
  | items, _ => items

theorem getElem?_mergeEach (items others : List α) (index : Nat) : (mergeEach merge items others)[index]? =
      items[index]?.map fun item => (others[index]?.map (merge item)).getD item := by
  induction items generalizing others index with
  | nil => simp [mergeEach]
  | cons item items ih =>
    cases others with
    | nil => cases found : (item :: items)[index]? <;> simp [mergeEach, found]
    | cons other others =>
      cases index with
      | zero => simp [mergeEach]
      | succ index => simpa [mergeEach] using ih others index

theorem length_mergeEach (items others : List α) : (mergeEach merge items others).length = items.length := by
  induction items generalizing others with
  | nil => simp [mergeEach]
  | cons item items ih => cases others <;> simp [mergeEach, ih]

end Chains

end Sharecoin.Lib
