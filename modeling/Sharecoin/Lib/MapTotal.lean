import Mathlib.Algebra.BigOperators.Group.Multiset.Basic
import Mathlib.Data.Finmap
import Mathlib.Tactic.Abel

/-! The sum of a weight over all values of a finite map, and how insertions and
removals change it. -/

set_option autoImplicit false

namespace Sharecoin.Lib

variable {K V M : Type} [DecidableEq K] [AddCommMonoid M] (weight : V → M)

def mapTotal (values : Finmap fun _ : K => V) : M :=
  (values.entries.map fun entry => weight entry.2).sum

variable {weight} {values : Finmap fun _ : K => V} {key : K} {value : V}

theorem mapTotal_insert (absent : values.lookup key = none) :
    mapTotal weight (values.insert key value) = weight value + mapTotal weight values := by
  rw [mapTotal, Finmap.entries_insert_of_notMem (Finmap.lookup_eq_none.mp absent), Multiset.map_cons, Multiset.sum_cons]
  rfl

theorem insert_erase_of_lookup (found : values.lookup key = some value) :
    (values.erase key).insert key value = values := by
  apply Finmap.ext_lookup
  intro other
  by_cases same : other = key
  · subst same
    rw [Finmap.lookup_insert, found]
  · rw [Finmap.lookup_insert_of_ne _ same, Finmap.lookup_erase_ne same]

theorem erase_insert_of_lookup (absent : values.lookup key = none) : (values.insert key value).erase key = values := by
  apply Finmap.ext_lookup
  intro other
  by_cases same : other = key
  · subst same
    rw [Finmap.lookup_erase, absent]
  · rw [Finmap.lookup_erase_ne same, Finmap.lookup_insert_of_ne _ same]

theorem mapTotal_erase (found : values.lookup key = some value) :
    mapTotal weight values = weight value + mapTotal weight (values.erase key) := by
  rw [← mapTotal_insert (Finmap.lookup_erase key values), insert_erase_of_lookup found]

theorem mapTotal_change {changed : V} (found : values.lookup key = some value) :
    mapTotal weight (values.insert key changed) + weight value = mapTotal weight values + weight changed := by
  have again : values.insert key changed = (values.erase key).insert key changed := by
    apply Finmap.ext_lookup
    intro other
    by_cases same : other = key
    · subst same
      rw [Finmap.lookup_insert, Finmap.lookup_insert]
    · rw [Finmap.lookup_insert_of_ne _ same, Finmap.lookup_insert_of_ne _ same, Finmap.lookup_erase_ne same]
  rw [again, mapTotal_insert (Finmap.lookup_erase key values), mapTotal_erase found]
  abel

end Sharecoin.Lib
