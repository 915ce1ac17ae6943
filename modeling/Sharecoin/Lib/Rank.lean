import Mathlib.Data.Int.CardIntervalMod
import Mathlib.Data.List.GetD
import Mathlib.Data.List.Sort

/-! Order statistics by counting, and how many of some consecutive numbers fall into one residue
class. -/

set_option autoImplicit false

namespace Sharecoin.Lib

section Rank

variable {α : Type} [LinearOrder α] {bound other : α} {rank : Nat}

theorem le_getElem_iff_of_sorted {sorted : List α} (ordered : sorted.Pairwise (· ≤ ·)) (inside : rank < sorted.length) :
    bound ≤ sorted[rank] ↔ sorted.length - rank ≤ sorted.countP (bound ≤ ·) := by
  induction sorted generalizing rank with
  | nil => cases inside
  | cons head rest ih =>
    obtain ⟨least, restOrdered⟩ := List.pairwise_cons.mp ordered
    by_cases large : bound ≤ head
    · have every : ∀ value ∈ head :: rest, decide (bound ≤ value) = true :=
        List.forall_mem_cons.mpr ⟨decide_eq_true large, fun value later => decide_eq_true (large.trans (least value later))⟩
      rw [List.countP_eq_length.mpr every]
      exact iff_of_true (of_decide_eq_true (every _ (List.getElem_mem inside))) (Nat.sub_le _ _)
    · rw [List.countP_cons_of_neg (by simpa using large)]
      cases rank with
      | zero =>
        have fewer := @List.countP_le_length _ (bound ≤ ·) rest
        refine iff_of_false large ?_
        rw [List.length_cons]
        omega
      | succ rank =>
        rw [List.getElem_cons_succ, ih restOrdered (Nat.lt_of_succ_lt_succ inside), List.length_cons,
          Nat.add_sub_add_right]

theorem le_getD_insertionSort_iff {values : List α} (inside : rank < values.length) :
    bound ≤ (values.insertionSort (· ≤ ·)).getD rank other ↔ values.length - rank ≤ values.countP (bound ≤ ·) := by
  have same := List.perm_insertionSort (· ≤ ·) values
  have placed : rank < (values.insertionSort (· ≤ ·)).length := same.length_eq.symm ▸ inside
  rw [← same.countP_eq, ← same.length_eq, List.getD_eq_getElem _ _ placed]
  exact le_getElem_iff_of_sorted (List.pairwise_insertionSort _ _) placed

end Rank

/-- Members of one class are a whole period apart. -/
theorem count_residue_le (start period offset count : Nat) (positive : 0 < period) :
    Nat.count (fun index => (start + index) % period = offset) count ≤ count / period + 1 := by
  by_cases never : ∀ index < count, ¬ (start + index) % period = offset
  · have none : Nat.count (fun index => (start + index) % period = offset) count = 0 :=
      Nat.count_iff_forall_not.mpr never
    exact none.le.trans (Nat.zero_le _)
  push Not at never
  obtain ⟨first, _, meets⟩ := never
  have classes : ∀ index, (start + index) % period = offset ↔ index ≡ first [MOD period] := by
    intro index
    rw [← meets]
    exact ⟨fun same => Nat.ModEq.add_left_cancel' start same, fun same => same.add_left start⟩
  simp only [classes, Nat.count_modEq_card _ positive]
  exact Nat.add_le_add_left (by split <;> decide) _

end Sharecoin.Lib
