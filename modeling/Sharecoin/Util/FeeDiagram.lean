import Sharecoin.Util.FeeFrac
import Mathlib.Data.Real.Basic
import Mathlib.Algebra.BigOperators.Group.List.Basic

/-! The cumulative diagram of a list of chunks. -/

set_option autoImplicit false

namespace Sharecoin.FeeFrac

/-! ## Sums -/

@[ext]
theorem ext {left right : FeeFrac} (fee : left.fee = right.fee) (size : left.size = right.size) : left = right := by
  cases left
  cases right
  cases fee
  cases size
  rfl

instance : Zero FeeFrac := ⟨{}⟩

@[simp] theorem fee_add (left right : FeeFrac) : (left + right).fee = left.fee + right.fee := rfl
@[simp] theorem size_add (left right : FeeFrac) : (left + right).size = left.size + right.size := rfl

instance : AddCommMonoid FeeFrac where
  add_assoc _ _ _ := FeeFrac.ext (add_assoc ..) (add_assoc ..)
  zero_add _ := FeeFrac.ext (zero_add _) (zero_add _)
  add_zero _ := FeeFrac.ext (add_zero _) (add_zero _)
  add_comm _ _ := FeeFrac.ext (add_comm ..) (add_comm ..)
  nsmul := nsmulRec

theorem size_sum_nonneg {parts : List FeeFrac} (positive : ∀ part ∈ parts, 0 < part.size) : 0 ≤ parts.sum.size := by
  induction parts with
  | nil => exact le_rfl
  | cons part parts ih =>
    have := positive part (.head _)
    have := ih (List.forall_mem_cons.mp positive).2
    rw [List.sum_cons, size_add]
    omega

/-! ## Diagrams -/

/-- The piecewise linear diagram, which stays level after the last chunk. -/
noncomputable def diagram : List FeeFrac → ℝ → ℝ
  | [], _ => 0
  | chunk :: rest, x =>
    if x ≤ chunk.size then x * (chunk.fee / chunk.size) else chunk.fee + diagram rest (x - chunk.size)

theorem diagram_zero {chunks : List FeeFrac} (positive : ∀ chunk ∈ chunks, 0 < chunk.size) : diagram chunks 0 = 0 := by
  cases chunks with
  | nil => rfl
  | cons chunk rest => rw [diagram, if_pos (by exact_mod_cast (positive chunk (.head _)).le), zero_mul]

theorem diagram_cons_of_ge {chunk : FeeFrac} {rest : List FeeFrac}
    (positive : ∀ other ∈ chunk :: rest, 0 < other.size) {x : ℝ} (beyond : chunk.size ≤ x) :
    diagram (chunk :: rest) x = chunk.fee + diagram rest (x - chunk.size) := by
  have size : (chunk.size : ℝ) ≠ 0 := by exact_mod_cast (positive chunk (.head _)).ne'
  rw [diagram]
  split
  next inside =>
    rw [le_antisymm inside beyond, sub_self, diagram_zero (List.forall_mem_cons.mp positive).2,
      mul_div_cancel₀ _ size, add_zero]
  next => rfl

end Sharecoin.FeeFrac
