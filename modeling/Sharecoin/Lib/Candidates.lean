import Mathlib.Order.Lattice
import Mathlib.Data.Set.Basic

/-! Candidate sets that are kept up lazily. Such a set may lack nodes that could be chosen, as
long as all of them rank below some node that can always be gone back to. -/

set_option autoImplicit false

namespace Sharecoin.Lib

variable {α β : Type} [LinearOrder β]

/-- A node that can be chosen, is sound and ranks no lower than the tip, such that everything
from its rank up that can be chosen is a candidate. -/
def Covered (rank : α → β) (eligible sound : α → Prop) (candidates : Set α) (tip : α) : Prop :=
  ∃ base, eligible base ∧ sound base ∧ rank tip ≤ rank base ∧
    ∀ node, eligible node → rank base ≤ rank node → node ∈ candidates

namespace Covered

variable {rank rank' : α → β} {eligible eligible' sound sound' : α → Prop} {candidates candidates' : Set α}
  {tip tip' : α}

section

variable (covered : Covered rank eligible sound candidates tip)

include covered

theorem le_of_candidates_le {bound : β} (bounds : ∀ node ∈ candidates, eligible node → rank node ≤ bound) {node : α}
    (chosen : eligible node) : rank node ≤ bound := by
  obtain ⟨base, eligibleBase, _, _, complete⟩ := covered
  have baseBound : rank base ≤ bound := bounds base (complete base eligibleBase le_rfl) eligibleBase
  rcases le_total (rank base) (rank node) with higher | lower
  · exact bounds node (complete node chosen higher) chosen
  · exact lower.trans baseBound

theorem exists_candidate : ∃ node, node ∈ candidates := by
  obtain ⟨base, eligibleBase, _, _, complete⟩ := covered
  exact ⟨base, complete base eligibleBase le_rfl⟩

/-- A new tip that can be chosen and is sound, after candidates below it are dropped. -/
theorem moveTip (chosen : eligible tip') (soundTip : sound tip')
    (kept : ∀ node ∈ candidates, rank tip' ≤ rank node → node ∈ candidates') :
    Covered rank eligible sound candidates' tip' := by
  obtain ⟨base, eligibleBase, soundBase, _, complete⟩ := covered
  rcases le_total (rank base) (rank tip') with higher | lower
  · exact ⟨tip', chosen, soundTip, le_rfl, fun node eligibleNode above =>
      kept node (complete node eligibleNode (higher.trans above)) above⟩
  · exact ⟨base, eligibleBase, soundBase, lower, fun node eligibleNode above =>
      kept node (complete node eligibleNode above) (lower.trans above)⟩

/-- Fewer nodes can be chosen, but still all the sound ones, and only others leave the set. -/
theorem restrict (fewer : ∀ node, eligible' node → eligible node)
    (soundStay : ∀ node, sound node → eligible node → eligible' node)
    (kept : ∀ node ∈ candidates, eligible' node → node ∈ candidates') :
    Covered rank eligible' sound candidates' tip := by
  obtain ⟨base, eligibleBase, soundBase, higher, complete⟩ := covered
  exact ⟨base, soundStay base soundBase eligibleBase, soundBase, higher,
    fun node eligibleNode above =>
      kept node (complete node (fewer node eligibleNode) above) eligibleNode⟩

/-- More nodes can be chosen, and those that rank no lower than the tip are added. Only nodes
that could not be chosen before may change their rank. -/
theorem extend (chosen : eligible tip) (stay : ∀ node, eligible node → eligible' node)
    (soundStay : ∀ node, eligible node → sound node → sound' node)
    (same : ∀ node, eligible node → rank' node = rank node)
    (grown : ∀ node, node ∈ candidates → node ∈ candidates')
    (added : ∀ node, eligible' node → ¬ eligible node → rank' tip ≤ rank' node →
      node ∈ candidates') : Covered rank' eligible' sound' candidates' tip := by
  obtain ⟨base, eligibleBase, soundBase, higher, complete⟩ := covered
  rw [← same tip chosen, ← same base eligibleBase] at higher
  refine ⟨base, stay base eligibleBase, soundStay base eligibleBase soundBase, higher,
    fun node eligibleNode above => ?_⟩
  by_cases before : eligible node
  · rw [same base eligibleBase, same node before] at above
    exact grown node (complete node before above)
  · exact added node eligibleNode before (higher.trans above)

end

end Covered

end Sharecoin.Lib
