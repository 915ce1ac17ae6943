import Mathlib.Logic.Basic

/-! Forests given by a parent function: the ancestor a number of steps up, and
how it depends on the parent function. -/

set_option autoImplicit false

namespace Sharecoin.Lib

variable {α : Type}

def ancestor (parent : α → Option α) : Nat → α → Option α
  | 0, node => some node
  | steps + 1, node => (parent node).bind (ancestor parent steps)

theorem ancestor_add (parent : α → Option α) (first second : Nat) (node : α) : ancestor parent (first + second) node =
      (ancestor parent first node).bind (ancestor parent second) := by
  induction first generalizing node with
  | zero => simp [ancestor]
  | succ first ih =>
    rw [Nat.succ_add]
    cases above : parent node with
    | none => simp [ancestor, above]
    | some next => simpa [ancestor, above] using ih next

/-- Parent functions that agree on a set closed under parents give its members
the same ancestors. -/
theorem ancestor_congr {left right : α → Option α} {inside : α → Prop}
    (agree : ∀ node, inside node → left node = right node)
    (closed : ∀ node next, inside node → left node = some next → inside next) (steps : Nat) {node : α}
    (member : inside node) : ancestor left steps node = ancestor right steps node := by
  induction steps generalizing node with
  | zero => rfl
  | succ steps ih =>
    rw [ancestor, ancestor, ← agree node member]
    cases above : left node with
    | none => rfl
    | some next => exact ih (closed node next member above)

/-! ## Descendants -/

def Below (parent : α → Option α) (node above : α) : Prop :=
  ∃ steps, ancestor parent steps node = some above

namespace Below

variable {parent : α → Option α} {node next above top : α}

theorem refl (parent : α → Option α) (node : α) : Below parent node node := ⟨0, rfl⟩

theorem of_parent (link : parent node = some next) (below : Below parent next above) : Below parent node above := by
  obtain ⟨steps, climbed⟩ := below
  exact ⟨steps + 1, by rw [ancestor, link, Option.bind_some, climbed]⟩

theorem eq_or_parent (below : Below parent node above) :
    node = above ∨ ∃ next, parent node = some next ∧ Below parent next above := by
  obtain ⟨_ | steps, climbed⟩ := below
  · exact .inl (Option.some_inj.mp climbed)
  · rw [ancestor] at climbed
    obtain ⟨next, link, climbed⟩ := Option.bind_eq_some_iff.mp climbed
    exact .inr ⟨next, link, steps, climbed⟩

theorem trans (first : Below parent node above) (second : Below parent above top) : Below parent node top := by
  obtain ⟨first, climbed⟩ := first
  obtain ⟨second, climbedOn⟩ := second
  exact ⟨first + second, by rw [ancestor_add, climbed, Option.bind_some, climbedOn]⟩

theorem induct (holds : α → Prop) (rises : ∀ node next, parent node = some next → holds node → holds next)
    (below : Below parent node above) (start : holds node) : holds above := by
  obtain ⟨steps, climbed⟩ := below
  induction steps generalizing node with
  | zero =>
    cases climbed
    exact start
  | succ steps ih =>
    rw [ancestor] at climbed
    obtain ⟨next, link, climbed⟩ := Option.bind_eq_some_iff.mp climbed
    exact ih (rises node next link start) climbed

end Below

end Sharecoin.Lib
