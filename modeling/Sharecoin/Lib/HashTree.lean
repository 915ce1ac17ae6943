import Mathlib.Data.List.Basic
import Mathlib.Data.Set.Function
import Mathlib.Logic.Function.Iterate

/-! Binary hash trees in which an odd last element of a level is paired with itself. When
the node function is injective on the pairs two trees hash, their common root fixes the
leaves, as long as no pair repeats an element and no leaf is a node; for trees of equally
many leaves the root alone is enough. -/

set_option autoImplicit false

namespace Sharecoin.Lib

/-! ## Levels -/

variable {α : Type} {elements : List α}

def pairUp : List α → List (α × α)
  | left :: right :: elements => (left, right) :: pairUp elements
  | [last] => [(last, last)]
  | [] => []

/-- Whether two positions of one pair hold the same element. -/
def repeats [DecidableEq α] : List α → Bool
  | left :: right :: elements => repeats elements || left == right
  | _ => false

theorem pairUp_length (elements : List α) : (pairUp elements).length = (elements.length + 1) / 2 := by
  fun_induction pairUp with
  | case1 left right elements ih =>
    simp only [List.length_cons, ih]
    omega
  | case2 last => simp
  | case3 => simp

theorem pairUp_eq_nil (none : pairUp elements = []) : elements = [] := by
  have counted := pairUp_length elements
  rw [none, List.length_nil] at counted
  exact List.length_eq_zero_iff.mp (by omega)

theorem eq_of_pairUp_eq {others : List α} (same : pairUp elements = pairUp others)
    (long : elements.length = others.length) : elements = others := by
  induction elements using pairUp.induct generalizing others with
  | case1 left right elements ih =>
    match others, long with
    | left' :: right' :: others, long =>
      obtain ⟨⟨rfl, rfl⟩, rest⟩ : (left = left' ∧ right = right') ∧ pairUp elements = pairUp others := by
        simpa [pairUp] using same
      rw [ih rest (by simpa using long)]
  | case2 last =>
    match others, long with
    | [last'], _ => simpa [pairUp] using same
  | case3 => exact (List.length_eq_zero_iff.mp long.symm).symm

/-- An odd last element looks like a pair that repeats it. -/
theorem eq_of_unrepeated [DecidableEq α] {others : List α} (same : pairUp elements = pairUp others)
    (distinct : repeats elements = false) (distinct' : repeats others = false) : elements = others := by
  induction elements using pairUp.induct generalizing others with
  | case1 left right elements ih =>
    match others with
    | left' :: right' :: others =>
      obtain ⟨⟨rfl, rfl⟩, rest⟩ : (left = left' ∧ right = right') ∧ pairUp elements = pairUp others := by
        simpa [pairUp] using same
      simp only [repeats, Bool.or_eq_false_iff] at distinct distinct'
      rw [ih rest distinct.1 distinct'.1]
    | [last'] =>
      obtain ⟨⟨rfl, rfl⟩, -⟩ : (left = last' ∧ right = last') ∧ pairUp elements = [] := by
        simpa [pairUp] using same
      simp [repeats] at distinct
  | case2 last =>
    match others with
    | left' :: right' :: others =>
      obtain ⟨⟨rfl, rfl⟩, -⟩ : (last = left' ∧ last = right') ∧ [] = pairUp others := by
        simpa [pairUp] using same
      simp [repeats] at distinct'
    | [last'] => simpa [pairUp] using same
  | case3 => exact (pairUp_eq_nil same.symm).symm

/-! ## Trees -/

variable {height : Nat}

section Trees

variable (node : α × α → α)

def hashLevel (elements : List α) : List α := (pairUp elements).map node

/-- The pairs hashed on the way to a root that lies so many levels up. -/
def treePairs : Nat → List α → List (α × α)
  | 0, _ => []
  | height + 1, elements => pairUp elements ++ treePairs height (hashLevel node elements)

/-- A list of leaves, the height of the tree over them and its root. -/
inductive Climbs : Nat → List α → α → Prop where
  | root (top : α) : Climbs 0 [top] top
  | above {height : Nat} {elements : List α} {top : α} :
      1 < elements.length → Climbs height (hashLevel node elements) top →
      Climbs (height + 1) elements top

/-- The pairs hashed until one element is left, in at most so many levels. -/
def hashedPairs : Nat → List α → List (α × α)
  | 0, _ => []
  | levels + 1, elements =>
    if 1 < elements.length then pairUp elements ++ hashedPairs levels (hashLevel node elements)
    else []

def unrepeated [DecidableEq α] : Nat → List α → Bool
  | 0, _ => true
  | height + 1, elements => !repeats elements && unrepeated height (hashLevel node elements)

variable {node}

theorem hashLevel_length (elements : List α) : (hashLevel node elements).length = (elements.length + 1) / 2 := by
  rw [hashLevel, List.length_map, pairUp_length]

variable {others : List α} {pairs : Set (α × α)}

theorem pairUp_eq_of_hashLevel_eq (injective : Set.InjOn node pairs) (hashed : ∀ pair ∈ pairUp elements, pair ∈ pairs)
    (hashed' : ∀ pair ∈ pairUp others, pair ∈ pairs)
    (same : hashLevel node elements = hashLevel node others) : pairUp elements = pairUp others := by
  have injectiveOn : ∀ some ∈ pairUp elements, ∀ other ∈ pairUp others, node some = node other → some = other :=
    fun some listed other listed' => injective (hashed some listed) (hashed' other listed')
  rw [hashLevel, hashLevel] at same
  generalize pairUp elements = left at *
  generalize pairUp others = right at *
  induction left generalizing right with
  | nil => exact (List.map_eq_nil_iff.mp same.symm).symm
  | cons pair left ih =>
    match right with
    | pair' :: right =>
      obtain ⟨head, tail⟩ := List.cons.inj same
      rw [injectiveOn pair (.head _) pair' (.head _) head, ih (List.forall_mem_cons.mp hashed).2 right
          (fun some listed => hashed' some (.tail _ listed)) tail
          fun some listed other listed' =>
            injectiveOn some (.tail _ listed) other (.tail _ listed')]

variable {top : α} {height' : Nat}

namespace Climbs

theorem eq_of_length (injective : Set.InjOn node pairs) (tree : Climbs node height elements top)
    (tree' : Climbs node height' others top) (long : elements.length = others.length)
    (hashed : ∀ pair ∈ treePairs node height elements, pair ∈ pairs)
    (hashed' : ∀ pair ∈ treePairs node height' others, pair ∈ pairs) : elements = others := by
  induction tree generalizing height' others with
  | root top =>
    cases tree' with
    | root => rfl
    | above more tree' => simp at long; omega
  | above more tree ih =>
    cases tree' with
    | root => simp at long; omega
    | above more' tree' =>
      obtain ⟨own, higher⟩ := List.forall_mem_append.mp hashed
      obtain ⟨own', higher'⟩ := List.forall_mem_append.mp hashed'
      have up := ih tree' (by rw [hashLevel_length, hashLevel_length, long]) higher higher'
      have paired := pairUp_eq_of_hashLevel_eq injective own own' up
      exact eq_of_pairUp_eq paired long

theorem treePairs_eq {levels : Nat} (tree : Climbs node height elements top) (enough : height ≤ levels) :
    treePairs node height elements = hashedPairs node levels elements := by
  induction tree generalizing levels with
  | root top =>
    cases levels with
    | zero => rfl
    | succ levels => simp [treePairs, hashedPairs]
  | above more tree ih =>
    obtain _ | levels := levels
    · omega
    rw [treePairs, hashedPairs, if_pos more, ih (Nat.le_of_succ_le_succ enough)]

theorem iterate_hashLevel (tree : Climbs node height elements top) : (hashLevel node)^[height] elements = [top] := by
  induction tree with
  | root => rfl
  | above more tree ih => rw [Function.iterate_succ_apply, ih]

theorem pairUp_iterate (node : α × α → α) {up : Nat} (below : up < height) (elements : List α) :
    ∀ pair ∈ pairUp ((hashLevel node)^[up] elements),
    pair ∈ treePairs node height elements := by
  induction up generalizing height elements with
  | zero =>
    intro pair listed
    obtain _ | height := height
    · omega
    exact List.mem_append_left _ listed
  | succ up ih =>
    intro pair listed
    obtain _ | height := height
    · omega
    rw [Function.iterate_succ_apply] at listed
    exact List.mem_append_right _ (ih (by omega) _ pair listed)

theorem unrepeated_iterate [DecidableEq α] {up : Nat} (below : up < height)
    (distinct : unrepeated node height elements = true) : repeats ((hashLevel node)^[up] elements) = false := by
  induction up generalizing height elements with
  | zero =>
    obtain _ | height := height
    · omega
    simp only [unrepeated, Bool.and_eq_true, Bool.not_eq_true'] at distinct
    exact distinct.1
  | succ up ih =>
    obtain _ | height := height
    · omega
    simp only [unrepeated, Bool.and_eq_true] at distinct
    rw [Function.iterate_succ_apply]
    exact ih (by omega) distinct.2

theorem nonempty (tree : Climbs node height elements top) : ∃ leaf, leaf ∈ elements := by
  cases tree with
  | root => exact ⟨top, List.mem_singleton_self top⟩
  | above more tree => exact List.exists_mem_of_length_pos (by omega)

end Climbs

variable [DecidableEq α]

/-- A tree that hashes only the given pairs, none of which repeats an element. -/
structure Distinct (node : α × α → α) (pairs : Set (α × α)) (height : Nat) (elements : List α) (top : α) : Prop where
  tree : Climbs node height elements top
  hashed : ∀ pair ∈ treePairs node height elements, pair ∈ pairs
  distinct : unrepeated node height elements = true

namespace Distinct

section

variable (injective : Set.InjOn node pairs) (left : Distinct node pairs height elements top) {extra : Nat}

include injective left

/-- The leaves of the lower tree are the level of the higher one that lies as far below the
root. The induction goes down from the root. -/
theorem eq_iterate
    (right : Distinct node pairs (height + extra) others top) : elements = (hashLevel node)^[extra] others := by
  induction height generalizing elements others with
  | zero =>
    cases left.tree
    rw [Nat.zero_add] at right
    exact right.tree.iterate_hashLevel.symm
  | succ height ih =>
    obtain ⟨tree, hashed, distinct⟩ := left
    obtain ⟨tree', hashed', distinct'⟩ := right
    have below : extra < height + 1 + extra := by omega
    have unrepeated' := Climbs.unrepeated_iterate below distinct'
    have listed' := Climbs.pairUp_iterate node below others
    rw [Nat.add_right_comm] at tree' hashed' distinct' listed'
    cases tree with
    | above more tree =>
      cases tree' with
      | above more' tree' =>
        simp only [unrepeated, Bool.and_eq_true, Bool.not_eq_true'] at distinct distinct'
        obtain ⟨own, higher⟩ := List.forall_mem_append.mp hashed
        have up := ih ⟨tree, higher, distinct.2⟩ ⟨tree', (List.forall_mem_append.mp hashed').2, distinct'.2⟩
        rw [← Function.iterate_succ_apply, Function.iterate_succ_apply'] at up
        have paired := pairUp_eq_of_hashLevel_eq injective own (fun pair listed => hashed' pair (listed' pair listed)) up
        exact eq_of_unrepeated paired distinct.1 unrepeated'

private theorem height_eq (right : Distinct node pairs (height + extra) others top)
    (leaves : ∀ leaf ∈ elements, ∀ pair ∈ pairs, leaf ≠ node pair) : extra = 0 := by
  have lower := eq_iterate injective left right
  cases extra with
  | zero => rfl
  | succ extra =>
    obtain ⟨leaf, listed⟩ := left.tree.nonempty
    have risen := listed
    rw [lower, Function.iterate_succ_apply'] at risen
    obtain ⟨pair, paired, rfl⟩ := List.mem_map.mp risen
    have inTree := Climbs.pairUp_iterate node (by omega : extra < height + (extra + 1)) others pair paired
    exact absurd rfl (leaves _ listed pair (right.hashed pair inTree))

/-- A root fixes leaves that are no nodes, when no pair repeats an element. -/
theorem leaves_eq (right : Distinct node pairs height' others top)
    (leaves : ∀ leaf ∈ elements, ∀ pair ∈ pairs, leaf ≠ node pair)
    (leaves' : ∀ leaf ∈ others, ∀ pair ∈ pairs, leaf ≠ node pair) : elements = others := by
  rcases Nat.le_total height height' with lower | lower
  · obtain ⟨extra, rfl⟩ := Nat.exists_eq_add_of_le lower
    have flat := height_eq injective left right leaves
    subst flat
    exact eq_iterate injective left right
  obtain ⟨extra, rfl⟩ := Nat.exists_eq_add_of_le lower
  have flat := height_eq injective right left leaves'
  subst flat
  exact (eq_iterate injective right left).symm

end

end Distinct

end Trees

end Sharecoin.Lib
