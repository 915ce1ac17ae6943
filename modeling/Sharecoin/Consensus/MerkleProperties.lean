import Sharecoin.Consensus.Merkle
import Sharecoin.Lib.HashTree

/-! The merkle root as the root of a hash tree: roots that agree fix the hashes below them,
as far as the hash function keeps the pairs of the two trees apart. -/

set_option autoImplicit false

namespace Sharecoin

open Lib

section Trees

variable (sha256d : Bytes → Uint256)

def merkleNode (pair : Uint256 × Uint256) : Uint256 := sha256d (pair.1.data ++ pair.2.data)

/-- The pairs that are hashed for the root of a list. -/
def merklePairs (hashes : List Uint256) : List (Uint256 × Uint256) :=
  hashedPairs (merkleNode sha256d) hashes.length hashes

theorem merkleLevel_eq (hashes : List Uint256) :
    merkleLevel sha256d hashes = (hashLevel (merkleNode sha256d) hashes, repeats hashes) := by
  fun_induction merkleLevel sha256d hashes with
  | case1 left right hashes level mutation eq ih =>
    rw [eq] at ih
    obtain ⟨rfl, rfl⟩ := Prod.mk.inj ih
    rfl
  | case2 last => rfl
  | case3 => rfl

/-- The loop climbs to the root, and a flag that stays down has seen no repeated pair. -/
theorem merkleLoop_climbs (levels : Nat) {hashes : List Uint256} (mutation : Bool)
    (some : hashes ≠ []) (enough : hashes.length ≤ levels + 1) :
    ∃ height ≤ levels, Climbs (merkleNode sha256d) height hashes (merkleLoop sha256d levels hashes mutation).1 ∧
      ((merkleLoop sha256d levels hashes mutation).2 = false →
        mutation = false ∧ unrepeated (merkleNode sha256d) height hashes = true) := by
  have one {single : List Uint256} (some : single ≠ []) (short : single.length ≤ 1) : ∃ top, single = [top] :=
    List.length_eq_one_iff.mp (Nat.le_antisymm short (List.length_pos_iff.mpr some))
  induction levels generalizing hashes mutation with
  | zero =>
    obtain ⟨top, rfl⟩ := one some enough
    exact ⟨0, Nat.le_refl 0, .root top, fun unflagged => ⟨unflagged, rfl⟩⟩
  | succ levels ih =>
    by_cases more : hashes.length > 1
    · have halved : (hashLevel (merkleNode sha256d) hashes).length = (hashes.length + 1) / 2 :=
        hashLevel_length hashes
      have left : hashLevel (merkleNode sha256d) hashes ≠ [] := by
        intro empty
        rw [empty, List.length_nil] at halved
        omega
      obtain ⟨height, low, tree, flags⟩ := ih (mutation || repeats hashes) left (by omega)
      rw [merkleLoop, if_pos more, merkleLevel_eq]
      refine ⟨height + 1, by omega, .above more tree, fun unflagged => ?_⟩
      obtain ⟨fresh, above⟩ := flags unflagged
      rw [Bool.or_eq_false_iff] at fresh
      refine ⟨fresh.1, ?_⟩
      rw [unrepeated, fresh.2, above]
      rfl
    · obtain ⟨top, rfl⟩ := one some (by omega)
      rw [merkleLoop, if_neg more]
      exact ⟨0, Nat.zero_le _, .root top, fun unflagged => ⟨unflagged, rfl⟩⟩

variable {sha256d} {hashes others : List Uint256}

theorem computeMerkleRoot_climbs (some : hashes ≠ []) :
    ∃ height, Climbs (merkleNode sha256d) height hashes (computeMerkleRoot sha256d hashes).1 ∧
      treePairs (merkleNode sha256d) height hashes = merklePairs sha256d hashes ∧
      ((computeMerkleRoot sha256d hashes).2 = false → unrepeated (merkleNode sha256d) height hashes = true) := by
  obtain ⟨height, low, tree, flags⟩ := merkleLoop_climbs sha256d hashes.length false some (Nat.le_succ _)
  exact ⟨height, tree, tree.treePairs_eq low, fun unflagged => (flags unflagged).2⟩

variable (injective : Set.InjOn (merkleNode sha256d)
      {pair | pair ∈ merklePairs sha256d hashes ++ merklePairs sha256d others})
  (some : hashes ≠ [])
  (same : (computeMerkleRoot sha256d hashes).1 = (computeMerkleRoot sha256d others).1)

include injective some same

theorem eq_of_computeMerkleRoot_of_length (long : hashes.length = others.length) : hashes = others := by
  have some' : others ≠ [] := by
    rw [← List.length_pos_iff] at some ⊢
    omega
  obtain ⟨height, tree, pairs, -⟩ := @computeMerkleRoot_climbs sha256d _ some
  obtain ⟨height', tree', pairs', -⟩ := @computeMerkleRoot_climbs sha256d _ some'
  rw [← same] at tree'
  exact Climbs.eq_of_length injective tree tree' long (pairs ▸ List.subset_append_left _ _)
    (pairs' ▸ List.subset_append_right _ _)

section Apart

variable (apart : ∀ leaf ∈ hashes ++ others,
    ∀ pair ∈ merklePairs sha256d hashes ++ merklePairs sha256d others, leaf ≠ merkleNode sha256d pair)
  (some' : others ≠ [])

include apart some'

theorem eq_of_computeMerkleRoot (unflagged : (computeMerkleRoot sha256d hashes).2 = false)
    (unflagged' : (computeMerkleRoot sha256d others).2 = false) : hashes = others := by
  obtain ⟨height, tree, pairs, flags⟩ := computeMerkleRoot_climbs some
  obtain ⟨height', tree', pairs', flags'⟩ := computeMerkleRoot_climbs some'
  rw [← same] at tree'
  obtain ⟨leaves, leaves'⟩ := List.forall_mem_append.mp apart
  exact Distinct.leaves_eq injective ⟨tree, pairs ▸ List.subset_append_left _ _, flags unflagged⟩
    ⟨tree', pairs' ▸ List.subset_append_right _ _, flags' unflagged'⟩ leaves leaves'

/-- Lists with one root are equal, unless one of them is reported as mutated; so no two
lists that are not share a root. -/
theorem computeMerkleRoot_binds :
    (hashes = others ∨ (computeMerkleRoot sha256d hashes).2 = true ∨ (computeMerkleRoot sha256d others).2 = true) ∧
      ((computeMerkleRoot sha256d hashes).2 = false → (computeMerkleRoot sha256d others).2 = false → hashes = others) := by
  have unique (unflagged : (computeMerkleRoot sha256d hashes).2 = false)
      (unflagged' : (computeMerkleRoot sha256d others).2 = false) : hashes = others :=
    eq_of_computeMerkleRoot injective some same apart some' unflagged unflagged'
  refine ⟨?_, unique⟩
  cases flag : (computeMerkleRoot sha256d hashes).2 with
  | true => exact .inr (.inl rfl)
  | false =>
    cases flag' : (computeMerkleRoot sha256d others).2 with
    | true => exact .inr (.inr rfl)
    | false => exact .inl (unique flag flag')

end Apart

end Trees

/-- Three leaves, and the same leaves with the last one twice. -/
theorem computeMerkleRoot_binds_repeated :
    let sha256d : Bytes → Uint256 := fun bytes => .ofNat (16 * (bytes.getD 0 0).toNat + (bytes.getD 32 0).toNat)
    let hashes : List Uint256 := [.ofNat 1, .ofNat 2, .ofNat 3]
    let others := hashes ++ [.ofNat 3]
    hashes = others ∨ (computeMerkleRoot sha256d hashes).2 = true ∨ (computeMerkleRoot sha256d others).2 = true := by
  intro sha256d hashes others
  have injective : ∀ pair ∈ merklePairs sha256d hashes ++ merklePairs sha256d others,
      ∀ other ∈ merklePairs sha256d hashes ++ merklePairs sha256d others,
        merkleNode sha256d pair = merkleNode sha256d other → pair = other := by
    decide +kernel
  exact (computeMerkleRoot_binds (fun pair listed other listed' => injective pair listed other listed')
    (List.cons_ne_nil _ _) (by decide +kernel) (by decide +kernel) (List.cons_ne_nil _ _)).1

end Sharecoin
