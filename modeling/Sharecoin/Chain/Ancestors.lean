import Sharecoin.Chain.BlockIndex
import Sharecoin.Lib.Forest
import Mathlib.Tactic.Linarith

/-! The skip-pointer walk of `GetAncestor` finds the ancestor that following
`pprev` one step at a time would find. It asks only that heights count the steps
to the root and that the skip pointers present are right. -/

set_option autoImplicit false

namespace Sharecoin

open Lib

variable {blocks : BlockMap}

variable {hash : Uint256} {added entry : CBlockIndex} {key : Uint256}

theorem lookup_insert_cases {K V : Type} [DecidableEq K] {values : AList fun _ : K => V} {key other : K}
    {value stored : V} (found : (values.insert key value).lookup other = some stored) :
    (other = key ∧ stored = value) ∨ values.lookup other = some stored := by
  by_cases same : other = key
  · subst same
    rw [AList.lookup_insert] at found
    exact .inl ⟨rfl, (Option.some_inj.mp found).symm⟩
  · rw [AList.lookup_insert_ne same] at found
    exact .inr found

theorem lookup_insert_of_unknown (unknown : blocks.lookup hash = none)
    (found : blocks.lookup key = some entry) : (blocks.insert hash added).lookup key = some entry := by
  have different : key ≠ hash := by
    intro same
    rw [same, unknown] at found
    cases found
  rw [AList.lookup_insert_ne different, found]

def parentOf (blocks : BlockMap) (pindex : Uint256) : Option Uint256 :=
  (blocks.lookup pindex).bind CBlockIndex.pprev

variable {pindex : Uint256}

theorem parentOf_eq (found : blocks.lookup pindex = some entry) : parentOf blocks pindex = entry.pprev := by
  rw [parentOf, found, Option.bind_some]

/-- Heights count the steps to the root, and skip pointers lead to ancestors. -/
structure Linked (blocks : BlockMap) : Prop where
  nonneg : ∀ pindex entry, blocks.lookup pindex = some entry → 0 ≤ entry.nHeight
  root : ∀ pindex entry, blocks.lookup pindex = some entry → entry.pprev = none → entry.nHeight = 0
  child : ∀ pindex entry pprev, blocks.lookup pindex = some entry → entry.pprev = some pprev →
    ∃ parent, blocks.lookup pprev = some parent ∧ entry.nHeight = parent.nHeight + 1
  skip : ∀ pindex entry pskip, blocks.lookup pindex = some entry → entry.pskip = some pskip →
    ancestor (parentOf blocks) (entry.nHeight - getSkipHeight entry.nHeight).toNat pindex = some pskip

theorem Linked.of_entries (each : ∀ pindex entry, blocks.lookup pindex = some entry →
      0 ≤ entry.nHeight ∧ (entry.pprev = none → entry.nHeight = 0) ∧ (∀ pprev, entry.pprev = some pprev →
        ∃ parent, blocks.lookup pprev = some parent ∧ entry.nHeight = parent.nHeight + 1) ∧
      ∀ pskip, entry.pskip = some pskip →
        ancestor (parentOf blocks) (entry.nHeight - getSkipHeight entry.nHeight).toNat pindex = some pskip) :
    Linked blocks where
  nonneg pindex entry found := (each pindex entry found).1
  root pindex entry found := (each pindex entry found).2.1
  child pindex entry pprev found := (each pindex entry found).2.2.1 pprev
  skip pindex entry pskip found := (each pindex entry found).2.2.2 pskip

/-! ## Skip heights -/

theorem invertLowestOne_le (n : Nat) : invertLowestOne n ≤ n - 1 := Nat.and_le_right

theorem getSkipHeight_nonneg (height : Int) : 0 ≤ getSkipHeight height := by
  unfold getSkipHeight
  split
  · exact le_rfl
  · split <;> positivity

variable {height : Int}

theorem getSkipHeight_lt (positive : 0 < height) : getSkipHeight height < height := by
  unfold getSkipHeight
  split
  · exact positive
  have outer := invertLowestOne_le (invertLowestOne (height.toNat - 1))
  have inner := invertLowestOne_le (height.toNat - 1)
  have direct := invertLowestOne_le height.toNat
  split <;> omega

/-! ## The walk -/

theorem Linked.ancestor_found (linked : Linked blocks) (steps : Nat)
    (found : blocks.lookup pindex = some entry) (within : (steps : Int) ≤ entry.nHeight) :
    ∃ above aboveEntry, ancestor (parentOf blocks) steps pindex = some above ∧
      blocks.lookup above = some aboveEntry ∧ aboveEntry.nHeight = entry.nHeight - steps := by
  induction steps generalizing pindex entry with
  | zero => exact ⟨pindex, entry, rfl, found, by simp⟩
  | succ steps ih =>
    cases link : entry.pprev with
    | none =>
      have atRoot := linked.root pindex entry found link
      omega
    | some pprev =>
      obtain ⟨parent, parentFound, height⟩ := linked.child pindex entry pprev found link
      obtain ⟨above, aboveEntry, climbed, aboveFound, aboveHeight⟩ := ih parentFound (by omega)
      refine ⟨above, aboveEntry, ?_, aboveFound, by omega⟩
      rw [ancestor, parentOf_eq found, link]
      exact climbed

theorem followsSkip_le {heightWalk : Int} (follows : followsSkip heightWalk height = true) :
    height ≤ getSkipHeight heightWalk := by
  simp only [followsSkip, Bool.or_eq_true, beq_iff_eq, Bool.and_eq_true, decide_eq_true_eq] at follows
  omega

section

variable (linked : Linked blocks)

include linked

theorem Linked.ancestor_of_parent (found : blocks.lookup pindex = some entry) (nonneg : 0 ≤ height)
    (below : height < entry.nHeight) :
    ∃ pprev parent, entry.pprev = some pprev ∧ blocks.lookup pprev = some parent ∧ parent.nHeight = entry.nHeight - 1 ∧
      ancestor (parentOf blocks) (entry.nHeight - height).toNat pindex =
        ancestor (parentOf blocks) (parent.nHeight - height).toNat pprev := by
  cases link : entry.pprev with
  | none =>
    have atRoot := linked.root pindex entry found link
    omega
  | some pprev =>
    obtain ⟨parent, parentFound, above⟩ := linked.child pindex entry pprev found link
    refine ⟨pprev, parent, rfl, parentFound, by omega, ?_⟩
    have steps : (entry.nHeight - height).toNat = (parent.nHeight - height).toNat + 1 := by omega
    rw [steps, ancestor, parentOf_eq found, link, Option.bind_some]

theorem Linked.ancestor_of_skip {pskip : Uint256} (found : blocks.lookup pindex = some entry)
    (skips : entry.pskip = some pskip) (nonneg : 0 ≤ height) (below : height < entry.nHeight)
    (reaches : height ≤ getSkipHeight entry.nHeight) :
    ∃ target, blocks.lookup pskip = some target ∧ target.nHeight = getSkipHeight entry.nHeight ∧
      ancestor (parentOf blocks) (entry.nHeight - height).toNat pindex =
        ancestor (parentOf blocks) (target.nHeight - height).toNat pskip := by
  have lower : getSkipHeight entry.nHeight < entry.nHeight := getSkipHeight_lt (by omega)
  have skipNonneg := getSkipHeight_nonneg entry.nHeight
  have jumped := linked.skip pindex entry pskip found skips
  obtain ⟨above, target, climbed, targetFound, targetHeight⟩ :=
    linked.ancestor_found (entry.nHeight - getSkipHeight entry.nHeight).toNat found (by omega)
  obtain rfl : pskip = above := Option.some_inj.mp (jumped.symm.trans climbed)
  refine ⟨target, targetFound, by omega, ?_⟩
  have steps : (entry.nHeight - height).toNat =
      (entry.nHeight - getSkipHeight entry.nHeight).toNat + (target.nHeight - height).toNat := by
    omega
  rw [steps, ancestor_add, jumped, Option.bind_some]

theorem getAncestorLoop_eq (nonneg : 0 ≤ height) (turns : Nat) :
    ∀ {pindex : Uint256} {entry : CBlockIndex}, blocks.lookup pindex = some entry →
      height ≤ entry.nHeight → entry.nHeight - height < turns →
      getAncestorLoop blocks height turns pindex entry.nHeight =
        ancestor (parentOf blocks) (entry.nHeight - height).toNat pindex := by
  induction turns with
  | zero =>
    intro pindex entry _ above enough
    omega
  | succ turns ih =>
    intro pindex entry found above enough
    rw [getAncestorLoop]
    by_cases arrived : entry.nHeight > height
    · rw [if_pos arrived, found]
      obtain ⟨pprev, parent, link, parentFound, parentHeight, byParent⟩ :=
        linked.ancestor_of_parent found nonneg arrived
      have viaParent := ih parentFound (by omega) (by omega)
      rw [← byParent, parentHeight] at viaParent
      cases skips : entry.pskip with
      | none =>
        simp only [skips, link]
        exact viaParent
      | some pskip =>
        cases follows : followsSkip entry.nHeight height with
        | false =>
          simp only [skips, link]
          exact viaParent
        | true =>
          have reaches := followsSkip_le follows
          obtain ⟨target, targetFound, targetHeight, bySkip⟩ :=
            linked.ancestor_of_skip found skips nonneg arrived reaches
          have lower : getSkipHeight entry.nHeight < entry.nHeight := getSkipHeight_lt (by omega)
          have viaSkip := ih targetFound (by omega) (by omega)
          rw [← bySkip, targetHeight] at viaSkip
          simp only [skips]
          exact viaSkip
    · have zero : (entry.nHeight - height).toNat = 0 := by omega
      rw [if_neg arrived, zero, ancestor]

theorem getAncestor_eq (found : blocks.lookup pindex = some entry)
    (nonneg : 0 ≤ height) (within : height ≤ entry.nHeight) :
    getAncestor blocks pindex height = ancestor (parentOf blocks) (entry.nHeight - height).toNat pindex := by
  rw [getAncestor, found]
  dsimp only
  rw [if_neg (by omega)]
  exact getAncestorLoop_eq linked nonneg _ found within (by omega)

end

/-! ## Adding an entry -/

theorem Linked.ancestor_insert (linked : Linked blocks) (unknown : blocks.lookup hash = none)
    (found : blocks.lookup pindex = some entry) (steps : Nat) :
    ancestor (parentOf (blocks.insert hash added)) steps pindex = ancestor (parentOf blocks) steps pindex := by
  symm
  have agree : ∀ key, (∃ old, blocks.lookup key = some old) →
      parentOf blocks key = parentOf (blocks.insert hash added) key := by
    rintro key ⟨old, oldFound⟩
    rw [parentOf_eq oldFound, parentOf_eq (lookup_insert_of_unknown unknown oldFound)]
  have closed : ∀ key next, (∃ old, blocks.lookup key = some old) →
      parentOf blocks key = some next → ∃ old, blocks.lookup next = some old := by
    rintro key next ⟨old, oldFound⟩ above
    rw [parentOf_eq oldFound] at above
    obtain ⟨parent, parentFound, _⟩ := linked.child key old next oldFound above
    exact ⟨parent, parentFound⟩
  exact ancestor_congr agree closed steps ⟨entry, found⟩

/-- A new entry keeps the index linked if it is a root, or one above a known parent
with a right skip pointer. -/
theorem Linked.insert (linked : Linked blocks) (unknown : blocks.lookup hash = none)
    (nonneg : 0 ≤ added.nHeight) (root : added.pprev = none → added.nHeight = 0)
    (child : ∀ pprev, added.pprev = some pprev →
      ∃ parent, blocks.lookup pprev = some parent ∧ added.nHeight = parent.nHeight + 1)
    (skip : ∀ pskip, added.pskip = some pskip → ancestor (parentOf (blocks.insert hash added))
        (added.nHeight - getSkipHeight added.nHeight).toNat hash = some pskip) :
    Linked (blocks.insert hash added) := by
  refine .of_entries fun pindex entry found => ?_
  rcases lookup_insert_cases found with ⟨rfl, rfl⟩ | old
  · refine ⟨nonneg, root, fun pprev link => ?_, skip⟩
    obtain ⟨parent, parentFound, height⟩ := child pprev link
    exact ⟨parent, lookup_insert_of_unknown unknown parentFound, height⟩
  · refine ⟨linked.nonneg pindex entry old, linked.root pindex entry old, fun pprev link => ?_, fun pskip skips => ?_⟩
    · obtain ⟨parent, parentFound, height⟩ := linked.child pindex entry pprev old link
      exact ⟨parent, lookup_insert_of_unknown unknown parentFound, height⟩
    · rw [linked.ancestor_insert unknown old]
      exact linked.skip pindex entry pskip old skips

/-! ## A chain without forks -/

theorem toNat_uintToArith256_ofNat {number : Nat} (fits : number < 2 ^ 256) :
    (uintToArith256 (.ofNat number)).toNat = number := by
  have spelled : (Uint256.ofNat number).toNat = number := ofLeBytes_leBytes_of_lt (by simpa using fits)
  rw [uintToArith256, spelled, BitVec.toNat_ofNat, Nat.mod_eq_of_lt fits]

theorem uint256_ofNat_inj {left right : Nat} (leftFits : left < 2 ^ 256) (rightFits : right < 2 ^ 256)
    (same : Uint256.ofNat left = Uint256.ofNat right) : left = right := by
  have spelled := congrArg (fun blob => (uintToArith256 blob).toNat) same
  simpa only [toNat_uintToArith256_ofNat leftFits, toNat_uintToArith256_ofNat rightFits] using spelled

def straightEntry (entries : Nat → CBlockIndex) (height : Nat) : CBlockIndex :=
  { entries height with
    pprev := if height = 0 then none else some (.ofNat (height - 1))
    pskip := none
    nHeight := height }

/-- Entries by height, each stored under its height and linked to the one before. -/
def straightChain (entries : Nat → CBlockIndex) : Nat → BlockMap
  | 0 => ∅
  | height + 1 => (straightChain entries height).insert (.ofNat height) (straightEntry entries height)

section StraightChain

variable {entries : Nat → CBlockIndex} {size : Nat}

theorem lookup_straightChain (fits : size < 2 ^ 256) :
    (straightChain entries size).lookup key = some entry ↔
      ∃ height < size, key = .ofNat height ∧ entry = straightEntry entries height := by
  induction size with
  | zero => simp [straightChain]
  | succ size ih =>
    have before := ih (by omega)
    rw [straightChain]
    by_cases same : key = .ofNat size
    · subst same
      rw [AList.lookup_insert]
      constructor
      · rintro ⟨⟩
        exact ⟨size, by omega, rfl, rfl⟩
      · rintro ⟨height, below, key, rfl⟩
        rw [uint256_ofNat_inj (by omega) (by omega) key]
    · rw [AList.lookup_insert_ne same, before]
      constructor
      · rintro ⟨height, below, rest⟩
        exact ⟨height, by omega, rest⟩
      rintro ⟨height, below, rfl, rest⟩
      refine ⟨height, ?_, rfl, rest⟩
      by_contra top
      exact same (congrArg _ (by omega))

theorem lookup_straightChain_top (fits : size < 2 ^ 256) {height : Nat} (below : height < size) :
    (straightChain entries size).lookup (.ofNat height) = some (straightEntry entries height) :=
  (lookup_straightChain fits).mpr ⟨height, below, rfl, rfl⟩

theorem linked_straightChain (fits : size < 2 ^ 256) : Linked (straightChain entries size) := by
  refine .of_entries fun pindex entry found => ?_
  obtain ⟨height, below, -, rfl⟩ := (lookup_straightChain fits).mp found
  refine ⟨Int.natCast_nonneg height, fun root => ?_, fun pprev link => ?_, nofun⟩
  · simp only [straightEntry, ite_eq_left_iff, reduceCtorEq, imp_false, not_not] at root
    rw [root]
    rfl
  · simp only [straightEntry, Option.ite_none_left_eq_some, Option.some_inj] at link
    obtain ⟨above, rfl⟩ := link
    refine ⟨straightEntry entries (height - 1), lookup_straightChain_top fits (by omega), ?_⟩
    simp only [straightEntry]
    omega

end StraightChain

end Sharecoin
