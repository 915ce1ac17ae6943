import Sharecoin.Common.Bloom
import Mathlib.Logic.Function.Basic

/-! The cuckoo cache of signature checks. An element is only stored in one of its eight slots. An
insertion that finds them taken moves elements on to other slots of theirs, and drops the last one. -/

set_option autoImplicit false

namespace Sharecoin

/-- The vectors are functions of the slot. A collection flag lets the slot be used again. -/
structure CuckooCache (Element : Type) where
  size : UInt32
  table : Nat → Element
  collectionFlags : Nat → Bool
  epochFlags : Nat → Bool
  epochHeuristicCounter : UInt32
  epochSize : UInt32
  depthLimit : UInt8

inductive CuckooOp (Element : Type) where
  | insert (e : Element)
  | contains (e : Element) (erase : Bool)

namespace CuckooCache

variable {Element : Type} (hash : Nat → Element → UInt32)

/-- Given the depth limit that it computes in floating point. -/
def setup [Inhabited Element] (newSize : UInt32) (depthLimit : UInt8) : CuckooCache Element :=
  let size := max 2 newSize
  let epochSize := max 1 (45 * size / 100)
  { size, table := fun _ => default, collectionFlags := fun _ => true, epochFlags := fun _ => false
    epochHeuristicCounter := epochSize, epochSize, depthLimit }

def computeHashes (size : UInt32) (e : Element) : List Nat :=
  (List.range 8).map fun select => fastRange32 (hash select e) size.toNat

section Operations

variable (cache : CuckooCache Element)

/-- `allow_erase` and `please_keep`. -/
def setFlag (n : Nat) (erasable : Bool) : CuckooCache Element :=
  { cache with collectionFlags := Function.update cache.collectionFlags n erasable }

def epochUnusedCount : UInt32 :=
  .ofNat ((List.range cache.size.toNat).countP fun i => cache.epochFlags i && !cache.collectionFlags i)

/-- Whether `epoch_check` starts a new epoch. -/
def startsEpoch : Bool :=
  cache.epochHeuristicCounter == 0 && decide (cache.epochUnusedCount ≥ cache.epochSize)

def epochCheck : CuckooCache Element :=
  if cache.epochHeuristicCounter ≠ 0 then { cache with epochHeuristicCounter := cache.epochHeuristicCounter - 1 }
  else if cache.epochUnusedCount ≥ cache.epochSize then
    { cache with
      epochFlags := fun _ => false
      collectionFlags := fun i => !cache.epochFlags i || cache.collectionFlags i
      epochHeuristicCounter := cache.epochSize }
  else
    { cache with
      epochHeuristicCounter := max 1 (max (cache.epochSize / 16) (cache.epochSize - cache.epochUnusedCount)) }

def setSlot (loc : Nat) (e : Element) (epoch : Bool) : CuckooCache Element :=
  { cache with
    table := Function.update cache.table loc e
    epochFlags := Function.update cache.epochFlags loc epoch }

/-- The loop of `insert` with some depth left and an element in hand. -/
def insertLoop : Nat → Nat → Bool → Element → CuckooCache Element → CuckooCache Element
  | 0, _, _, _, cache => cache
  | depth + 1, lastLoc, lastEpoch, e, cache =>
    let locs := computeHashes hash cache.size e
    match locs.find? cache.collectionFlags with
    | some loc => (cache.setSlot loc e lastEpoch).setFlag loc false
    | none =>
      let lastLoc := locs.getD ((1 + locs.idxOf lastLoc) &&& 7) 0
      insertLoop depth lastLoc (cache.epochFlags lastLoc) (cache.table lastLoc) (cache.setSlot lastLoc e lastEpoch)

variable [DecidableEq Element]

def slotOf (e : Element) : Option Nat :=
  (computeHashes hash cache.size e).find? fun loc => cache.table loc == e

/-- The last location of the loop is invalid at first. -/
def insert (e : Element) : CuckooCache Element :=
  let cache := cache.epochCheck
  match cache.slotOf hash e with
  | some loc => { cache.setFlag loc false with epochFlags := Function.update cache.epochFlags loc true }
  | none => insertLoop hash cache.depthLimit.toNat (2 ^ 32 - 1) true e cache

def contains (e : Element) (erase : Bool) : Bool × CuckooCache Element :=
  match cache.slotOf hash e with
  | some loc => (true, if erase then cache.setFlag loc true else cache)
  | none => (false, cache)

def apply : CuckooOp Element → CuckooCache Element
  | .insert e => cache.insert hash e
  | .contains e erase => (cache.contains hash e erase).2

end Operations

/-- An element that is found and that nothing lets be dropped. -/
def Holds (cache : CuckooCache Element) (e : Element) : Prop :=
  ∃ loc ∈ computeHashes hash cache.size e, cache.table loc = e ∧ cache.collectionFlags loc = false

/-- Elements other than the default one stand in one slot, of their own eight, and were inserted. -/
structure Sound [Inhabited Element] (inserted : Element → Prop) (cache : CuckooCache Element) : Prop where
  placed : ∀ loc, cache.table loc ≠ default → loc ∈ computeHashes hash cache.size (cache.table loc)
  known : ∀ loc, cache.table loc ≠ default → inserted (cache.table loc)
  single : ∀ loc other, cache.table loc ≠ default → cache.table other = cache.table loc → other = loc
  kept : ∀ loc, cache.collectionFlags loc = false → cache.table loc ≠ default

variable {hash} {cache after : CuckooCache Element} {inserted : Element → Prop} {e : Element} {loc other : Nat}

@[grind =]
theorem table_setSlot {epoch : Bool} :
    (cache.setSlot loc e epoch).table other = if other = loc then e else cache.table other :=
  Function.update_apply ..

@[grind =]
theorem flags_setFlag {erasable : Bool} :
    (cache.setFlag loc erasable).collectionFlags other = if other = loc then erasable else cache.collectionFlags other :=
  Function.update_apply ..

theorem epochCheck_spec (cache : CuckooCache Element) :
    cache.epochCheck.size = cache.size ∧ cache.epochCheck.table = cache.table ∧
      (∀ loc, cache.epochCheck.collectionFlags loc = false → cache.collectionFlags loc = false) ∧
      (cache.startsEpoch = false → cache.epochCheck.collectionFlags = cache.collectionFlags) := by
  unfold epochCheck startsEpoch
  split
  · simp
  · split <;> simp_all

theorem contains_iff [DecidableEq Element] {erase : Bool} :
    (cache.contains hash e erase).1 = true ↔ ∃ loc ∈ computeHashes hash cache.size e, cache.table loc = e := by
  have found : (cache.contains hash e erase).1 = (cache.slotOf hash e).isSome := by
    unfold contains
    split <;> simp [*]
  simp [found, slotOf]

variable [Inhabited Element]

section Sound

variable (sound : Sound hash inserted cache)

include sound

theorem Sound.reflag (size : after.size = cache.size) (table : after.table = cache.table)
    (kept : ∀ loc, after.collectionFlags loc = false → cache.table loc ≠ default) : Sound hash inserted after := by
  obtain ⟨placed, known, single, _⟩ := sound
  constructor <;> simpa only [size, table]

theorem Sound.setSlot (absent : ∀ other, cache.table other ≠ e) (named : e ≠ default) (new : inserted e)
    (own : loc ∈ computeHashes hash cache.size e) (epoch : Bool) : Sound hash inserted (cache.setSlot loc e epoch) := by
  obtain ⟨placed, known, single, kept⟩ := sound
  have size : (cache.setSlot loc e epoch).size = cache.size := rfl
  have flags : (cache.setSlot loc e epoch).collectionFlags = cache.collectionFlags := rfl
  constructor <;> grind

/-- What was to be kept, and the element in hand, is stored in the end but for one element. -/
theorem Sound.insertLoop (depth lastLoc : Nat) (lastEpoch : Bool) (absent : ∀ other, cache.table other ≠ e)
    (named : e ≠ default) (new : inserted e) :
    Sound hash inserted (insertLoop hash depth lastLoc lastEpoch e cache) ∧
      ∃ lost, ∀ x, x ≠ lost → (x = e ∨ ∃ loc, cache.table loc = x ∧ cache.collectionFlags loc = false) →
        ∃ loc, (CuckooCache.insertLoop hash depth lastLoc lastEpoch e cache).table loc = x := by
  induction depth generalizing cache lastLoc lastEpoch e with
  | zero =>
    refine ⟨sound, e, fun x other known => ?_⟩
    obtain ⟨loc, stored, _⟩ := known.resolve_left other
    exact ⟨loc, stored⟩
  | succ depth ih =>
    rw [CuckooCache.insertLoop]
    dsimp only
    cases found : (computeHashes hash cache.size e).find? cache.collectionFlags with
    | some loc =>
      have free := List.find?_some found
      have placed := sound.setSlot absent named new (List.mem_of_find?_eq_some found) lastEpoch
      refine ⟨placed.reflag rfl rfl fun place flag => ?_, default, fun x _ known => ?_⟩
      · grind [placed.kept place]
      change ∃ place, (cache.setSlot loc e lastEpoch).table place = x
      rcases known with rfl | ⟨place, stored, flag⟩
      · exact ⟨loc, by grind⟩
      · exact ⟨place, by grind⟩
    | none =>
      generalize chosen : (computeHashes hash cache.size e).getD
        ((1 + (computeHashes hash cache.size e).idxOf lastLoc) &&& 7) 0 = loc
      have own : loc ∈ computeHashes hash cache.size e := by
        have inside : (1 + (computeHashes hash cache.size e).idxOf lastLoc) &&& 7 <
            (computeHashes hash cache.size e).length := by
          rw [computeHashes, List.length_map, List.length_range]
          exact Nat.and_lt_two_pow _ (by decide : 7 < 2 ^ 3)
        rw [← chosen, List.getD_eq_getElem?_getD, List.getElem?_eq_getElem inside]
        exact List.getElem_mem inside
      have taken : cache.collectionFlags loc = false := by simpa using List.find?_eq_none.mp found loc own
      have moved := sound.kept loc taken
      -- The element that was there is the next one in hand.
      obtain ⟨holds, lost, rest⟩ := ih (sound.setSlot absent named new own lastEpoch) loc (cache.epochFlags loc)
        (by grind [sound.single loc]) moved (sound.known loc moved)
      refine ⟨holds, lost, fun x other known => rest x other ?_⟩
      by_cases displaced : x = cache.table loc
      · exact .inl displaced
      rcases known with rfl | ⟨place, stored, flag⟩
      · exact .inr ⟨loc, by grind, taken⟩
      · exact .inr ⟨place, by grind, flag⟩

variable [DecidableEq Element]

theorem Sound.insert (named : e ≠ default) (new : inserted e) :
    Sound hash inserted (cache.insert hash e) ∧ (cache.startsEpoch = false →
      ∃ lost, ∀ x, x ≠ lost → (x = e ∨ ∃ loc, cache.table loc = x ∧ cache.collectionFlags loc = false) →
        ∃ loc, (cache.insert hash e).table loc = x) := by
  obtain ⟨size, table, fewer, flags⟩ := cache.epochCheck_spec
  have checked : Sound hash inserted cache.epochCheck :=
    sound.reflag size table fun loc flag => sound.kept loc (fewer loc flag)
  unfold CuckooCache.insert
  dsimp only
  cases found : cache.epochCheck.slotOf hash e with
  | some loc =>
    have stored : cache.epochCheck.table loc = e := by simpa using List.find?_some found
    refine ⟨checked.reflag rfl rfl fun place flag => ?_, fun _ => ⟨default, fun x _ known => ?_⟩⟩
    · grind [checked.kept place]
    change ∃ place, cache.epochCheck.table place = x
    rcases known with rfl | ⟨place, here, _⟩
    · exact ⟨loc, stored⟩
    · exact ⟨place, table ▸ here⟩
  | none =>
    have absent : ∀ other, cache.epochCheck.table other ≠ e := by
      rintro other rfl
      simpa using List.find?_eq_none.mp found other (checked.placed other named)
    obtain ⟨holds, lost, rest⟩ :=
      checked.insertLoop cache.epochCheck.depthLimit.toNat (2 ^ 32 - 1) true absent named new
    refine ⟨holds, fun same => ⟨lost, ?_⟩⟩
    rwa [table, flags same] at rest

end Sound

variable [DecidableEq Element]

theorem Sound.apply (sound : Sound hash inserted cache) {op : CuckooOp Element}
    (new : ∀ e, op = .insert e → e ≠ default ∧ inserted e) : Sound hash inserted (cache.apply hash op) := by
  cases op with
  | insert e => exact (sound.insert (new e rfl).1 (new e rfl).2).1
  | contains e erase =>
    unfold CuckooCache.apply contains
    dsimp only
    cases cache.slotOf hash e with
    | none => exact sound
    | some loc =>
      cases erase with
      | false => exact sound
      | true => exact sound.reflag rfl rfl fun place flag => by grind [sound.kept place]

/-- From an empty cache on, for operations on elements other than the default one: an element is in one
slot, and what is found was inserted. An insertion that starts no epoch loses one element at most. -/
theorem insert_loses_at_most_one (hash : Nat → Element → UInt32) (newSize : UInt32) (depthLimit : UInt8)
    (ops : List (CuckooOp Element)) (named : .insert default ∉ ops) :
    let cache := ops.foldl (·.apply hash ·) (setup newSize depthLimit)
    (∀ loc, cache.table loc ≠ default → loc ∈ computeHashes hash cache.size (cache.table loc) ∧
      ∀ other, cache.table other = cache.table loc → other = loc) ∧
    (∀ e erase, e ≠ default → (cache.contains hash e erase).1 = true → .insert e ∈ ops) ∧
    ∀ e, e ≠ default → cache.startsEpoch = false → ∃ lost, ∀ x, x ≠ default → x ≠ lost →
      x = e ∨ cache.Holds hash x → ((cache.insert hash e).contains hash x false).1 = true := by
  intro cache
  have sound (inserted : Element → Prop) (all : ∀ e, .insert e ∈ ops → inserted e) : Sound hash inserted cache := by
    refine List.foldlRecOn (motive := Sound hash inserted) ops _ ?_ ?_
    · constructor <;> simp [setup]
    · rintro cache sound op member
      refine sound.apply fun e same => ⟨?_, all e (same ▸ member)⟩
      rintro rfl
      exact named (same ▸ member)
  have own := sound (.insert · ∈ ops) fun _ => id
  refine ⟨fun loc stored => ⟨own.placed loc stored, fun other => own.single loc other stored⟩, ?_, ?_⟩
  · intro e erase other found
    obtain ⟨loc, -, rfl⟩ := contains_iff.mp found
    exact own.known loc other
  · intro e other same
    obtain ⟨after, lose⟩ := (sound (fun _ => True) fun _ _ => trivial).insert other trivial
    obtain ⟨lost, rest⟩ := lose same
    refine ⟨lost, fun x other apart held => ?_⟩
    obtain ⟨loc, rfl⟩ := rest x apart (held.imp_right fun ⟨loc, _, firm⟩ => ⟨loc, firm⟩)
    exact contains_iff.mpr ⟨loc, after.placed loc other, rfl⟩

/-- Two slots for three elements. -/
theorem insert_into_full_cache :
    let hash : Nat → Nat → UInt32 := fun select e => if (select + e) % 2 = 0 then 0 else 0x80000000
    let cache := [CuckooOp.insert 1, .insert 2].foldl (·.apply hash ·) (setup 2 1)
    ∃ lost, ∀ x, x ≠ 0 → x ≠ lost → x = 3 ∨ cache.Holds hash x →
      ((cache.insert hash 3).contains hash x false).1 = true :=
  (insert_loses_at_most_one _ 2 1 _ (by simp)).2.2 3 (by decide) (by decide +kernel)

end CuckooCache

end Sharecoin
