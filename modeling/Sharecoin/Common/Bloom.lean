import Sharecoin.Lib.Codec
import Mathlib.Data.List.Basic

/-! The rolling bloom filter. A bit position is tagged with the generation that marked it
last, or with zero. A new generation first wipes the tag it is going to use, which is that
of the third generation back, so the keys of the last two generations keep their marks. -/

set_option autoImplicit false

namespace Sharecoin

open Lib

/-- An entry of `data` holds the words at `2 * i` and `2 * i + 1`. The counters are
`int`s and wrap. -/
structure CRollingBloomFilter where
  nEntriesPerGeneration : Int32
  nEntriesThisGeneration : Int32
  nGeneration : Nat
  data : List (BitVec 64 × BitVec 64)
  nTweak : UInt32
  nHashFuncs : Nat

def fastRange32 (x : UInt32) (n : Nat) : Nat := x.toNat * n / 2 ^ 32

namespace CRollingBloomFilter

def reset (filter : CRollingBloomFilter) (nTweak : UInt32) : CRollingBloomFilter :=
  { filter with
    nTweak, nEntriesThisGeneration := 0, nGeneration := 1, data := .replicate filter.data.length (0, 0) }

def entriesPerGeneration (nElements : UInt32) : Nat :=
  nElements.toNat / 2 + if nElements.toNat % 2 ≠ 0 then 1 else 0

/-- The constructor, given the numbers of hash functions and bits it finds for the rate of
false positives. -/
def create (nElements nFilterBits : UInt32) (nHashFuncs : Nat) (nTweak : UInt32) : CRollingBloomFilter :=
  reset
    { nEntriesPerGeneration := .ofNat (entriesPerGeneration nElements), nEntriesThisGeneration := 0
      nGeneration := 1, data := .replicate ((nFilterBits.toNat + 63) / 64) (0, 0), nTweak, nHashFuncs } nTweak

def setBit (word : BitVec 64) (bit value : Nat) : BitVec 64 :=
  (word &&& ~~~(1#64 <<< bit)) ||| (BitVec.ofNat 64 value <<< bit)

def mark (nGeneration : Nat) (data : List (BitVec 64 × BitVec 64)) (place : Nat × Nat) : List (BitVec 64 × BitVec 64) :=
  data.modify place.1 fun words =>
    (setBit words.1 place.2 (nGeneration &&& 1), setBit words.2 place.2 (nGeneration >>> 1))

def wipe (nGeneration : Nat) (words : BitVec 64 × BitVec 64) : BitVec 64 × BitVec 64 :=
  let mask := (words.1 ^^^ (0 - .ofNat 64 (nGeneration &&& 1))) ||| (words.2 ^^^ (0 - .ofNat 64 (nGeneration >>> 1)))
  (words.1 &&& mask, words.2 &&& mask)

def nextGeneration (filter : CRollingBloomFilter) : CRollingBloomFilter :=
  let nGeneration := if filter.nGeneration + 1 = 4 then 1 else filter.nGeneration + 1
  { filter with nEntriesThisGeneration := 0, nGeneration, data := filter.data.map (wipe nGeneration) }

variable (hash : Nat → UInt32 → Bytes → UInt32)

/-- The entries and bits that the hashes of a key select. -/
def places (filter : CRollingBloomFilter) (vKey : Bytes) : List (Nat × Nat) :=
  (List.range filter.nHashFuncs).map fun n =>
    let h := hash n filter.nTweak vKey
    (fastRange32 h (2 * filter.data.length) / 2, h.toNat % 64)

def insert (filter : CRollingBloomFilter) (vKey : Bytes) : CRollingBloomFilter :=
  let filter := if filter.nEntriesThisGeneration = filter.nEntriesPerGeneration then filter.nextGeneration else filter
  { filter with
    nEntriesThisGeneration := filter.nEntriesThisGeneration + 1
    data := (filter.places hash vKey).foldl (mark filter.nGeneration) filter.data }

def contains (filter : CRollingBloomFilter) (vKey : Bytes) : Bool :=
  (filter.places hash vKey).all fun (entry, bit) =>
    let words := filter.data.getD entry (0, 0)
    (words.1 ||| words.2) >>> bit &&& 1 != 0

/-! ## Tags -/

def tagOf (words : BitVec 64 × BitVec 64) (bit : Nat) : Bool × Bool := (words.1.getLsbD bit, words.2.getLsbD bit)

def generationTag (nGeneration : Nat) : Bool × Bool := (nGeneration.testBit 0, nGeneration.testBit 1)

def tag (data : List (BitVec 64 × BitVec 64)) (place : Nat × Nat) : Bool × Bool :=
  tagOf (data.getD place.1 (0, 0)) place.2

theorem generationTag_inj : ∀ g < 4, ∀ g' < 4, generationTag g = generationTag g' → g = g' := by decide

variable {bit other value nGeneration : Nat}

theorem getLsbD_shifted (binary : value < 2) (small : bit < 64) :
    (BitVec.ofNat 64 value <<< bit).getLsbD other = (decide (other = bit) && value.testBit 0) := by
  rw [BitVec.getLsbD_shiftLeft, BitVec.getLsbD_ofNat]
  rcases Nat.lt_trichotomy other bit with less | rfl | more
  · simp [less, less.ne]
  · simp [small]
  · have zero : value.testBit (other - bit) = false :=
      Nat.testBit_lt_two_pow (binary.trans_le (Nat.le_self_pow (by omega) 2))
    simp [zero, more.ne']

theorem getLsbD_setBit (word : BitVec 64) (binary : value < 2) (small : bit < 64) (inside : other < 64) :
    (setBit word bit value).getLsbD other = if other = bit then value.testBit 0 else word.getLsbD other := by
  simp only [setBit, BitVec.getLsbD_or, BitVec.getLsbD_and, BitVec.getLsbD_not, getLsbD_shifted binary small,
    getLsbD_shifted Nat.one_lt_two small]
  by_cases same : other = bit <;> simp [same, inside]

theorem getLsbD_mask (binary : value < 2) (small : bit < 64) :
    (0 - BitVec.ofNat 64 value).getLsbD bit = value.testBit 0 := by
  obtain rfl | rfl : value = 0 ∨ value = 1 := by omega
  · simp
  · rw [show 0 - BitVec.ofNat 64 1 = BitVec.allOnes 64 by decide, BitVec.getLsbD_allOnes]
    simp [small]

theorem generationBits (few : nGeneration < 4) : nGeneration &&& 1 < 2 ∧ nGeneration >>> 1 < 2 ∧
    (nGeneration &&& 1).testBit 0 = nGeneration.testBit 0 ∧ (nGeneration >>> 1).testBit 0 = nGeneration.testBit 1 := by
  rw [Nat.and_one_is_mod, Nat.shiftRight_one]
  refine ⟨by omega, by omega, by simp, ?_⟩
  rw [← Nat.shiftRight_one, Nat.testBit_shiftRight]

theorem tagOf_wipe {words : BitVec 64 × BitVec 64} (few : nGeneration < 4) (small : bit < 64)
    (apart : tagOf words bit ≠ generationTag nGeneration) : tagOf (wipe nGeneration words) bit = tagOf words bit := by
  obtain ⟨low, high, first, second⟩ := generationBits few
  simp only [tagOf, wipe, BitVec.getLsbD_and, BitVec.getLsbD_or, BitVec.getLsbD_xor, getLsbD_mask low small,
    getLsbD_mask high small, generationTag, first, second] at apart ⊢
  have decided : ∀ a b c d : Bool, (a, b) ≠ (c, d) → (a && (a ^^ c || b ^^ d), b && (a ^^ c || b ^^ d)) = (a, b) := by
    decide
  exact decided _ _ _ _ apart

variable {data : List (BitVec 64 × BitVec 64)} {place marked : Nat × Nat}

theorem tag_mark (few : nGeneration < 4) (small : marked.2 < 64) (inside : place.1 < data.length ∧ place.2 < 64) :
    tag (mark nGeneration data marked) place = if place = marked then generationTag nGeneration else tag data place := by
  obtain ⟨low, high, first, second⟩ := generationBits few
  obtain ⟨entry, bit⟩ := place
  simp only [mark, tag, List.getD_eq_getElem?_getD, List.getElem?_modify, List.getElem?_eq_getElem inside.1]
  by_cases same : marked.1 = entry
  · simp only [same, if_true, Option.map_eq_map, Option.map_some, Option.getD_some, tagOf,
      getLsbD_setBit _ low small inside.2, getLsbD_setBit _ high small inside.2, first, second]
    by_cases own : bit = marked.2 <;> simp [Prod.ext_iff, same, own, generationTag]
  · simp [same, Prod.ext_iff, Ne.symm same]

theorem length_marks (marks : List (Nat × Nat)) : (marks.foldl (mark nGeneration) data).length = data.length := by
  induction marks generalizing data with
  | nil => rfl
  | cons first marks ih => rw [List.foldl_cons, ih, mark, List.length_modify]

theorem tag_marks (few : nGeneration < 4) {marks : List (Nat × Nat)} (small : ∀ marked ∈ marks, marked.2 < 64)
    (inside : place.1 < data.length ∧ place.2 < 64) :
    tag (marks.foldl (mark nGeneration) data) place =
      if place ∈ marks then generationTag nGeneration else tag data place := by
  induction marks generalizing data with
  | nil => simp
  | cons first marks ih =>
    have long : (mark nGeneration data first).length = data.length := List.length_modify ..
    rw [List.foldl_cons, ih (List.forall_mem_cons.mp small).2 (long ▸ inside),
      tag_mark few (small first (.head _)) inside]
    by_cases own : place = first <;> by_cases later : place ∈ marks <;> simp [own, later]

/-! ## What is remembered -/

variable {filter after : CRollingBloomFilter} {vKey : Bytes}

theorem places_inside (some : filter.data ≠ []) :
    ∀ place ∈ filter.places hash vKey, place.1 < filter.data.length ∧ place.2 < 64 := by
  intro place listed
  obtain ⟨n, -, rfl⟩ := List.mem_map.mp listed
  have long := List.length_pos_iff.mpr some
  have scaled : fastRange32 (hash n filter.nTweak vKey) (2 * filter.data.length) < 2 * filter.data.length :=
    Nat.div_lt_of_lt_mul (Nat.mul_lt_mul_of_pos_right (hash n filter.nTweak vKey).toNat_lt (by omega))
  exact ⟨Nat.div_lt_of_lt_mul scaled, Nat.mod_lt _ (by decide)⟩

variable (filter)

/-- The filter after insertions that fill some generations and begin the next. The places of
a key of the last three generations have the tag of its generation or of a later one. -/
structure Remembers (size generations count : Nat) (keys : List Bytes) : Prop where
  some : filter.data ≠ []
  perGeneration : filter.nEntriesPerGeneration = .ofNat size
  counted : filter.nEntriesThisGeneration = .ofNat count
  room : count ≤ size
  generation : filter.nGeneration = generations % 3 + 1
  total : keys.length = size * generations + count
  marked : ∀ i key, keys[i]? = .some key → size * generations ≤ i + size * 2 → ∀ place ∈ filter.places hash key,
    ∃ later ≤ generations, i < size * (later + 1) ∧ tag filter.data place = generationTag (later % 3 + 1)

variable {hash filter} {size generations count : Nat} {keys : List Bytes}

namespace Remembers

variable (remembers : Remembers hash filter size generations count keys)

include remembers

/-- The tag wiped for the next generation is that of the third generation back. -/
theorem nextGeneration (full : count = size) : Remembers hash filter.nextGeneration size (generations + 1) 0 keys := by
  obtain ⟨some, perGeneration, -, -, generation, total, marked⟩ := remembers
  have next : (if filter.nGeneration + 1 = 4 then 1 else filter.nGeneration + 1) = (generations + 1) % 3 + 1 := by
    rw [generation]
    split <;> omega
  have same (key : Bytes) : filter.nextGeneration.places hash key = filter.places hash key := by
    simp only [places, CRollingBloomFilter.nextGeneration, List.length_map]
  refine ⟨by simpa [CRollingBloomFilter.nextGeneration] using some, perGeneration, rfl, Nat.zero_le _, next,
    by rw [total, full]; rfl, fun i key found live place listed => ?_⟩
  rw [Nat.mul_succ] at live
  rw [same] at listed
  have inside := places_inside hash some place listed
  obtain ⟨later, before, own, tagged⟩ := marked i key found (by omega) place listed
  refine ⟨later, Nat.le_succ_of_le before, own, ?_⟩
  have recent : generations < later + 2 := by
    refine Nat.lt_of_mul_lt_mul_left (a := size) ?_
    rw [Nat.mul_succ] at own
    rw [Nat.mul_add]
    omega
  rw [← tagged]
  simp only [tag, CRollingBloomFilter.nextGeneration, List.getD_eq_getElem?_getD, List.getElem?_map,
    List.getElem?_eq_getElem inside.1, Option.map_some, Option.getD_some, next] at tagged ⊢
  refine tagOf_wipe (by omega) inside.2 fun wiped => ?_
  have clash := generationTag_inj _ (by omega) _ (by omega) (tagged.symm.trans wiped)
  omega

theorem mark (more : count < size) (vKey : Bytes) :
    Remembers hash { filter with
      nEntriesThisGeneration := filter.nEntriesThisGeneration + 1
      data := (filter.places hash vKey).foldl (CRollingBloomFilter.mark filter.nGeneration) filter.data }
      size generations (count + 1) (keys ++ [vKey]) := by
  obtain ⟨some, perGeneration, counted, -, generation, total, marked⟩ := remembers
  refine ⟨?_, perGeneration, ?_, more, generation, by rw [List.length_append, total]; rfl,
    fun i key found live place listed => ?_⟩
  · rw [← List.length_pos_iff, length_marks]
    exact List.length_pos_iff.mpr some
  · rw [Int32.ofNat_add, ← counted]
    rfl
  simp only [places, length_marks] at listed
  rw [tag_marks (by omega) (fun marked own => (places_inside hash some marked own).2)
    (places_inside hash some place listed), generation]
  split
  next =>
    have below := (List.getElem?_eq_some_iff.mp found).1
    rw [List.length_append, List.length_singleton, total] at below
    exact ⟨generations, Nat.le_refl _, by rw [Nat.mul_succ]; omega, rfl⟩
  next unmarked =>
    rcases Nat.lt_or_ge i keys.length with old | new
    · rw [List.getElem?_append_left old] at found
      exact marked i key found live place listed
    · rw [List.getElem?_append_right new, List.getElem?_singleton] at found
      split at found
      · cases found
        exact absurd listed unmarked
      · cases found

theorem insert (positive : 0 < size) (fits : size < 2 ^ 32) (vKey : Bytes) :
    ∃ generations' count', Remembers hash (filter.insert hash vKey) size generations' count' (keys ++ [vKey]) := by
  have room := remembers.room
  have full : filter.nEntriesThisGeneration = filter.nEntriesPerGeneration ↔ count = size := by
    rw [remembers.counted, remembers.perGeneration]
    refine ⟨fun same => ?_, congrArg _⟩
    have wrapped : (BitVec.ofNat 32 count).toNat = (BitVec.ofNat 32 size).toNat :=
      congrArg (fun counter => counter.toBitVec.toNat) same
    rw [BitVec.toNat_ofNat, BitVec.toNat_ofNat] at wrapped
    omega
  rw [CRollingBloomFilter.insert]
  split
  next filled => exact ⟨_, _, (remembers.nextGeneration (full.mp filled)).mark positive vKey⟩
  next unfilled =>
    exact ⟨_, _, remembers.mark (Nat.lt_of_le_of_ne room fun same => unfilled (full.mpr same)) vKey⟩

theorem run (positive : 0 < size) (fits : size < 2 ^ 32) (more : List Bytes) :
    ∃ generations' count', Remembers hash (more.foldl (CRollingBloomFilter.insert hash) filter) size generations' count'
      (keys ++ more) := by
  induction more generalizing filter generations count keys with
  | nil => exact ⟨_, _, (List.append_nil keys).symm ▸ remembers⟩
  | cons key more ih =>
    obtain ⟨_, _, inserted⟩ := remembers.insert positive fits key
    obtain ⟨_, _, after⟩ := ih inserted
    rw [List.append_assoc] at after
    exact ⟨_, _, after⟩

theorem contains_of_recent {i : Nat} {key : Bytes} (found : keys[i]? = .some key)
    (live : size * generations ≤ i + size * 2) : filter.contains hash key = true := by
  refine List.all_eq_true.mpr fun place listed => ?_
  obtain ⟨later, -, -, tagged⟩ := remembers.marked i key found live place listed
  have tags : ∀ g < 3, ((generationTag (g + 1)).1 || (generationTag (g + 1)).2) = true := by decide
  have set := tags (later % 3) (Nat.mod_lt _ (by decide))
  rw [← tagged] at set
  refine bne_iff_ne.mpr fun zero => ?_
  have unset : (_ : BitVec 64).getLsbD 0 = false := congrArg (BitVec.getLsbD · 0) zero
  rw [BitVec.getLsbD_and, BitVec.getLsbD_ushiftRight, BitVec.getLsbD_or, show (1 : BitVec 64).getLsbD 0 = true by decide,
    Bool.and_true] at unset
  exact Bool.noConfusion (set.symm.trans unset)

end Remembers

/-! ## Calls -/

inductive Call where
  | insert (vKey : Bytes)
  | reset (nTweak : UInt32)

def apply (hash : Nat → UInt32 → Bytes → UInt32) (filter : CRollingBloomFilter) : Call → CRollingBloomFilter
  | .insert vKey => filter.insert hash vKey
  | .reset nTweak => filter.reset nTweak

theorem reset_apply (calls : List Call) (nTweak : UInt32) :
    (calls.foldl (apply hash) filter).reset nTweak = filter.reset nTweak := by
  induction calls generalizing filter with
  | nil => rfl
  | cons call calls ih =>
    rw [List.foldl_cons, ih]
    cases call with
    | insert vKey =>
      rw [apply, insert]
      split <;> simp [reset, nextGeneration, length_marks]
    | reset nTweak => simp [apply, reset]

/-- Whatever came before the last reset, the last `nElements` keys are in the filter. -/
theorem contains_recent (hash : Nat → UInt32 → Bytes → UInt32) {nElements nFilterBits : UInt32}
    (positive : 0 < nElements) (table : 0 < nFilterBits) (nHashFuncs : Nat) (nTweak : UInt32) (earlier : List Call)
    (nTweak' : UInt32) (keys : List Bytes) {key : Bytes} (recent : key ∈ keys.reverse.take nElements.toNat) :
    contains hash (keys.foldl (insert hash)
      ((earlier.foldl (apply hash) (create nElements nFilterBits nHashFuncs nTweak)).reset nTweak')) key = true := by
  have some : 0 < nElements.toNat ∧ 0 < nFilterBits.toNat := ⟨positive, table⟩
  have bound := nElements.toNat_lt
  have halves : nElements.toNat ≤ entriesPerGeneration nElements * 2 ∧ entriesPerGeneration nElements < 2 ^ 32 := by
    rw [entriesPerGeneration]
    split <;> omega
  have fresh : Remembers hash ((create nElements nFilterBits nHashFuncs nTweak).reset nTweak')
      (entriesPerGeneration nElements) 0 0 [] := by
    refine ⟨?_, rfl, rfl, Nat.zero_le _, rfl, rfl, by simp⟩
    simp only [reset, create, ne_eq, List.replicate_eq_nil_iff, List.length_replicate]
    omega
  rw [reset_apply]
  obtain ⟨generations, count, after⟩ := fresh.run (by omega) halves.2 keys
  obtain ⟨i, small, found⟩ := List.mem_take_iff_getElem.mp recent
  rw [List.getElem_reverse] at found
  have total := after.total
  rw [List.length_reverse] at small
  rw [List.nil_append] at total after
  refine after.contains_of_recent (List.getElem?_eq_some_iff.mpr ⟨_, found⟩) ?_
  omega

/-- Generations of one key: of four keys inserted after a reset the third is still known. -/
theorem contains_recent_third :
    let hash : Nat → UInt32 → Bytes → UInt32 := fun n _ key => .ofNat (n + 2 ^ 28 * key.length)
    contains hash ([[1], [1, 2], [1, 2, 3], [1, 2, 3, 4]].foldl (insert hash)
      (([.insert [7]].foldl (apply hash) (create 2 1000 3 0)).reset 1)) [1, 2, 3] = true :=
  contains_recent _ (by decide) (by decide) 3 0 [.insert [7]] 1 _ (by decide)

end CRollingBloomFilter

end Sharecoin
