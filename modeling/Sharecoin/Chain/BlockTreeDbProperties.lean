import Sharecoin.Chain.BlockTreeDb
import Sharecoin.Chain.AcceptHeaderProperties

/-! Writing an index and loading it again. An entry survives the disk up to the
fields that are rebuilt; loading reproduces an index whose entries are what the
linking loop would make of them; and every index grown by headers that count up
from genesis is such an index. -/

set_option autoImplicit false

namespace Sharecoin

open Lib CDiskBlockIndex

/-! ## One entry on disk -/

def diskEntry (entry : CBlockIndex) : CBlockIndex :=
  { nHeight := entry.nHeight
    nStatus := entry.nStatus
    nTx := entry.nTx
    nFile := if hasPosition entry.nStatus then entry.nFile else 0
    nDataPos := if hasData entry.nStatus then entry.nDataPos else 0
    nUndoPos := if hasUndo entry.nStatus then entry.nUndoPos else 0
    nVersion := entry.nVersion
    hashMerkleRoot := entry.hashMerkleRoot
    nTime := entry.nTime
    nBits := entry.nBits
    nNonce64 := entry.nNonce64
    mixHash := entry.mixHash }

variable (value : UInt32) {entry : CBlockIndex} {condition : Prop}

theorem reads_uint32 : Reads (readVarInt CDiskBlockIndex.UINT32_MAX) (writeVarInt value.toNat) value.toNat := by
  have bound := value.toNat_lt
  apply reads_readVarInt
  · omega
  · unfold CDiskBlockIndex.UINT32_MAX
    omega

theorem reads_int {value : Int} (high : value < 2 ^ 31) :
    Reads (readVarInt CDiskBlockIndex.INT_MAX) (writeVarInt value.toNat) value.toNat := by
  apply reads_readVarInt
  · omega
  · unfold CDiskBlockIndex.INT_MAX
    omega

theorem reads_le4 : Reads (readLe 4) (leBytes 4 value.toNat) value.toNat :=
  reads_readLe (by have bound := value.toNat_lt; omega)

theorem reads_le8 (value : UInt64) : Reads (readLe 8) (leBytes 8 value.toNat) value.toNat :=
  reads_readLe (by have bound := value.toNat_lt; omega)

private theorem announced_int [Decidable condition] {value : Int} (nonneg : 0 ≤ value) :
    ((if condition then value.toNat else 0 : Nat) : Int) = if condition then value else 0 := by
  split
  · exact Int.toNat_of_nonneg nonneg
  · rfl

private theorem announced_uint32 [Decidable condition] :
    UInt32.ofNat (if condition then value.toNat else 0) = if condition then value else 0 := by
  split
  · exact UInt32.ofNat_toNat
  · rfl

theorem reads_deserialize (hashPrev : Uint256) (heightLow : 0 ≤ entry.nHeight)
    (heightHigh : entry.nHeight < 2 ^ 31) (fileLow : 0 ≤ entry.nFile) (fileHigh : entry.nFile < 2 ^ 31) :
    Reads deserialize (serialize ⟨entry, hashPrev⟩) ⟨diskEntry entry, hashPrev⟩ := by
  unfold deserialize serialize
  refine Reads.bind (reads_readVarInt (by decide) (by decide)) ?_
  refine Reads.bind (reads_int heightHigh) ?_
  refine Reads.bind ((reads_uint32 entry.nStatus).map UInt32.ofNat) ?_
  rw [UInt32.ofNat_toNat]
  refine Reads.bind (reads_uint32 entry.nTx) ?_
  refine Reads.bind (reads_readIf (hasPosition entry.nStatus) (reads_int fileHigh)) ?_
  refine Reads.bind (reads_readIf (hasData entry.nStatus) (reads_uint32 entry.nDataPos)) ?_
  refine Reads.bind (reads_readIf (hasUndo entry.nStatus) (reads_uint32 entry.nUndoPos)) ?_
  refine Reads.bind (reads_le4 entry.nVersion.toUInt32) ?_
  refine Reads.bind hashPrev.reads_read ?_
  refine Reads.bind entry.hashMerkleRoot.reads_read ?_
  refine Reads.bind (reads_le4 entry.nTime) ?_
  refine Reads.bind (reads_le4 entry.nBits) ?_
  refine Reads.bind (reads_le8 entry.nNonce64) ?_
  have finished := Reads.map (fun mixHash => (⟨{ diskEntry entry with mixHash }, hashPrev⟩ : CDiskBlockIndex))
    entry.mixHash.reads_read
  simp only [announced_int fileLow, announced_uint32, UInt32.ofNat_toNat, UInt64.ofNat_toNat,
    Int.toNat_of_nonneg heightLow]
  exact finished

/-! ## The records of an index -/

variable {blocks : BlockMap} {env : HashEnv} {params : Params} {done : List Uint256}
  {blockinfo : List (Uint256 × CBlockIndex)}

def recordOf (entry : CBlockIndex) : Bytes := serialize (.ofBlockIndex entry)

/-- `blockinfo` lists exactly the entries of the index, in any order. -/
def Lists (blockinfo : List (Uint256 × CBlockIndex)) (blocks : BlockMap) : Prop :=
  ∀ key entry, (key, entry) ∈ blockinfo ↔ blocks.lookup key = some entry

theorem lookup_writeBatchSync (entries : ∀ key entry, (key, entry) ∈ blockinfo → blocks.lookup key = some entry)
    (db : BlockTreeDB) (key : Uint256) :
    (writeBatchSync blockinfo db).lookup key =
      if key ∈ blockinfo.map Prod.fst then (blocks.lookup key).map recordOf else db.lookup key := by
  induction blockinfo generalizing db with
  | nil => simp [writeBatchSync]
  | cons bi blockinfo ih =>
    have rest := ih (fun key entry member => entries key entry (.tail _ member))
      (db.insert bi.1 (recordOf bi.2))
    have step : writeBatchSync (bi :: blockinfo) db = writeBatchSync blockinfo (db.insert bi.1 (recordOf bi.2)) := rfl
    rw [step, rest]
    by_cases later : key ∈ blockinfo.map Prod.fst
    · have here : key ∈ (bi :: blockinfo).map Prod.fst := .tail _ later
      rw [if_pos later, if_pos here]
    by_cases same : key = bi.1
    · subst same
      have here : bi.1 ∈ (bi :: blockinfo).map Prod.fst := (.head _)
      rw [if_neg later, if_pos here, AList.lookup_insert, entries bi.1 bi.2 (.head _), Option.map_some]
    · have absent : key ∉ (bi :: blockinfo).map Prod.fst := by
        simpa [same] using later
      rw [if_neg later, if_neg absent, AList.lookup_insert_ne same]

theorem lookup_written (lists : Lists blockinfo blocks) (key : Uint256) :
    (writeBatchSync blockinfo ∅).lookup key = (blocks.lookup key).map recordOf := by
  rw [lookup_writeBatchSync (fun key entry => (lists key entry).mp)]
  split
  · rfl
  rename_i absent
  cases found : blocks.lookup key with
  | none => rfl
  | some entry =>
    have listed := (lists key entry).mpr found
    exact absurd (List.mem_map_of_mem listed) absent

theorem mem_cursor_iff {db : BlockTreeDB} {record : Sigma fun _ : Uint256 => Bytes} :
    record ∈ cursor db ↔ db.lookup record.1 = some record.2 := by
  have sorted : record ∈ cursor db ↔ record ∈ db.entries := (List.perm_insertionSort _ _).mem_iff
  rw [sorted]
  exact AList.mem_lookup_iff.symm

theorem cursor_keys_nodup (db : BlockTreeDB) : ((cursor db).map Sigma.fst).Nodup :=
  ((List.perm_insertionSort _ _).map _).nodup_iff.mpr db.nodupKeys

/-! ## Loading the records -/

def loadedEntry (entry : CBlockIndex) : CBlockIndex := assignLoaded {} entry.pprev (diskEntry entry)

/-- What makes an index survive the disk: its entries hash to their keys, pass the
proof-of-work check, have the ranges their encoding needs, and are what the
linking loop makes of them. -/
structure Reloadable (env : HashEnv) (params : Params) (blocks : BlockMap) : Prop where
  linked : Linked blocks
  hashed : ∀ key entry, blocks.lookup key = some entry → entry.getBlockHeader.getHash env.sha256d = key
  named : ∀ key entry, blocks.lookup key = some entry → key ≠ .zero
  worked : ∀ key entry, blocks.lookup key = some entry →
    (checkProofOfWork env entry.getBlockHeader entry.nBits params).1 = true
  height_lt : ∀ key entry, blocks.lookup key = some entry → entry.nHeight < 2 ^ 31
  file_range : ∀ key entry, blocks.lookup key = some entry → 0 ≤ entry.nFile ∧ entry.nFile < 2 ^ 31
  relinked : ∀ key entry, blocks.lookup key = some entry → linkedEntry blocks (loadedEntry entry) = entry

/-- The entries of `done` are finished, and others still pending. -/
structure UpTo (finishes : Uint256 → Option CBlockIndex) (waits : Uint256 → Option CBlockIndex → Prop)
    (done : List Uint256) (blocks : BlockMap) : Prop where
  finished : ∀ key ∈ done, blocks.lookup key = finishes key
  pending : ∀ key, key ∉ done → waits key (blocks.lookup key)

/-- The records of `done` are loaded; other keys are absent or hold the blank entry
a child's record made for its parent. -/
abbrev LoadedUpTo (blocks : BlockMap) : List Uint256 → BlockMap → Prop :=
  UpTo (fun key => (blocks.lookup key).map loadedEntry) fun key held =>
    held = none ∨ held = some {} ∧ ∃ entry, blocks.lookup key = some entry

theorem UpTo.insert {finishes : Uint256 → Option CBlockIndex} {waits : Uint256 → Option CBlockIndex → Prop}
    {done : List Uint256} {blocks : BlockMap} (upTo : UpTo finishes waits done blocks) {key : Uint256}
    {entry : CBlockIndex} (finish : finishes key = some entry) :
    UpTo finishes waits (key :: done) (blocks.insert key entry) := by
  constructor
  · intro other member
    by_cases same : other = key
    · subst same
      rw [AList.lookup_insert, finish]
    · rw [AList.lookup_insert_ne same]
      exact upTo.finished other (List.mem_of_ne_of_mem same member)
  · intro other missing
    rw [List.mem_cons, not_or] at missing
    rw [AList.lookup_insert_ne missing.1]
    exact upTo.pending other missing.2

variable {hash key : Uint256}

section Guts

variable {loading : BlockMap}

theorem isNull_eq_false (named : hash ≠ .zero) : hash.isNull = false := by
  rw [Bool.eq_false_iff]
  intro null
  exact named (hash.isNull_iff.mp null)

theorem lookup_emplaceDefault (hash key : Uint256) : (emplaceDefault loading hash).lookup key =
      if key = hash then some ((loading.lookup hash).getD {}) else loading.lookup key := by
  unfold emplaceDefault
  by_cases same : key = hash
  · subst same
    cases found : loading.lookup key <;> simp [found]
  · cases loading.lookup hash <;> simp [same, AList.lookup_insert_ne same]

theorem lookup_insertBlockIndex_of_found (found : loading.lookup key = some entry) :
    (insertBlockIndex loading hash).2.lookup key = some entry := by
  unfold insertBlockIndex
  split
  · exact found
  dsimp only
  rw [lookup_emplaceDefault]
  split
  next same =>
    rw [← same, found]
    rfl
  next => exact found

section

variable (upTo : LoadedUpTo blocks done loading)

include upTo

theorem LoadedUpTo.getD_eq (missing : key ∉ done) : (loading.lookup key).getD {} = {} := by
  rcases upTo.pending key missing with absent | ⟨blank, _⟩
  · rw [absent]
    rfl
  · rw [blank]
    rfl

theorem LoadedUpTo.blank (new : key ∉ done) (hash : Uint256) :
    (insertBlockIndex (emplaceDefault loading key) hash).2.lookup key = some {} := by
  apply lookup_insertBlockIndex_of_found
  rw [lookup_emplaceDefault, if_pos rfl, upTo.getD_eq new]

variable (found : blocks.lookup key = some entry)

include found

theorem LoadedUpTo.emplace : LoadedUpTo blocks done (emplaceDefault loading key) := by
  constructor
  · intro other member
    rw [lookup_emplaceDefault]
    split
    next same =>
      subst same
      rw [upTo.finished other member, found]
      rfl
    next => exact upTo.finished other member
  · intro other missing
    rw [lookup_emplaceDefault]
    split
    next same =>
      subst same
      exact .inr ⟨by rw [upTo.getD_eq missing], entry, found⟩
    next => exact upTo.pending other missing

variable (reloadable : Reloadable env params blocks)

include reloadable

theorem Reloadable.insert_prev : (insertBlockIndex loading (entry.pprev.getD .zero)).1 = entry.pprev ∧
      LoadedUpTo blocks done (insertBlockIndex loading (entry.pprev.getD .zero)).2 := by
  cases link : entry.pprev with
  | none =>
    have null : Uint256.zero.isNull = true := by decide
    simp only [Option.getD_none, insertBlockIndex, null, if_true]
    exact ⟨trivial, upTo⟩
  | some pprev =>
    obtain ⟨parent, parentFound, _⟩ := reloadable.linked.child key entry pprev found link
    have notNull := isNull_eq_false (reloadable.named pprev parent parentFound)
    simp only [Option.getD_some, insertBlockIndex, notNull, Bool.false_eq_true, if_false]
    exact ⟨trivial, upTo.emplace parentFound⟩

theorem loadRecord_spec (new : key ∉ done) :
    ∃ after, loadRecord env params (recordOf entry) loading = .ok after ∧ LoadedUpTo blocks (key :: done) after := by
  have decoded := reads_deserialize (entry.pprev.getD .zero)
    (reloadable.linked.nonneg key entry found) (reloadable.height_lt key entry found)
    (reloadable.file_range key entry found).1 (reloadable.file_range key entry found).2 []
  rw [List.append_nil] at decoded
  have hash : constructBlockHash env.sha256d
      ⟨diskEntry entry, entry.pprev.getD .zero⟩ = key := reloadable.hashed key entry found
  have notNull := isNull_eq_false (reloadable.named key entry found)
  obtain ⟨pointer, prepared⟩ := reloadable.insert_prev (upTo.emplace found) found
  have blank := upTo.blank new (entry.pprev.getD .zero)
  have worked : (checkProofOfWork env (loadedEntry entry).getBlockHeader (loadedEntry entry).nBits
      params).1 = true := reloadable.worked key entry found
  have first : insertBlockIndex loading key = (some key, emplaceDefault loading key) := by
    simp only [insertBlockIndex, notNull, Bool.false_eq_true, if_false]
  unfold loadRecord recordOf ofBlockIndex
  rw [decoded]
  dsimp only
  rw [hash, first]
  dsimp only
  rw [blank, pointer]
  exact ⟨_, if_pos worked, prepared.insert (by rw [found]; rfl)⟩

end

section

variable (reloadable : Reloadable env params blocks)

include reloadable

theorem loadBlockIndexGuts_spec (records : List (Sigma fun _ : Uint256 => Bytes)) :
    ∀ (done : List Uint256) (loading : BlockMap), LoadedUpTo blocks done loading →
      (∀ record ∈ records, ∃ entry, blocks.lookup record.1 = some entry ∧ record.2 = recordOf entry) →
      (records.map Sigma.fst).Nodup → (∀ record ∈ records, record.1 ∉ done) →
      ∃ after, loadBlockIndexGuts env params records loading = .ok after ∧
        LoadedUpTo blocks ((records.map Sigma.fst).reverse ++ done) after := by
  induction records with
  | nil =>
    intro done loading upTo _ _ _
    exact ⟨loading, rfl, upTo⟩
  | cons record records ih =>
    intro done loading upTo written distinct fresh
    obtain ⟨entry, found, value⟩ := written record (.head _)
    obtain ⟨middle, ran, stepped⟩ := loadRecord_spec upTo found reloadable (fresh record (.head _))
    rw [List.map_cons, List.nodup_cons] at distinct
    have freshLater : ∀ later ∈ records, later.1 ∉ record.1 :: done := by
      intro later member inDone
      rcases List.mem_cons.mp inDone with same | old
      · exact distinct.1 (same ▸ List.mem_map_of_mem member)
      · exact fresh later (.tail _ member) old
    obtain ⟨after, rest, finished⟩ := ih (record.1 :: done) middle stepped
      (List.forall_mem_cons.mp written).2 distinct.2 freshLater
    refine ⟨after, ?_, ?_⟩
    · rw [loadBlockIndexGuts, value, ran]
      exact rest
    · simpa using finished

theorem loadBlockIndexGuts_all (lists : Lists blockinfo blocks) :
    ∃ after, loadBlockIndexGuts env params (cursor (writeBatchSync blockinfo ∅)) ∅ = .ok after ∧
      ∀ key, after.lookup key = (blocks.lookup key).map loadedEntry := by
  have start : LoadedUpTo blocks [] ∅ := ⟨List.forall_mem_nil _, fun key _ => .inl (AList.lookup_empty key)⟩
  have written : ∀ record ∈ cursor (writeBatchSync blockinfo ∅),
      ∃ entry, blocks.lookup record.1 = some entry ∧ record.2 = recordOf entry := by
    intro record member
    have stored := mem_cursor_iff.mp member
    rw [lookup_written lists] at stored
    obtain ⟨entry, found, value⟩ := Option.map_eq_some_iff.mp stored
    exact ⟨entry, found, value.symm⟩
  obtain ⟨after, ran, upTo⟩ := loadBlockIndexGuts_spec reloadable _ [] ∅ start written
    (cursor_keys_nodup _) (fun _ _ => List.not_mem_nil)
  refine ⟨after, ran, fun key => ?_⟩
  cases found : blocks.lookup key with
  | some entry =>
    have stored : (⟨key, recordOf entry⟩ : Sigma fun _ : Uint256 => Bytes) ∈
        cursor (writeBatchSync blockinfo ∅) := by
      rw [mem_cursor_iff, lookup_written lists, found]
      rfl
    rw [← found]
    apply upTo.finished
    simpa using ⟨_, stored⟩
  | none =>
    by_cases loaded : key ∈ ((cursor (writeBatchSync blockinfo ∅)).map Sigma.fst).reverse ++ []
    · rw [upTo.finished key loaded, found]
    rcases upTo.pending key loaded with absent | ⟨_, entry, present⟩
    · exact absent
    · rw [found] at present
      cases present

end

end Guts

/-! ## Linking the entries -/

/-- The entries of `done` are linked; the others are as they were loaded. -/
abbrev LinkedUpTo (blocks : BlockMap) : List Uint256 → BlockMap → Prop :=
  UpTo blocks.lookup fun key held => held = (blocks.lookup key).map loadedEntry

variable {rest : List Uint256}

section Linking

variable {linking : BlockMap} {height : Int}

section

variable (upTo : LinkedUpTo blocks done linking)

include upTo

theorem LinkedUpTo.exists_original (found : linking.lookup key = some entry) :
    ∃ original, blocks.lookup key = some original ∧ entry.pprev = original.pprev ∧
      entry.nHeight = original.nHeight ∧ (entry.pskip = none ∨ entry.pskip = original.pskip) := by
  by_cases member : key ∈ done
  · rw [upTo.finished key member] at found
    exact ⟨entry, found, rfl, rfl, .inr rfl⟩
  · rw [upTo.pending key member] at found
    obtain ⟨original, originalFound, rfl⟩ := Option.map_eq_some_iff.mp found
    exact ⟨original, originalFound, rfl, rfl, .inl rfl⟩

variable {original : CBlockIndex}

theorem LinkedUpTo.present (found : blocks.lookup key = some original) :
    ∃ entry, linking.lookup key = some entry ∧ entry.pprev = original.pprev ∧ entry.nHeight = original.nHeight := by
  by_cases member : key ∈ done
  · exact ⟨original, by rw [upTo.finished key member, found], rfl, rfl⟩
  · exact ⟨loadedEntry original, by rw [upTo.pending key member, found]; rfl, rfl, rfl⟩

theorem LinkedUpTo.parentOf_eq : parentOf linking = parentOf blocks := by
  funext key
  rw [parentOf, parentOf]
  by_cases member : key ∈ done
  · rw [upTo.finished key member]
  · rw [upTo.pending key member]
    cases blocks.lookup key <;> rfl

theorem LinkedUpTo.linked (linked : Linked blocks) : Linked linking := by
  refine .of_entries fun key entry found => ?_
  obtain ⟨original, originalFound, pprev, height, skipped⟩ := upTo.exists_original found
  rw [height, pprev, upTo.parentOf_eq]
  refine ⟨linked.nonneg key original originalFound, linked.root key original originalFound, fun above link => ?_,
    fun pskip skips => ?_⟩
  · obtain ⟨parent, parentFound, step⟩ := linked.child key original above originalFound link
    obtain ⟨loaded, loadedFound, _, loadedHeight⟩ := upTo.present parentFound
    exact ⟨loaded, loadedFound, by rw [loadedHeight, step]⟩
  · rcases skipped with blank | kept
    · rw [blank] at skips
      cases skips
    · exact linked.skip key original pskip originalFound (kept ▸ skips)

theorem LinkedUpTo.getAncestor_eq (linked : Linked blocks)
    (found : blocks.lookup key = some original) (nonneg : 0 ≤ height)
    (within : height ≤ original.nHeight) : getAncestor linking key height = getAncestor blocks key height := by
  obtain ⟨entry, entryFound, _, same⟩ := upTo.present found
  rw [Sharecoin.getAncestor_eq (upTo.linked linked) entryFound nonneg (same ▸ within),
    Sharecoin.getAncestor_eq linked found nonneg within, upTo.parentOf_eq, same]

theorem LinkedUpTo.linkedEntry_eq (reloadable : Reloadable env params blocks)
    (found : blocks.lookup key = some entry) (parentDone : ∀ pprev, entry.pprev = some pprev → pprev ∈ done) :
    linkedEntry linking (loadedEntry entry) = entry := by
  refine Eq.trans ?_ (reloadable.relinked key entry found)
  cases link : entry.pprev with
  | none =>
    have loadedLink : (loadedEntry entry).pprev = none := link
    simp only [linkedEntry, loadedLink, Option.bind_none, Option.elim_none]
  | some pprev =>
    have loadedLink : (loadedEntry entry).pprev = some pprev := link
    obtain ⟨parent, parentFound, height⟩ := reloadable.linked.child key entry pprev found link
    have parentSame : linking.lookup pprev = blocks.lookup pprev := upTo.finished pprev (parentDone pprev link)
    have parentNonneg := reloadable.linked.nonneg pprev parent parentFound
    have lower : getSkipHeight entry.nHeight < entry.nHeight := getSkipHeight_lt (by omega)
    have walked := upTo.getAncestor_eq reloadable.linked parentFound (getSkipHeight_nonneg entry.nHeight) (by omega)
    have loadedHeight : (loadedEntry entry).nHeight = entry.nHeight := rfl
    simp only [linkedEntry, loadedLink, loadedHeight, Option.bind_some, Option.elim_some, parentSame, walked]

end

/-- Where the linking loop stands: `done` is linked, `rest` is still to come in
order of height, and together they are the index. -/
structure LinkProgress (blocks : BlockMap) (done rest : List Uint256) (previous : Option Int)
    (linking : BlockMap) : Prop where
  upTo : LinkedUpTo blocks done linking
  covers : ∀ key entry, blocks.lookup key = some entry → key ∈ done ∨ key ∈ rest
  known : ∀ key ∈ rest, ∃ entry, blocks.lookup key = some entry
  fresh : ∀ key ∈ rest, key ∉ done
  distinct : rest.Nodup
  sorted : rest.Pairwise fun left right => heightOf blocks left ≤ heightOf blocks right
  above : ∀ low ∈ done, ∀ high ∈ rest, heightOf blocks low ≤ heightOf blocks high
  reached : ∀ height, previous = some height → 0 ≤ height ∧ ∀ key ∈ done, heightOf blocks key ≤ height

theorem heightOf_eq (found : blocks.lookup key = some entry) :
    heightOf blocks key = entry.nHeight := by
  rw [heightOf, found, Option.elim_some]

section

variable {previous : Option Int} (progress : LinkProgress blocks done (key :: rest) previous linking)
  (linked : Linked blocks)

include progress linked

theorem LinkProgress.parent_done (found : blocks.lookup key = some entry) {pprev : Uint256}
    (link : entry.pprev = some pprev) : pprev ∈ done ∧ heightOf blocks pprev + 1 = entry.nHeight := by
  obtain ⟨parent, parentFound, height⟩ := linked.child key entry pprev found link
  have parentHeight := heightOf_eq parentFound
  have ownHeight := heightOf_eq found
  refine ⟨?_, by omega⟩
  rcases progress.covers pprev parent parentFound with finished | later
  · exact finished
  rcases List.mem_cons.mp later with rfl | behind
  · rw [found] at parentFound
    cases parentFound
    omega
  · have ordered := (List.pairwise_cons.mp progress.sorted).1 pprev behind
    omega

theorem LinkProgress.step (found : blocks.lookup key = some entry) :
    LinkProgress blocks (key :: done) rest (some entry.nHeight) (linking.insert key entry) := by
  have ordered := List.pairwise_cons.mp progress.sorted
  have separate := List.nodup_cons.mp progress.distinct
  have ownHeight := heightOf_eq found
  refine ⟨progress.upTo.insert found, ?_, ?_, ?_, separate.2, ordered.2, ?_, ?_⟩
  · intro other otherEntry otherFound
    rcases progress.covers other otherEntry otherFound with finished | later
    · exact .inl (.tail _ finished)
    · rcases List.mem_cons.mp later with rfl | behind
      · exact .inl (.head _)
      · exact .inr behind
  · exact (List.forall_mem_cons.mp progress.known).2
  · intro other member inDone
    rcases List.mem_cons.mp inDone with rfl | finished
    · exact separate.1 member
    · exact progress.fresh other (.tail _ member) finished
  · exact List.forall_mem_cons.mpr ⟨ordered.1, fun low finished =>
      (List.forall_mem_cons.mp (progress.above low finished)).2⟩
  · intro height same
    cases same
    refine ⟨linked.nonneg key entry found, ?_⟩
    rw [← ownHeight]
    exact List.forall_mem_cons.mpr ⟨le_rfl, fun other finished => progress.above other finished key (.head _)⟩

end

theorem LinkProgress.contiguous (progress : LinkProgress blocks done (key :: rest) (some height) linking)
    (linked : Linked blocks) (found : blocks.lookup key = some entry) :
    ¬ entry.nHeight > height + 1 := by
  obtain ⟨nonneg, reached⟩ := progress.reached height rfl
  cases link : entry.pprev with
  | none =>
    have atRoot := linked.root key entry found link
    omega
  | some pprev =>
    obtain ⟨finished, step⟩ := progress.parent_done linked found link
    have below := reached pprev finished
    omega

theorem linkLoop_spec (reloadable : Reloadable env params blocks) (rest : List Uint256) :
    ∀ (done : List Uint256) (previous : Option Int) (manager : BlockManager),
      LinkProgress blocks done rest previous manager.mBlockIndex →
      ∃ after, linkLoop rest previous manager = .ok after ∧
        ∀ key, after.mBlockIndex.lookup key = blocks.lookup key := by
  induction rest with
  | nil =>
    intro done previous manager progress
    refine ⟨manager, rfl, fun key => ?_⟩
    by_cases member : key ∈ done
    · exact progress.upTo.finished key member
    cases found : blocks.lookup key with
    | none => rw [progress.upTo.pending key member, found]; rfl
    | some entry =>
      rcases progress.covers key entry found with finished | later
      · exact absurd finished member
      · cases later
  | cons key rest ih =>
    intro done previous manager progress
    obtain ⟨entry, found⟩ := progress.known key (.head _)
    have loaded : manager.mBlockIndex.lookup key = some (loadedEntry entry) := by
      rw [progress.upTo.pending key (progress.fresh key (.head _)), found]
      rfl
    have linked : linkedEntry manager.mBlockIndex (loadedEntry entry) = entry :=
      progress.upTo.linkedEntry_eq reloadable found fun pprev link =>
        (progress.parent_done reloadable.linked found link).1
    have stepped : LinkProgress blocks (key :: done) rest (some (loadedEntry entry).nHeight)
        (linkStep manager key (loadedEntry entry)).mBlockIndex := by
      have index : (linkStep manager key (loadedEntry entry)).mBlockIndex = manager.mBlockIndex.insert key entry :=
        congrArg (fun updated => manager.mBlockIndex.insert key updated) linked
      rw [index]
      exact progress.step reloadable.linked found
    obtain ⟨after, ran, same⟩ := ih _ _ _ stepped
    refine ⟨after, ?_, same⟩
    rw [linkLoop, loaded]
    cases previous with
    | none => exact ran
    | some height =>
      have gap := progress.contiguous reloadable.linked found
      exact (if_neg gap).trans ran

/-- A reloadable index comes back as it was, entry for entry. -/
theorem loadBlockIndex_written (reloadable : Reloadable env params blocks)
    {blockinfo : List (Uint256 × CBlockIndex)} (lists : Lists blockinfo blocks) (stdSort : HeightSort) :
    ∃ manager, loadBlockIndex env params stdSort (writeBatchSync blockinfo ∅) = .ok manager ∧
      ∀ key, manager.mBlockIndex.lookup key = blocks.lookup key := by
  obtain ⟨loaded, ran, lookups⟩ := loadBlockIndexGuts_all reloadable lists
  have heights : heightOf loaded = heightOf blocks := by
    funext key
    rw [heightOf, heightOf, lookups]
    cases blocks.lookup key <;> rfl
  have order := stdSort.perm (heightOf loaded) loaded.keys
  have member : ∀ key, key ∈ stdSort.sort (heightOf loaded) loaded.keys ↔ ∃ entry, blocks.lookup key = some entry := by
    intro key
    rw [order.mem_iff, ← AList.mem_keys, ← AList.lookup_isSome, lookups, Option.isSome_map, Option.isSome_iff_exists]
  have progress : LinkProgress blocks [] (stdSort.sort (heightOf loaded) loaded.keys) none loaded := by
    refine ⟨⟨List.forall_mem_nil _, fun key _ => lookups key⟩, ?_, ?_, ?_, ?_, ?_, List.forall_mem_nil _, nofun⟩
    · exact fun key entry found => .inr ((member key).mpr ⟨entry, found⟩)
    · exact fun key inside => (member key).mp inside
    · exact fun key _ => List.not_mem_nil
    · exact order.nodup_iff.mpr loaded.keys_nodup
    · have sorted := stdSort.sorted (heightOf loaded) loaded.keys
      rwa [heights] at sorted ⊢
  obtain ⟨manager, linked, same⟩ := linkLoop_spec reloadable _ [] none { mBlockIndex := loaded } progress
  refine ⟨manager, ?_, same⟩
  rw [loadBlockIndex, ran]
  exact linked

end Linking

end Sharecoin
