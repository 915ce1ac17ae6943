import Sharecoin.Chain.AcceptHeader
import Sharecoin.Lib.VarInt

/-! The block tree database: how index entries are serialized, written, and read
back into an index. Loading ignores the stored keys and recomputes each hash and
each proof of work from the fields it read. -/

set_option autoImplicit false

namespace Sharecoin

open Lib

/-! ## Entries on disk -/

/-- An index entry with the hash of its predecessor in place of the pointer. -/
structure CDiskBlockIndex where
  entry : CBlockIndex
  hashPrev : Uint256

namespace CDiskBlockIndex

def DUMMY_VERSION : Nat := 259900

def ofBlockIndex (pindex : CBlockIndex) : CDiskBlockIndex :=
  ⟨pindex, pindex.pprev.getD .zero⟩

def hasPosition (nStatus : UInt32) : Prop := nStatus &&& (BLOCK_HAVE_DATA ||| BLOCK_HAVE_UNDO) ≠ 0

def hasData (nStatus : UInt32) : Prop := nStatus &&& BLOCK_HAVE_DATA ≠ 0

def hasUndo (nStatus : UInt32) : Prop := nStatus &&& BLOCK_HAVE_UNDO ≠ 0

instance (nStatus : UInt32) : Decidable (hasPosition nStatus) := inferInstanceAs (Decidable (_ ≠ _))

instance (nStatus : UInt32) : Decidable (hasData nStatus) := inferInstanceAs (Decidable (_ ≠ _))

instance (nStatus : UInt32) : Decidable (hasUndo nStatus) := inferInstanceAs (Decidable (_ ≠ _))

def serialize (disk : CDiskBlockIndex) : Bytes :=
  let obj := disk.entry
  writeVarInt DUMMY_VERSION ++ (writeVarInt obj.nHeight.toNat ++
    (writeVarInt obj.nStatus.toNat ++ (writeVarInt obj.nTx.toNat ++
    ((if hasPosition obj.nStatus then writeVarInt obj.nFile.toNat else []) ++
    ((if hasData obj.nStatus then writeVarInt obj.nDataPos.toNat else []) ++
    ((if hasUndo obj.nStatus then writeVarInt obj.nUndoPos.toNat else []) ++
    (leBytes 4 obj.nVersion.toUInt32.toNat ++ (disk.hashPrev.data ++ (obj.hashMerkleRoot.data ++
    (leBytes 4 obj.nTime.toNat ++ (leBytes 4 obj.nBits.toNat ++
    (leBytes 8 obj.nNonce64.toNat ++ obj.mixHash.data))))))))))))

def INT_MAX : Nat := 2 ^ 31 - 1

def UINT32_MAX : Nat := 2 ^ 32 - 1

def deserialize : Reader CDiskBlockIndex := do
  let _ ← readVarInt INT_MAX
  let nHeight ← readVarInt INT_MAX
  let nStatus ← readVarInt UINT32_MAX >>= fun value => pure (UInt32.ofNat value)
  let nTx ← readVarInt UINT32_MAX
  let nFile ← readIf (hasPosition nStatus) (readVarInt INT_MAX)
  let nDataPos ← readIf (hasData nStatus) (readVarInt UINT32_MAX)
  let nUndoPos ← readIf (hasUndo nStatus) (readVarInt UINT32_MAX)
  let nVersion ← readLe 4
  let hashPrev ← Uint256.read
  let hashMerkleRoot ← Uint256.read
  let nTime ← readLe 4
  let nBits ← readLe 4
  let nNonce64 ← readLe 8
  let mixHash ← Uint256.read
  return {
    entry :=
      { nHeight, nStatus, nTx := UInt32.ofNat nTx, nFile, nDataPos := UInt32.ofNat nDataPos
        nUndoPos := UInt32.ofNat nUndoPos, nVersion := (UInt32.ofNat nVersion).toInt32
        hashMerkleRoot, nTime := UInt32.ofNat nTime, nBits := UInt32.ofNat nBits
        nNonce64 := UInt64.ofNat nNonce64, mixHash }
    hashPrev }

def constructBlockHash (sha256d : Bytes → Uint256) (disk : CDiskBlockIndex) : Uint256 :=
  CBlockHeader.getHash sha256d
    { nVersion := disk.entry.nVersion
      hashPrevBlock := disk.hashPrev
      hashMerkleRoot := disk.entry.hashMerkleRoot
      nTime := disk.entry.nTime
      nBits := disk.entry.nBits
      nHeight := castUInt32 disk.entry.nHeight
      nNonce64 := disk.entry.nNonce64
      mixHash := disk.entry.mixHash }

end CDiskBlockIndex

/-! ## Writing -/

/-- The records stored under `DB_BLOCK_INDEX`, by block hash. -/
abbrev BlockTreeDB := AList fun _ : Uint256 => Bytes

def writeBatchSync (blockinfo : List (Uint256 × CBlockIndex)) (db : BlockTreeDB) : BlockTreeDB :=
  blockinfo.foldl (fun db bi => db.insert bi.1 (CDiskBlockIndex.serialize (.ofBlockIndex bi.2))) db

/-- The records in the order of a database cursor, which is that of the key bytes. -/
def cursor (db : BlockTreeDB) : List (Sigma fun _ : Uint256 => Bytes) :=
  db.entries.insertionSort fun left right => left.1.data ≤ right.1.data

/-! ## Loading -/

inductive LoadError where
  | failedToRead
  | proofOfWorkFailed (hash : Uint256)
  | nonContiguous (missing : Int)
  | nullPointer
deriving DecidableEq

structure BlockManager where
  mBlockIndex : BlockMap := ∅
  mDirtyBlockindex : List Uint256 := []
  mBlocksUnlinked : List (Uint256 × Uint256) := []

def emplaceDefault (blocks : BlockMap) (hash : Uint256) : BlockMap :=
  match blocks.lookup hash with
  | some _ => blocks
  | none => blocks.insert hash {}

/-- The null hash gives the null pointer and inserts nothing. -/
def insertBlockIndex (blocks : BlockMap) (hash : Uint256) : Option Uint256 × BlockMap :=
  if hash.isNull then (none, blocks) else (some hash, emplaceDefault blocks hash)

def assignLoaded (pindexNew : CBlockIndex) (pprev : Option Uint256) (diskindex : CBlockIndex) :
    CBlockIndex :=
  { pindexNew with
    pprev
    nHeight := diskindex.nHeight
    nFile := diskindex.nFile
    nDataPos := diskindex.nDataPos
    nUndoPos := diskindex.nUndoPos
    nVersion := diskindex.nVersion
    hashMerkleRoot := diskindex.hashMerkleRoot
    nTime := diskindex.nTime
    nBits := diskindex.nBits
    nNonce64 := diskindex.nNonce64
    mixHash := diskindex.mixHash
    nStatus := diskindex.nStatus
    nTx := diskindex.nTx }

def loadRecord (env : HashEnv) (params : Params) (value : Bytes) (blocks : BlockMap) : Except LoadError BlockMap :=
  match CDiskBlockIndex.deserialize value with
  | none => .error .failedToRead
  | some (diskindex, _) =>
    let hash := diskindex.constructBlockHash env.sha256d
    match insertBlockIndex blocks hash with
    | (none, _) => .error .nullPointer
    | (some pindex, blocks) =>
      let (pprev, blocks) := insertBlockIndex blocks diskindex.hashPrev
      match blocks.lookup pindex with
      | none => .error .nullPointer
      | some pindexNew =>
        let loaded := assignLoaded pindexNew pprev diskindex.entry
        if (checkProofOfWork env loaded.getBlockHeader loaded.nBits params).1 then
          .ok (blocks.insert pindex loaded)
        else .error (.proofOfWorkFailed pindex)

def loadBlockIndexGuts (env : HashEnv) (params : Params) :
    List (Sigma fun _ : Uint256 => Bytes) → BlockMap → Except LoadError BlockMap
  | [], blocks => .ok blocks
  | record :: records, blocks =>
    match loadRecord env params record.2 blocks with
    | .error error => .error error
    | .ok blocks => loadBlockIndexGuts env params records blocks

/-- `std::sort` by height: some ordering of the entries, with equal heights in any order. -/
structure HeightSort where
  sort : (Uint256 → Int) → List Uint256 → List Uint256
  perm : ∀ height keys, (sort height keys).Perm keys
  sorted : ∀ height keys, (sort height keys).Pairwise fun left right => height left ≤ height right

def linkedTxCount (parent : Option CBlockIndex) (entry : CBlockIndex) : UInt64 :=
  if entry.nTx > 0 then
    match parent with
    | some pprev =>
      if pprev.mChainTxCount > 0 then pprev.mChainTxCount + entry.nTx.toUInt64 else 0
    | none => entry.nTx.toUInt64
  else entry.mChainTxCount

def linkedStatus (parent : Option CBlockIndex) (entry : CBlockIndex) : UInt32 :=
  let nStatus :=
    if entry.nStatus &&& BLOCK_FAILED_CHILD ≠ 0 then
      (entry.nStatus &&& ~~~BLOCK_FAILED_CHILD) ||| BLOCK_FAILED_VALID
    else entry.nStatus
  if nStatus &&& BLOCK_FAILED_VALID = 0 ∧ parent.any CBlockIndex.failed then
    nStatus ||| BLOCK_FAILED_VALID
  else nStatus

def linkedEntry (blocks : BlockMap) (entry : CBlockIndex) : CBlockIndex :=
  let parent := entry.pprev.bind blocks.lookup
  { entry with
    nChainWork := (parent.elim 0 CBlockIndex.nChainWork) + getBitsProof entry.nBits
    nTimeMax := parent.elim entry.nTime fun pprev => max pprev.nTimeMax entry.nTime
    mChainTxCount := linkedTxCount parent entry
    nStatus := linkedStatus parent entry
    pskip := entry.pprev.elim entry.pskip fun pprev =>
      getAncestor blocks pprev (getSkipHeight entry.nHeight) }

def linkStep (manager : BlockManager) (pindex : Uint256) (entry : CBlockIndex) : BlockManager :=
  let linked := linkedEntry manager.mBlockIndex entry
  { mBlockIndex := manager.mBlockIndex.insert pindex linked
    mDirtyBlockindex :=
      if linked.nStatus ≠ entry.nStatus then pindex :: manager.mDirtyBlockindex
      else manager.mDirtyBlockindex
    mBlocksUnlinked :=
      match entry.pprev with
      | some pprev =>
        if entry.nTx > 0 ∧ (manager.mBlockIndex.lookup pprev).all (fun parent => parent.mChainTxCount = 0) ∧
            entry.nStatus &&& BLOCK_HAVE_DATA ≠ 0 then
          (pprev, pindex) :: manager.mBlocksUnlinked
        else manager.mBlocksUnlinked
      | none => manager.mBlocksUnlinked }

/-- The linking loop over entries sorted by height, with the previous height. -/
def linkLoop : List Uint256 → Option Int → BlockManager → Except LoadError BlockManager
  | [], _, manager => .ok manager
  | pindex :: rest, previous, manager =>
    match manager.mBlockIndex.lookup pindex with
    | none => .error .nullPointer
    | some entry =>
      match previous with
      | some height =>
        if entry.nHeight > height + 1 then .error (.nonContiguous (height + 1))
        else linkLoop rest (some entry.nHeight) (linkStep manager pindex entry)
      | none => linkLoop rest (some entry.nHeight) (linkStep manager pindex entry)

def heightOf (blocks : BlockMap) (pindex : Uint256) : Int :=
  (blocks.lookup pindex).elim 0 CBlockIndex.nHeight

def loadBlockIndex (env : HashEnv) (params : Params) (stdSort : HeightSort) (db : BlockTreeDB) :
    Except LoadError BlockManager :=
  match loadBlockIndexGuts env params (cursor db) ∅ with
  | .error error => .error error
  | .ok blocks =>
    linkLoop (stdSort.sort (heightOf blocks) blocks.keys) none { mBlockIndex := blocks }

end Sharecoin
