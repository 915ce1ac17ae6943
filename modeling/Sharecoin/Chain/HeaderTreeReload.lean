import Sharecoin.Chain.BlockTreeDbProperties

/-! Every index grown by accepted headers that count up from genesis survives the
disk, provided the genesis header itself passes the proof-of-work check that
loading makes. -/

set_option autoImplicit false

namespace Sharecoin

open Lib

/-! ## The shape of a grown index -/

variable {header : CBlockHeader} {key : Uint256} {entry : CBlockIndex}

variable {env : HashEnv} {params : CChainParams env.sha256d} {headers : List CBlockHeader} {blocks : BlockMap}

theorem genesisEntry_eq (genesis : CBlockHeader) : genesisEntry genesis =
      { CBlockIndex.ofHeader genesis with
        nTimeMax := genesis.nTime
        nChainWork := getBitsProof genesis.nBits
        nStatus := BLOCK_VALID_TREE } := by
  rw [genesisEntry, raiseValidity_fresh _ rfl]
  rfl

theorem wrap32_succ {height : Int} (nonneg : 0 ≤ height) (small : height < 2 ^ 31 - 1) :
    wrap32 (height + 1) = height + 1 := wrap32_eq_self (by omega) (by omega)

section

variable {sha256d : Bytes → Uint256} {parent : CBlockIndex} (linked : Linked blocks)
  (found : blocks.lookup header.hashPrevBlock = some parent) (small : parent.nHeight < 2 ^ 31 - 1)

include linked found small

theorem childEntry_nHeight : (childEntry sha256d blocks header parent).nHeight = parent.nHeight + 1 :=
  wrap32_succ (linked.nonneg _ parent found) small

variable (unknown : blocks.lookup (header.getHash sha256d) = none)

include unknown

theorem childEntry_pskip : (childEntry sha256d blocks header parent).pskip =
      ancestor (parentOf (blocks.insert (header.getHash sha256d) (childEntry sha256d blocks header parent)))
        (parent.nHeight + 1 - getSkipHeight (parent.nHeight + 1)).toNat (header.getHash sha256d) := by
  have nonneg := linked.nonneg _ parent found
  have lower : getSkipHeight (parent.nHeight + 1) < parent.nHeight + 1 := getSkipHeight_lt (by omega)
  have skipNonneg := getSkipHeight_nonneg (parent.nHeight + 1)
  have blank : Linked (blocks.insert (header.getHash sha256d) (.ofHeader header)) :=
    linked.insert unknown le_rfl (fun _ => rfl) nofun nofun
  have steps : (parent.nHeight + 1 - getSkipHeight (parent.nHeight + 1)).toNat =
      (parent.nHeight - getSkipHeight (parent.nHeight + 1)).toNat + 1 := by omega
  have own : parentOf (blocks.insert (header.getHash sha256d)
      (childEntry sha256d blocks header parent)) (header.getHash sha256d) =
      some header.hashPrevBlock := by
    rw [parentOf_eq (AList.lookup_insert _)]
    rfl
  have pskip : (childEntry sha256d blocks header parent).pskip =
      getAncestor (blocks.insert (header.getHash sha256d) (.ofHeader header))
        header.hashPrevBlock (getSkipHeight (parent.nHeight + 1)) := by
    rw [← wrap32_succ nonneg small]
    rfl
  rw [pskip, getAncestor_eq blank (lookup_insert_of_unknown unknown found) skipNonneg (by omega),
    linked.ancestor_insert unknown found, steps, ancestor, own, Option.bind_some,
    linked.ancestor_insert unknown found]

theorem Linked.insertChild :
    Linked (blocks.insert (header.getHash sha256d) (childEntry sha256d blocks header parent)) := by
  have height := @childEntry_nHeight header _ sha256d _ linked found small
  have nonneg := linked.nonneg _ parent found
  refine linked.insert unknown (by omega) nofun ?_ fun pskip skips => ?_
  · rintro _ ⟨⟩
    exact ⟨parent, found, height⟩
  · rw [height, ← childEntry_pskip linked found small unknown]
    exact skips

end

theorem lookup_singleton {hash : Uint256} {stored : CBlockIndex}
    (found : (AList.singleton hash stored : BlockMap).lookup key = some entry) : key = hash ∧ entry = stored := by
  rw [← AList.insert_empty] at found
  exact (lookup_insert_cases found).resolve_right (by simp)

theorem linked_genesis (hash : Uint256) (genesis : CBlockHeader) :
    Linked (AList.singleton hash (genesisEntry genesis)) := by
  refine .of_entries fun key entry found => ?_
  obtain ⟨_, rfl⟩ := lookup_singleton found
  have height := genesisEntry_nHeight genesis
  refine ⟨height.ge, fun _ => height, ?_, ?_⟩ <;> rw [genesisEntry_eq] <;> exact nofun

section

variable (tree : HeaderTree env params headers blocks)
include tree

theorem HeaderTree.linked (fits : headers.length < 2 ^ 31 - 1) :
    Linked blocks ∧ ∀ key entry, blocks.lookup key = some entry → entry.nHeight ≤ headers.length := by
  induction tree with
  | genesis =>
    refine ⟨linked_genesis _ _, ?_⟩
    intro key entry found
    obtain ⟨_, rfl⟩ := lookup_singleton found
    exact (genesisEntry_nHeight params.genesis).le
  | @accept headers blocks header parent tree unknown found _ ih =>
    rw [List.length_cons] at fits
    obtain ⟨linked, bounded⟩ := ih (by omega)
    have bound := bounded _ parent found
    have small : parent.nHeight < 2 ^ 31 - 1 := by omega
    have height := @childEntry_nHeight header _ env.sha256d _ linked found small
    refine ⟨linked.insertChild found small unknown, fun key entry inserted => ?_⟩
    rw [List.length_cons]
    push_cast
    rcases lookup_insert_cases inserted with ⟨rfl, rfl⟩ | old
    · omega
    · have bound := bounded key entry old
      omega

/-- Every entry is the genesis entry or the child entry of an accepted header,
with its skip pointer seen in the whole index. -/
theorem HeaderTree.entries (fits : headers.length < 2 ^ 31 - 1) (found : blocks.lookup key = some entry) :
    (key = params.consensus.hashGenesisBlock ∧ entry = genesisEntry params.genesis) ∨
      ∃ header ∈ headers, ∃ parent, header.getHash env.sha256d = key ∧
        blocks.lookup header.hashPrevBlock = some parent ∧ entry.nHeight = parent.nHeight + 1 ∧
        entry = childOf header parent (ancestor (parentOf blocks)
          (entry.nHeight - getSkipHeight entry.nHeight).toNat key) := by
  induction tree generalizing key entry with
  | genesis => exact .inl (lookup_singleton found)
  | @accept headers blocks header parent tree unknown parentFound _ ih =>
    rw [List.length_cons] at fits
    obtain ⟨linked, bounded⟩ := tree.linked (by omega)
    rcases lookup_insert_cases found with ⟨rfl, rfl⟩ | old
    · have small : parent.nHeight < 2 ^ 31 - 1 := by
        have bound := bounded _ parent parentFound
        omega
      have height := @childEntry_nHeight header _ env.sha256d _ linked parentFound small
      refine .inr ⟨header, (.head _), parent, rfl, lookup_insert_of_unknown unknown parentFound, height, ?_⟩
      rw [height, ← childEntry_pskip linked parentFound small unknown]
      rfl
    · rcases ih (by omega) old with root | ⟨older, member, below, hash, belowFound, height, eq⟩
      · exact .inl root
      · refine .inr ⟨older, .tail _ member, below, hash, lookup_insert_of_unknown unknown belowFound, height, ?_⟩
        rw [linked.ancestor_insert unknown old]
        exact eq

/-- An entry whose block was never received. -/
structure HeaderOnly (entry : CBlockIndex) : Prop where
  nFile : entry.nFile = 0
  nDataPos : entry.nDataPos = 0
  nUndoPos : entry.nUndoPos = 0
  nTx : entry.nTx = 0
  mChainTxCount : entry.mChainTxCount = 0
  nStatus : entry.nStatus = BLOCK_VALID_TREE
  nSequenceId : entry.nSequenceId = SEQ_ID_INIT_FROM_DISK

theorem HeaderTree.headerOnly (fits : headers.length < 2 ^ 31 - 1)
    (found : blocks.lookup key = some entry) : HeaderOnly entry := by
  rcases tree.entries fits found with ⟨_, rfl⟩ | ⟨header, _, parent, _, _, _, same⟩
  · rw [genesisEntry_eq]
    exact ⟨rfl, rfl, rfl, rfl, rfl, rfl, rfl⟩
  · rw [same]
    exact ⟨rfl, rfl, rfl, rfl, rfl, rfl, rfl⟩

theorem HeaderTree.worked (member : header ∈ headers) :
    (checkProofOfWork env header header.nBits params.consensus).1 = true := by
  induction tree with
  | genesis => cases member
  | accept _ _ _ worked ih =>
    rcases List.mem_cons.mp member with rfl | earlier
    · exact worked
    · exact ih earlier

/-! ## Reloading -/

omit tree in
theorem genesisEntry_getBlockHeader (params : CChainParams env.sha256d) :
    (genesisEntry params.genesis).getBlockHeader = params.genesis := by
  rw [genesisEntry_eq]
  have height := params.genesisHeight_eq
  have previous := params.genesisPrev_eq
  cases genesis : params.genesis with
  | mk nVersion hashPrevBlock hashMerkleRoot nTime nBits nHeight nNonce64 mixHash =>
    rw [genesis] at height previous
    cases height
    cases previous
    rfl

theorem HeaderTree.getBlockHeader_mem (chained : HeightsChained env.sha256d params.genesis headers)
    (found : blocks.lookup key = some entry) : entry.getBlockHeader ∈ params.genesis :: headers ∧
      entry.getBlockHeader.getHash env.sha256d = key := by
  obtain ⟨header, member, rfl⟩ := tree.named found
  suffices same : entry.getBlockHeader = header by
    rw [same]
    exact ⟨member, rfl⟩
  rcases List.mem_cons.mp member with rfl | accepted
  · have rooted := tree.genesis_found
    rw [params.hashGenesis_eq, found] at rooted
    cases rooted
    exact genesisEntry_getBlockHeader params
  obtain ⟨stored, parent, isStored⟩ := tree.stored accepted
  have same := isStored.found
  rw [found] at same
  cases same
  exact isStored.getBlockHeader_eq_iff.mpr (tree.height_eq chained member found)

end

theorem HeaderOnly.linkedStatus_eq {parent : Option CBlockIndex} (fresh : HeaderOnly entry)
    (parentFresh : ∀ pprev, parent = some pprev → HeaderOnly pprev) : linkedStatus parent entry = entry.nStatus := by
  have unfailed : parent.any CBlockIndex.failed = false := by
    cases parent with
    | none => rfl
    | some pprev =>
      rw [Option.any_some, CBlockIndex.failed, (parentFresh pprev rfl).nStatus]
      decide
  have valid : BLOCK_VALID_TREE &&& BLOCK_FAILED_CHILD = 0 := by decide
  simp [linkedStatus, fresh.nStatus, unfailed, valid]

theorem HeaderOnly.loadedEntry_eq (fresh : HeaderOnly entry) :
    loadedEntry entry = { entry with pskip := none, nChainWork := 0, nTimeMax := 0 } := by
  obtain ⟨nFile, nDataPos, nUndoPos, nTx, mChainTxCount, nStatus, nSequenceId⟩ := fresh
  cases entry
  simp_all [loadedEntry, assignLoaded, diskEntry]

theorem HeaderOnly.linkedEntry_eq (fresh : HeaderOnly entry)
    (parentFresh : ∀ pprev, entry.pprev.bind blocks.lookup = some pprev → HeaderOnly pprev)
    (nChainWork : entry.nChainWork =
      (entry.pprev.bind blocks.lookup).elim 0 CBlockIndex.nChainWork + getBitsProof entry.nBits)
    (nTimeMax : entry.nTimeMax = (entry.pprev.bind blocks.lookup).elim entry.nTime
      fun pprev => max pprev.nTimeMax entry.nTime)
    (pskip : entry.pskip = entry.pprev.elim none fun pprev =>
      getAncestor blocks pprev (getSkipHeight entry.nHeight)) :
    linkedEntry blocks (loadedEntry entry) = entry := by
  have status := fresh.linkedStatus_eq parentFresh
  have count : linkedTxCount (entry.pprev.bind blocks.lookup) entry = entry.mChainTxCount := by
    simp [linkedTxCount, fresh.nTx]
  rw [fresh.loadedEntry_eq]
  calc linkedEntry blocks { entry with pskip := none, nChainWork := 0, nTimeMax := 0 }
      = { entry with
          nChainWork := entry.nChainWork
          nTimeMax := entry.nTimeMax
          mChainTxCount := linkedTxCount (entry.pprev.bind blocks.lookup) entry
          nStatus := linkedStatus (entry.pprev.bind blocks.lookup) entry
          pskip := entry.pskip } := by
        rw [nChainWork, nTimeMax, pskip]
        rfl
    _ = entry := by rw [count, status]

theorem HeaderTree.relinked (tree : HeaderTree env params headers blocks) (fits : headers.length < 2 ^ 31 - 1)
    (found : blocks.lookup key = some entry) : linkedEntry blocks (loadedEntry entry) = entry := by
  obtain ⟨linked, _⟩ := tree.linked fits
  have fresh := tree.headerOnly fits found
  have parentFresh : ∀ pprev, entry.pprev.bind blocks.lookup = some pprev → HeaderOnly pprev := by
    intro pprev known
    obtain ⟨previous, _, parentFound⟩ := Option.bind_eq_some_iff.mp known
    exact tree.headerOnly fits parentFound
  rcases tree.entries fits found with
    ⟨_, rfl⟩ | ⟨header, _, parent, _, parentFound, height, same⟩
  · have pprev : (genesisEntry params.genesis).pprev = none := by rw [genesisEntry_eq]; rfl
    apply fresh.linkedEntry_eq parentFresh <;> rw [pprev, genesisEntry_eq]
    · exact (BitVec.zero_add _).symm
    · rfl
    · rfl
  · have pprev : entry.pprev = some header.hashPrevBlock := by rw [same]; rfl
    have known : entry.pprev.bind blocks.lookup = some parent := by
      rw [pprev, Option.bind_some, parentFound]
    have nonneg := linked.nonneg _ parent parentFound
    have lower : getSkipHeight entry.nHeight < entry.nHeight := getSkipHeight_lt (by omega)
    have steps : (entry.nHeight - getSkipHeight entry.nHeight).toNat =
        (parent.nHeight - getSkipHeight entry.nHeight).toNat + 1 := by omega
    apply fresh.linkedEntry_eq parentFresh
    · rw [known, same]
      rfl
    · rw [known, same]
      rfl
    rw [pprev, Option.elim_some, getAncestor_eq linked parentFound (getSkipHeight_nonneg _) (by omega)]
    calc entry.pskip
        = ancestor (parentOf blocks) (entry.nHeight - getSkipHeight entry.nHeight).toNat key :=
          congrArg CBlockIndex.pskip same
      _ = ancestor (parentOf blocks) (parent.nHeight - getSkipHeight entry.nHeight).toNat
            header.hashPrevBlock := by
          rw [steps, ancestor, parentOf_eq found, pprev, Option.bind_some]

theorem HeaderTree.reloadable (tree : HeaderTree env params headers blocks) (fits : headers.length < 2 ^ 31 - 1)
    (chained : HeightsChained env.sha256d params.genesis headers)
    (named : ∀ header ∈ params.genesis :: headers, header.getHash env.sha256d ≠ .zero)
    (genesisWorked : (checkProofOfWork env params.genesis params.genesis.nBits params.consensus).1 = true) :
    Reloadable env params.consensus blocks := by
  obtain ⟨linked, bounded⟩ := tree.linked fits
  refine ⟨linked, fun key entry found => (tree.getBlockHeader_mem chained found).2, ?_, ?_, ?_, ?_,
    fun key entry => tree.relinked fits⟩
  · intro key entry found
    obtain ⟨member, rfl⟩ := tree.getBlockHeader_mem chained found
    exact named _ member
  · intro key entry found
    change (checkProofOfWork env _ entry.getBlockHeader.nBits _).1 = true
    rcases List.mem_cons.mp (tree.getBlockHeader_mem chained found).1 with genesis | accepted
    · rw [genesis, genesisWorked]
    · exact tree.worked accepted
  · intro key entry found
    have bound := bounded key entry found
    omega
  · intro key entry found
    rw [(tree.headerOnly fits found).nFile]
    decide

/-- The index comes back from disk entry by entry, whatever order the entries are
written in and however blocks of one height are sorted. -/
def SurvivesReload (env : HashEnv) (params : Params) (blocks : BlockMap) : Prop :=
  ∀ (blockinfo : List (Uint256 × CBlockIndex)) (stdSort : HeightSort), Lists blockinfo blocks →
    ∃ manager, loadBlockIndex env params stdSort (writeBatchSync blockinfo ∅) = .ok manager ∧
      ∀ key, manager.mBlockIndex.lookup key = blocks.lookup key

/-- Loading recomputes each hash from the index height and checks the proof of work
of every entry, genesis included. So an index survives when the genesis header
passes that check, the accepted headers count up from genesis, and none of them
hashes to the null value that stands for no block. -/
theorem survivesReload_runHeaders (env : HashEnv) (params : CChainParams env.sha256d) (inputs : List HeaderInput)
    (genesisWorked : (checkProofOfWork env params.genesis params.genesis.nBits params.consensus).1 = true)
    (chained : HeightsChained env.sha256d params.genesis (runHeaders env params inputs).created)
    (named : ∀ header ∈ params.genesis :: (runHeaders env params inputs).created, header.getHash env.sha256d ≠ .zero)
    (fits : (runHeaders env params inputs).created.length < 2 ^ 31 - 1) :
    SurvivesReload env params.consensus (runHeaders env params inputs).chainman.mBlockIndex := by
  intro blockinfo stdSort lists
  have tree := headerTree_runHeaders env params inputs
  exact loadBlockIndex_written (tree.reloadable fits chained named genesisWorked) lists stdSort

def firstHeader : CBlockHeader := { misnumberedHeader with nHeight := 1 }

theorem survivesReload_firstHeader : (runHeaders permissiveEnv (regtestParams permissiveEnv.sha256d)
        [⟨firstHeader, true, 1296688603⟩]).created = [firstHeader] ∧
      SurvivesReload permissiveEnv (regtestParams permissiveEnv.sha256d).consensus
        (runHeaders permissiveEnv (regtestParams permissiveEnv.sha256d)
          [⟨firstHeader, true, 1296688603⟩]).chainman.mBlockIndex := by
  have created : (runHeaders permissiveEnv (regtestParams permissiveEnv.sha256d)
      [⟨firstHeader, true, 1296688603⟩]).created = [firstHeader] := by decide +kernel
  refine ⟨created, survivesReload_runHeaders _ _ _ ?_ ?_ ?_ ?_⟩
  · decide +kernel
  · rw [created]
    unfold HeightsChained
    decide +kernel
  · rw [created]
    decide +kernel
  · rw [created]
    decide

def insertionHeightSort : HeightSort where
  sort height keys := keys.insertionSort fun left right => height left ≤ height right
  perm height keys := List.perm_insertionSort _ keys
  sorted height keys := by
    have total : Std.Total fun left right : Uint256 => height left ≤ height right :=
      ⟨fun left right => le_total (height left) (height right)⟩
    have trans : IsTrans Uint256 fun left right => height left ≤ height right := ⟨fun _ _ _ => le_trans⟩
    exact List.pairwise_insertionSort _ keys

def indexEntries (blocks : BlockMap) : List (Uint256 × CBlockIndex) :=
  blocks.entries.map fun record => (record.1, record.2)

theorem lists_indexEntries (blocks : BlockMap) : Lists (indexEntries blocks) blocks := by
  intro key entry
  rw [← Option.mem_def, AList.mem_lookup_iff, indexEntries, List.mem_map]
  constructor
  · rintro ⟨record, member, same⟩
    cases same
    exact member
  · intro member
    exact ⟨⟨key, entry⟩, member, rfl⟩

theorem misnumberedHeader_lost : ¬ SurvivesReload permissiveEnv (regtestParams permissiveEnv.sha256d).consensus
      (runHeaders permissiveEnv (regtestParams permissiveEnv.sha256d)
        [⟨misnumberedHeader, true, 1296688603⟩]).chainman.mBlockIndex := by
  intro survives
  obtain ⟨manager, loaded, same⟩ := survives _ insertionHeightSort (lists_indexEntries _)
  have lost : ((loadBlockIndex permissiveEnv (regtestParams permissiveEnv.sha256d).consensus
      insertionHeightSort (writeBatchSync (indexEntries (runHeaders permissiveEnv (regtestParams permissiveEnv.sha256d)
          [⟨misnumberedHeader, true, 1296688603⟩]).chainman.mBlockIndex) ∅)).toOption.bind
      fun manager => manager.mBlockIndex.lookup
        (misnumberedHeader.getHash permissiveEnv.sha256d)) = none := by
    decide +kernel
  have kept : ((runHeaders permissiveEnv (regtestParams permissiveEnv.sha256d)
      [⟨misnumberedHeader, true, 1296688603⟩]).chainman.mBlockIndex.lookup
        (misnumberedHeader.getHash permissiveEnv.sha256d)).isSome = true := by
    decide +kernel
  rw [loaded, Except.toOption, Option.bind_some, same] at lost
  rw [lost] at kept
  cases kept

end Sharecoin
