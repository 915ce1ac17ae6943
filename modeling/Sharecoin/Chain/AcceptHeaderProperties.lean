import Sharecoin.Chain.AcceptHeader
import Sharecoin.Chain.Ancestors

/-! What a run of `AcceptBlockHeader` can do to the block index. Every reachable
index is a tree grown from the genesis entry by accepted headers, and every
result about reachable indexes is an induction on that growth. -/

set_option autoImplicit false

namespace Sharecoin

open Lib

section Tree

variable (env : HashEnv) (params : CChainParams env.sha256d)

def genesisEntry (genesis : CBlockHeader) : CBlockIndex :=
  (linkBlockIndex ∅ (.ofHeader genesis) genesis.hashPrevBlock).raiseValidity BLOCK_VALID_TREE

def childOf (header : CBlockHeader) (parent : CBlockIndex) (pskip : Option Uint256) : CBlockIndex :=
  { CBlockIndex.ofHeader header with
    pprev := some header.hashPrevBlock
    nHeight := wrap32 (parent.nHeight + 1)
    pskip
    nTimeMax := max parent.nTimeMax header.nTime
    nChainWork := parent.nChainWork + getBitsProof header.nBits
    nStatus := BLOCK_VALID_TREE }

def childEntry (sha256d : Bytes → Uint256) (blocks : BlockMap) (header : CBlockHeader)
    (parent : CBlockIndex) : CBlockIndex :=
  childOf header parent (getAncestor (blocks.insert (header.getHash sha256d) (.ofHeader header))
    header.hashPrevBlock (getSkipHeight (wrap32 (parent.nHeight + 1))))

/-- The index that results from accepting `headers`, latest first, one by one. -/
inductive HeaderTree : List CBlockHeader → BlockMap → Prop where
  | genesis :
      HeaderTree [] (AList.singleton params.consensus.hashGenesisBlock (genesisEntry params.genesis))
  | accept {headers : List CBlockHeader} {blocks : BlockMap} {header : CBlockHeader}
      {parent : CBlockIndex} (tree : HeaderTree headers blocks)
      (unknown : blocks.lookup (header.getHash env.sha256d) = none)
      (linked : blocks.lookup header.hashPrevBlock = some parent)
      (worked : (checkProofOfWork env header header.nBits params.consensus).1 = true) :
      HeaderTree (header :: headers)
        (blocks.insert (header.getHash env.sha256d) (childEntry env.sha256d blocks header parent))

def genesisChainman : ChainstateManager :=
  { mBlockIndex := AList.singleton params.consensus.hashGenesisBlock (genesisEntry params.genesis)
    mBestHeader := some params.consensus.hashGenesisBlock
    mDirtyBlockindex := [params.consensus.hashGenesisBlock] }

/-- A run: the manager, and the headers that created an entry, latest first. -/
structure HeaderRun where
  chainman : ChainstateManager
  created : List CBlockHeader

def headerStep (run : HeaderRun) (input : HeaderInput) : HeaderRun :=
  let outcome := acceptBlockHeader env params.consensus input run.chainman
  { chainman := outcome.2
    created :=
      if (run.chainman.mBlockIndex.lookup (input.block.getHash env.sha256d)).isNone &&
          outcome.1.isOk then input.block :: run.created
      else run.created }

def runHeaders (inputs : List HeaderInput) : HeaderRun :=
  inputs.foldl (headerStep env params) ⟨genesisChainman env params, []⟩

end Tree

/-! ## One step -/

variable {header : CBlockHeader} {entry : CBlockIndex} {parent : CBlockIndex}

variable {env : HashEnv} {params : CChainParams env.sha256d}

theorem raiseValidity_fresh (entry : CBlockIndex) (fresh : entry.nStatus = 0) :
    entry.raiseValidity BLOCK_VALID_TREE = { entry with nStatus := BLOCK_VALID_TREE } := by
  have unfailed : entry.failed = false := by
    rw [CBlockIndex.failed, fresh]
    decide
  have below : (0 : UInt32) &&& BLOCK_VALID_MASK < BLOCK_VALID_TREE := by decide
  have raised : ((0 : UInt32) &&& ~~~BLOCK_VALID_MASK) ||| BLOCK_VALID_TREE = BLOCK_VALID_TREE := by decide
  simp only [CBlockIndex.raiseValidity, unfailed, fresh, below, raised, Bool.false_eq_true, if_false, if_true]

section Index

variable (sha256d : Bytes → Uint256)

/-- The index with a header in it. -/
def indexWith (header : CBlockHeader) (blocks : BlockMap) : BlockMap :=
  (addToBlockIndex sha256d header { mBlockIndex := blocks }).mBlockIndex

theorem addToBlockIndex_eq (header : CBlockHeader) (chainman : ChainstateManager) :
    (addToBlockIndex sha256d header chainman).mBlockIndex =
      indexWith sha256d header chainman.mBlockIndex := by
  unfold indexWith addToBlockIndex
  dsimp only
  cases chainman.mBlockIndex.lookup (header.getHash sha256d) <;> rfl

variable {sha256d} {blocks : BlockMap}

theorem indexWith_of_found (found : blocks.lookup (header.getHash sha256d) = some entry) :
    indexWith sha256d header blocks = blocks := by
  unfold indexWith addToBlockIndex
  dsimp only
  rw [found]

theorem indexWith_of_unknown (unknown : blocks.lookup (header.getHash sha256d) = none)
    (linked : blocks.lookup header.hashPrevBlock = some parent) : indexWith sha256d header blocks =
      blocks.insert (header.getHash sha256d) (childEntry sha256d blocks header parent) := by
  have different : header.hashPrevBlock ≠ header.getHash sha256d := by
    intro same
    rw [same, unknown] at linked
    cases linked
  have found : (blocks.insert (header.getHash sha256d)
      (CBlockIndex.ofHeader header)).lookup header.hashPrevBlock = some parent := by
    rw [AList.lookup_insert_ne different, linked]
  simp only [indexWith, addToBlockIndex, unknown, linkBlockIndex, found, AList.insert_insert]
  rw [raiseValidity_fresh _ rfl]
  rfl

end Index

/-- A header is refused and changes no entry, or it is in the index. A new one was checked. -/
theorem acceptBlockHeader_cases (env : HashEnv) (params : Params) (input : HeaderInput)
    (chainman : ChainstateManager) :
    let Settles (after : Except HeaderError Uint256 × ChainstateManager) :=
      (∃ error, after.1 = .error error ∧ after.2.mBlockIndex = chainman.mBlockIndex) ∨
        after.1 = .ok (input.block.getHash env.sha256d) ∧
          after.2.mBlockIndex = indexWith env.sha256d input.block chainman.mBlockIndex ∧
          (input.block.getHash env.sha256d ≠ params.hashGenesisBlock →
            chainman.mBlockIndex.lookup (input.block.getHash env.sha256d) = none →
            (checkNewHeader env params input chainman.mBlockIndex).1 = .ok ())
    Settles (acceptBlockHeader env params input chainman) := by
  intro Settles
  unfold acceptBlockHeader admitHeader
  dsimp only
  split
  next isGenesis =>
    split
    · exact .inr ⟨rfl, addToBlockIndex_eq _ _ _, fun other => absurd isGenesis other⟩
    · exact .inl ⟨_, rfl, rfl⟩
  split
  next found =>
    split
    · exact .inl ⟨_, rfl, rfl⟩
    · exact .inr ⟨rfl, (indexWith_of_found found).symm, fun _ unknown => by cases unknown.symm.trans found⟩
  split
  · exact .inl ⟨_, rfl, rfl⟩
  next passed =>
    split
    · exact .inr ⟨rfl, addToBlockIndex_eq _ _ _, fun _ _ => congrArg Prod.fst passed⟩
    · exact .inl ⟨_, rfl, rfl⟩

theorem checkNewHeader_ok {blocks : BlockMap} {input : HeaderInput} {params : Params}
    (passed : (checkNewHeader env params input blocks).1 = .ok ()) :
    ∃ parent, blocks.lookup input.block.hashPrevBlock = some parent ∧ parent.failed = false ∧
      (checkProofOfWork env input.block input.block.nBits params).1 = true := by
  unfold checkNewHeader checkBlockHeader at passed
  cases worked : checkProofOfWork env input.block input.block.nBits params with
  | mk verified requested =>
    cases verified with
    | false => simp [worked] at passed
    | true =>
      cases linked : blocks.lookup input.block.hashPrevBlock with
      | none => simp [worked, linked] at passed
      | some parent =>
        cases failed : parent.failed with
        | false => exact ⟨parent, rfl, failed, rfl⟩
        | true => simp [worked, linked, failed] at passed

/-- What a step can do: leave the index alone, or add a checked new header. -/
theorem headerStep_cases (run : HeaderRun) (input : HeaderInput)
    (rooted : ∃ entry, run.chainman.mBlockIndex.lookup params.consensus.hashGenesisBlock = some entry) :
    ((headerStep env params run input).chainman.mBlockIndex = run.chainman.mBlockIndex ∧
        (headerStep env params run input).created = run.created) ∨
      ∃ parent, run.chainman.mBlockIndex.lookup (input.block.getHash env.sha256d) = none ∧
        run.chainman.mBlockIndex.lookup input.block.hashPrevBlock = some parent ∧
        parent.failed = false ∧
        (checkProofOfWork env input.block input.block.nBits params.consensus).1 = true ∧
        (headerStep env params run input).created = input.block :: run.created ∧
        (headerStep env params run input).chainman.mBlockIndex =
          run.chainman.mBlockIndex.insert (input.block.getHash env.sha256d)
            (childEntry env.sha256d run.chainman.mBlockIndex input.block parent) := by
  rcases acceptBlockHeader_cases env params.consensus input run.chainman with
    ⟨error, refused, same⟩ | ⟨accepted, same, checked⟩
  · exact .inl ⟨same, by simp [headerStep, refused, Except.isOk, Except.toBool]⟩
  cases known : run.chainman.mBlockIndex.lookup (input.block.getHash env.sha256d) with
  | some pindex => exact .inl ⟨same.trans (indexWith_of_found known), by simp [headerStep, known]⟩
  | none =>
    have other : input.block.getHash env.sha256d ≠ params.consensus.hashGenesisBlock := by
      obtain ⟨entry, found⟩ := rooted
      intro isGenesis
      cases known.symm.trans (isGenesis ▸ found)
    obtain ⟨parent, linked, unfailed, worked⟩ := checkNewHeader_ok (checked other known)
    refine .inr ⟨parent, rfl, linked, unfailed, worked, ?_, same.trans (indexWith_of_unknown known linked)⟩
    simp [headerStep, known, accepted, Except.isOk, Except.toBool]

/-! ## Reachable indexes -/

variable {headers : List CBlockHeader} {blocks : BlockMap}

section

variable (tree : HeaderTree env params headers blocks)
include tree

theorem HeaderTree.genesis_found :
    blocks.lookup params.consensus.hashGenesisBlock = some (genesisEntry params.genesis) := by
  induction tree with
  | genesis => rw [← AList.insert_empty, AList.lookup_insert]
  | accept _ unknown _ _ ih => exact lookup_insert_of_unknown unknown ih

theorem HeaderTree.named {key : Uint256} (found : blocks.lookup key = some entry) :
    ∃ header ∈ params.genesis :: headers, header.getHash env.sha256d = key := by
  induction tree with
  | genesis =>
    have present := AList.lookup_isSome.mp (Option.isSome_of_eq_some found)
    have same : key = params.consensus.hashGenesisBlock := by
      simpa [AList.mem_keys] using present
    exact ⟨params.genesis, (.head _), by rw [same, params.hashGenesis_eq]⟩
  | @accept headers blocks header parent _ _ _ _ ih =>
    by_cases same : key = header.getHash env.sha256d
    · exact ⟨header, by simp, same.symm⟩
    rw [AList.lookup_insert_ne same] at found
    obtain ⟨older, member, named⟩ := ih found
    refine ⟨older, ?_, named⟩
    rcases List.mem_cons.mp member with rfl | earlier
    · exact .head _
    · exact .tail _ (.tail _ earlier)

/-- An entry stored for a header: linked to its parent, one higher, and holding
the header's other fields. -/
structure Stored (sha256d : Bytes → Uint256) (blocks : BlockMap) (header : CBlockHeader)
    (entry parent : CBlockIndex) : Prop where
  found : blocks.lookup (header.getHash sha256d) = some entry
  linked : blocks.lookup header.hashPrevBlock = some parent
  pprev : entry.pprev = some header.hashPrevBlock
  height : entry.nHeight = wrap32 (parent.nHeight + 1)
  fields : entry.getBlockHeader = { header with nHeight := castUInt32 entry.nHeight }

theorem HeaderTree.stored
    (member : header ∈ headers) : ∃ entry parent, Stored env.sha256d blocks header entry parent := by
  induction tree with
  | genesis => cases member
  | @accept headers blocks added parent _ unknown linked _ ih =>
    rcases List.mem_cons.mp member with rfl | earlier
    · exact ⟨_, parent, AList.lookup_insert _, lookup_insert_of_unknown unknown linked, rfl, rfl, rfl⟩
    obtain ⟨entry, older, stored⟩ := ih earlier
    exact ⟨entry, older, lookup_insert_of_unknown unknown stored.found,
      lookup_insert_of_unknown unknown stored.linked, stored.pprev, stored.height,
      stored.fields⟩

theorem HeaderTree.found (member : header ∈ params.genesis :: headers) :
    ∃ entry, blocks.lookup (header.getHash env.sha256d) = some entry := by
  rcases List.mem_cons.mp member with rfl | accepted
  · have rooted := tree.genesis_found
    rw [params.hashGenesis_eq] at rooted
    exact ⟨_, rooted⟩
  · obtain ⟨entry, _, stored⟩ := tree.stored accepted
    exact ⟨entry, stored.found⟩

end

theorem headerTree_foldl (inputs : List HeaderInput) {run : HeaderRun}
    (tree : HeaderTree env params run.created run.chainman.mBlockIndex) :
    HeaderTree env params (inputs.foldl (headerStep env params) run).created
      (inputs.foldl (headerStep env params) run).chainman.mBlockIndex := by
  induction inputs generalizing run with
  | nil => exact tree
  | cons input inputs ih =>
    apply ih
    rcases headerStep_cases run input ⟨_, tree.genesis_found⟩ with
      ⟨same, kept⟩ | ⟨parent, unknown, linked, _, worked, created, inserted⟩
    · rw [same, kept]
      exact tree
    · rw [created, inserted]
      exact .accept tree unknown linked worked

theorem headerTree_runHeaders (env : HashEnv) (params : CChainParams env.sha256d) (inputs : List HeaderInput) :
    HeaderTree env params (runHeaders env params inputs).created (runHeaders env params inputs).chainman.mBlockIndex :=
  headerTree_foldl inputs .genesis

/-! ## Heights of headers and of index entries -/

section Heights

variable {sha256d : Bytes → Uint256}

/-- Every header that created an entry carries the height of that entry, and the
entry gives the header back. -/
def HeightsAgree (sha256d : Bytes → Uint256) (run : HeaderRun) : Prop :=
  ∀ header ∈ run.created, ∃ entry parent, run.chainman.mBlockIndex.lookup (header.getHash sha256d) = some entry ∧
      entry.pprev = some header.hashPrevBlock ∧
      run.chainman.mBlockIndex.lookup header.hashPrevBlock = some parent ∧
      header.nHeight = castUInt32 (parent.nHeight + 1) ∧
      entry.getBlockHeader = header ∧
      entry.getBlockHeader.getHash sha256d = header.getHash sha256d

/-- Each header declares one more than the header it names as its predecessor. -/
def HeightsChained (sha256d : Bytes → Uint256) (genesis : CBlockHeader) (headers : List CBlockHeader) : Prop :=
  ∀ header ∈ headers, ∀ parent ∈ genesis :: headers,
    parent.getHash sha256d = header.hashPrevBlock → header.nHeight = parent.nHeight + 1

theorem HeightsChained.tail {genesis : CBlockHeader}
    (chained : HeightsChained sha256d genesis (header :: headers)) : HeightsChained sha256d genesis headers := by
  intro child member parent parentMember named
  apply chained child (.tail _ member) parent _ named
  rcases List.mem_cons.mp parentMember with rfl | earlier
  · exact .head _
  · exact .tail _ (.tail _ earlier)

theorem genesisEntry_nHeight (genesis : CBlockHeader) : (genesisEntry genesis).nHeight = 0 := by
  rw [genesisEntry, raiseValidity_fresh _ rfl]
  rfl

theorem HeaderTree.height_eq (tree : HeaderTree env params headers blocks)
    (chained : HeightsChained env.sha256d params.genesis headers) (member : header ∈ params.genesis :: headers)
    (found : blocks.lookup (header.getHash env.sha256d) = some entry) :
    header.nHeight = castUInt32 entry.nHeight := by
  induction tree generalizing header entry with
  | genesis =>
    obtain rfl : header = params.genesis := by simpa using member
    have rooted := (HeaderTree.genesis : HeaderTree env params _ _).genesis_found
    rw [← params.hashGenesis_eq, rooted] at found
    cases found
    rw [params.genesisHeight_eq, genesisEntry_nHeight]
    rfl
  | @accept headers blocks added parent tree unknown linked _ ih =>
    by_cases earlier : header ∈ params.genesis :: headers
    · obtain ⟨older, stillFound⟩ := tree.found earlier
      rw [lookup_insert_of_unknown unknown stillFound] at found
      cases found
      exact ih chained.tail earlier stillFound
    have new : header = added := by
      simp only [List.mem_cons] at member earlier
      tauto
    subst new
    rw [AList.lookup_insert] at found
    cases found
    obtain ⟨parentHeader, parentMember, named⟩ := tree.named linked
    have parentHeight : parentHeader.nHeight = castUInt32 parent.nHeight := by
      apply ih chained.tail parentMember
      rw [named]
      exact linked
    have stepped : header.nHeight = parentHeader.nHeight + 1 := by
      apply chained header (.head _) parentHeader _ named
      simp only [List.mem_cons] at parentMember ⊢
      tauto
    rw [stepped, parentHeight, ← castUInt32_succ, ← castUInt32_wrap32]
    rfl

theorem Stored.getBlockHeader_eq_iff (stored : Stored sha256d blocks header entry parent) :
    entry.getBlockHeader = header ↔ header.nHeight = castUInt32 entry.nHeight := by
  rw [stored.fields]
  constructor
  · intro same
    rw [← same]
  · intro same
    rw [← same]

/-- No acceptance check compares the height a header declares with the height of
its entry, so the two agree along a run exactly when the accepted headers
themselves count up from genesis. -/
theorem heightsAgree_iff (env : HashEnv) (params : CChainParams env.sha256d) (inputs : List HeaderInput) :
    HeightsAgree env.sha256d (runHeaders env params inputs) ↔
      HeightsChained env.sha256d params.genesis (runHeaders env params inputs).created := by
  have tree := headerTree_runHeaders env params inputs
  constructor
  · intro agree header member parent parentMember named
    obtain ⟨entry, parentEntry, _, _, linked, height, _⟩ := agree header member
    rw [height, castUInt32_succ]
    congr 1
    rcases List.mem_cons.mp parentMember with rfl | accepted
    · have rooted := tree.genesis_found
      rw [params.hashGenesis_eq, named, linked] at rooted
      cases rooted
      rw [params.genesisHeight_eq, genesisEntry_nHeight]
      rfl
    · obtain ⟨stored, _, found, _, _, _, same, _⟩ := agree parent accepted
      rw [named, linked] at found
      cases found
      rw [← same]
      rfl
  · intro chained header member
    obtain ⟨entry, parent, stored⟩ := tree.stored member
    have height := tree.height_eq chained (.tail _ member) stored.found
    have same := stored.getBlockHeader_eq_iff.mpr height
    refine ⟨entry, parent, stored.found, stored.pprev, stored.linked, ?_, same, by rw [same]⟩
    rw [height, stored.height, castUInt32_wrap32]

/-- The real hash, and a proof-of-work check every header passes. -/
def permissiveEnv : HashEnv := ⟨Sha256.doubleDigest, fun _ _ _ _ _ _ => true⟩

def misnumberedHeader : CBlockHeader :=
  { nVersion := 4
    hashPrevBlock := (regtestParams permissiveEnv.sha256d).consensus.hashGenesisBlock
    hashMerkleRoot := .zero
    nTime := 1296688603
    nBits := 0x207fffff
    nHeight := 5
    nNonce64 := 0
    mixHash := .zero }

theorem misnumberedHeader_accepted : misnumberedHeader ∈ (runHeaders permissiveEnv (regtestParams permissiveEnv.sha256d)
      [⟨misnumberedHeader, true, 1296688603⟩]).created := by
  decide +kernel

theorem misnumberedHeader_heights_disagree : ¬ HeightsAgree permissiveEnv.sha256d
      (runHeaders permissiveEnv (regtestParams permissiveEnv.sha256d) [⟨misnumberedHeader, true, 1296688603⟩]) := by
  intro agree
  obtain ⟨_, parent, _, _, linked, height, _⟩ := agree _ misnumberedHeader_accepted
  have tree := headerTree_runHeaders permissiveEnv (regtestParams permissiveEnv.sha256d)
    [⟨misnumberedHeader, true, 1296688603⟩]
  have rooted := tree.genesis_found
  have same : parent = genesisEntry (regtestParams permissiveEnv.sha256d).genesis :=
    Option.some_inj.mp (linked.symm.trans rooted)
  rw [same, genesisEntry_nHeight] at height
  exact absurd height (by decide)

end Heights

end Sharecoin
