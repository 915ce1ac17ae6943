import Sharecoin.Validation.ChainViews
import Sharecoin.Validation.MutatedBlocks

/-! Runs of `AcceptBlock` on blocks that share one header. As long as the signet rule refuses
none of them the header is never condemned, and the acceptable block among them is accepted
whenever it comes. -/

set_option autoImplicit false

namespace Sharecoin

open Lib CBlockIndex

/-! ## The header of an arrival -/

section Header

variable {sha256d : Bytes → Uint256} {header : CBlockHeader}

theorem lookup_indexWith (blocks : BlockMap) : ∃ entry,
    (indexWith sha256d header blocks).lookup (header.getHash sha256d) = some entry ∧
      (blocks.lookup (header.getHash sha256d) = none → entry.failed = false) := by
  unfold indexWith addToBlockIndex
  dsimp only
  split
  next entry found => exact ⟨entry, found, fun unknown => by cases unknown.symm.trans found⟩
  refine ⟨_, AList.lookup_insert _, fun _ => ?_⟩
  rw [raiseValidity_fresh _ (by unfold linkBlockIndex; split <;> rfl)]
  show (BLOCK_VALID_TREE &&& BLOCK_FAILED_VALID != 0) = false
  decide

end Header

section Arrivals

variable (env : AcceptEnv)

/-- Whether the header of an arrival passes by itself: it is known, or it is the genesis
header, or it is valid where it stands. -/
def HeaderPasses (arrival : BlockArrival) (state : Chainstate) : Prop :=
  arrival.minPowChecked = true ∧ (state.blocks.lookup (arrival.block.header.getHash env.hashes.sha256d) = none →
      arrival.block.header.getHash env.hashes.sha256d ≠ env.params.hashGenesisBlock →
      (checkNewHeader env.hashes env.params
        ⟨arrival.block.header, arrival.minPowChecked, arrival.now⟩ state.blocks).1 = .ok ())

def Condemned (header : CBlockHeader) (state : Chainstate) : Prop :=
  ∃ entry, state.blocks.lookup (header.getHash env.hashes.sha256d) = some entry ∧ entry.failed = true

variable {env} {arrival : BlockArrival} {state : Chainstate}

theorem acceptArrivalHeader_cases (arrival : BlockArrival) (state : Chainstate) :
    (∃ error after, acceptArrivalHeader env arrival state = (.error error, after) ∧ after.blocks = state.blocks) ∨
    (∃ after, acceptArrivalHeader env arrival state = (.ok (arrival.block.header.getHash env.hashes.sha256d), after) ∧
      after.blocks = indexWith env.hashes.sha256d arrival.block.header state.blocks) := by
  have cases := acceptBlockHeader_cases env.hashes env.params
    ⟨arrival.block.header, arrival.minPowChecked, arrival.now⟩ state.chainman
  unfold acceptArrivalHeader
  rcases cases with ⟨error, failed, same⟩ | ⟨accepted, same, _⟩
  · exact .inl ⟨error, _, Prod.ext failed rfl, same⟩
  · exact .inr ⟨_, Prod.ext accepted rfl, same⟩

theorem acceptArrivalHeader_passes (passes : HeaderPasses env arrival state)
    (sound : ¬ Condemned env arrival.block.header state) :
    (acceptArrivalHeader env arrival state).1 = .ok (arrival.block.header.getHash env.hashes.sha256d) := by
  obtain ⟨worked, valid⟩ := passes
  unfold acceptArrivalHeader acceptBlockHeader
  dsimp only
  split
  · rw [admitHeader, if_pos worked]
  next other =>
    split
    · next entry found =>
        have unfailed : entry.failed = false := Bool.eq_false_iff.mpr fun failed => sound ⟨entry, found, failed⟩
        rw [unfailed, if_neg Bool.false_ne_true]
    next unknown =>
      have checked := valid unknown other
      split
      · next error epochs refused =>
          have same := congrArg Prod.fst refused
          rw [Chainstate.blocks] at checked
          rw [checked] at same
          cases same
      · rw [admitHeader, if_pos worked]

theorem acceptBlock_of_condemned (condemned : Condemned env arrival.block.header state)
    (other : arrival.block.header.getHash env.hashes.sha256d ≠ env.params.hashGenesisBlock) :
    (acceptBlock env arrival state).state = state := by
  obtain ⟨entry, found, failed⟩ := condemned
  rw [Chainstate.blocks] at found
  have refused : acceptArrivalHeader env arrival state = (.error (.invalid ⟨.blockCachedInvalid, "duplicate-invalid",
        "block " ++ (arrival.block.header.getHash env.hashes.sha256d).getHex ++
          " was previously marked invalid"⟩), state) := by
    unfold acceptArrivalHeader acceptBlockHeader
    dsimp only
    rw [if_neg other, found]
    dsimp only
    rw [if_pos failed]
  rw [acceptBlock, refused]

end Arrivals

/-! ## Runs -/

section Runs

variable (env : AcceptEnv)

/-- Whether an arrival gets as far as the signet rule and is refused by it. -/
def refusedBySignet (arrival : BlockArrival) (state : Chainstate) : Bool :=
  match acceptArrivalHeader env arrival state with
  | (.error _, _) => false
  | (.ok hash, state) =>
    match state.blocks.lookup hash with
    | none => false
    | some pindex =>
      !leavesUnexamined env state pindex arrival.fRequested &&
        (env.params.signetBlocks && !signetSolved env arrival.block)

def neverRefused : List BlockArrival → Chainstate → Bool
  | [], _ => true
  | arrival :: arrivals, state =>
    !refusedBySignet env arrival state && neverRefused arrivals (acceptBlock env arrival state).state

def parentPointer (header : CBlockHeader) (blocks : BlockMap) : Option Uint256 :=
  ((indexWith env.hashes.sha256d header blocks).lookup (header.getHash env.hashes.sha256d)).bind pprev

/-- `CheckBlock` and `ContextualCheckBlock` accept a block in the place of its header. -/
def Acceptable (block : CBlock) (state : Chainstate) : Prop :=
  checkArrival env (indexWith env.hashes.sha256d block.header state.blocks) block
    (parentPointer env block.header state.blocks) = .ok ()

/-- A block is accepted whenever its header passes and the disk takes it. -/
def AcceptedOnArrival (block : CBlock) (state : Chainstate) : Prop :=
  ∀ arrival : BlockArrival, arrival.block = block → HeaderPasses env arrival state →
    (∃ pos, arrival.disk = .written pos) → (acceptBlock env arrival state).outcome = .ok ()

/-- A block with the header of another one, as far apart from it as hashes can tell. -/
structure CopyOf (block copy : CBlock) : Prop where
  header : copy.header = block.header
  amounts : AmountsFit copy
  apart : KeepsApart env.hashes.sha256d block copy

/-- The states of a run on one header: the header is new or in the tree, and not condemned. -/
structure Holding (header : CBlockHeader) (start : BlockMap) (state : Chainstate) : Prop where
  tree : (state.blocks = start ∧ start.lookup (header.getHash env.hashes.sha256d) = none) ∨
    Keeps frame (indexWith env.hashes.sha256d header start) state.blocks
  sound : ¬ Condemned env header state

variable {env} {header : CBlockHeader} {start : BlockMap} {state after : Chainstate} {block : CBlock}
  {arrival : BlockArrival} {pindex : CBlockIndex} {hash : Uint256}

theorem holding_start (sound : ¬ Condemned env header state) : Holding env header state.blocks state := by
  refine ⟨?_, sound⟩
  cases known : state.blocks.lookup (header.getHash env.hashes.sha256d) with
  | none => exact .inl ⟨rfl, rfl⟩
  | some entry =>
    right
    rw [indexWith_of_found known]
    exact Keeps.refl _ _

/-- Once its header is accepted, a block has its place and an entry that is not failed. -/
theorem Holding.found (holding : Holding env header start state)
    (added : after.blocks = indexWith env.hashes.sha256d header state.blocks) :
    Keeps frame (indexWith env.hashes.sha256d header start) after.blocks ∧
      ∃ entry, after.blocks.lookup (header.getHash env.hashes.sha256d) = some entry ∧
        entry.failed = false ∧ entry.pprev = parentPointer env header start := by
  have kept : Keeps frame (indexWith env.hashes.sha256d header start) after.blocks ∧
      ∃ entry, after.blocks.lookup (header.getHash env.hashes.sha256d) = some entry ∧ entry.failed = false := by
    rw [added]
    rcases holding.tree with ⟨unchanged, unknown⟩ | kept
    · rw [unchanged]
      obtain ⟨entry, found, unfailed⟩ := @lookup_indexWith env.hashes.sha256d header start
      exact ⟨Keeps.refl _ _, entry, found, unfailed unknown⟩
    cases known : state.blocks.lookup (header.getHash env.hashes.sha256d) with
    | none =>
      -- a header in the tree is known
      obtain ⟨entry, found, _⟩ := @lookup_indexWith env.hashes.sha256d header start
      cases (kept.absent_iff.mp known).symm.trans found
    | some entry =>
      rw [indexWith_of_found known]
      refine ⟨kept, entry, known, ?_⟩
      exact Bool.eq_false_iff.mpr fun failed => holding.sound ⟨entry, known, failed⟩
  obtain ⟨kept, entry, found, unfailed⟩ := kept
  refine ⟨kept, entry, found, unfailed, ?_⟩
  obtain ⟨original, listed, same⟩ := kept.symm.found found
  rw [parentPointer, listed, Option.bind_some]
  exact (pprev_of_frame same).symm

theorem checkArrival_of_keeps {blocks after : BlockMap} (kept : Keeps frame blocks after)
    (block : CBlock) (pindexPrev : Option Uint256) :
    checkArrival env after block pindexPrev = checkArrival env blocks block pindexPrev := by
  have context : blockContext after pindexPrev = blockContext blocks pindexPrev := by
    cases pindexPrev with
    | none => rfl
    | some prev =>
      rw [blockContext, blockContext, nHeight_of_keeps kept, getMedianTimePast_of_keeps kept]
  rw [checkArrival, checkArrival, context]

theorem condemned_iff : Condemned env header state ↔
    ((state.blocks.lookup (header.getHash env.hashes.sha256d)).any failed) = true := by
  rw [Condemned, Option.any_eq_true]

theorem condemned_iff_of_keeps (kept : Keeps failed state.blocks after.blocks) :
    Condemned env header after ↔ Condemned env header state := by
  rw [condemned_iff, condemned_iff]
  exact Bool.eq_iff_iff.mp (kept.any_eq id (fun _ => rfl) _)

theorem condemned_invalidBlockFound {entry : CBlockIndex}
    (found : state.blocks.lookup (header.getHash env.hashes.sha256d) = some entry) :
    Condemned env header (state.invalidBlockFound (header.getHash env.hashes.sha256d) .blockConsensus) := by
  refine ⟨entry.markFailed, ?_, entry.failed_markFailed⟩
  rw [Chainstate.invalidBlockFound, if_neg (by decide), Chainstate.blocks_invalidChainFound,
    lookup_mapEntries]
  change ((state.changeEntry _ markFailed).blocks.lookup _).map _ = _
  rw [Chainstate.lookup_changeEntry, found, Option.map_some, Option.map_some, if_pos rfl]
  simp

theorem Holding.storeBlock (holding : Holding env header start state) (hash : Uint256)
    (kept : Keeps frame (indexWith env.hashes.sha256d header start) state.blocks) :
    Holding env header start (Sharecoin.storeBlock env arrival hash state).state := by
  unfold Sharecoin.storeBlock
  split
  · exact holding
  · exact holding
  have frames := @Chainstate.keeps_receivedBlockTransactions _ frame env.addresses
    env.params state hash (fun _ _ _ => rfl) (fun _ _ _ _ => frame_withData _ _ _ _ _)
  have flags := @Chainstate.keeps_receivedBlockTransactions _ failed env.addresses
    env.params state hash (fun _ _ _ => rfl) (fun _ _ _ _ => failed_withData _ _ _ _ _)
  refine ⟨.inr (kept.trans (frames _ _)), ?_⟩
  rw [condemned_iff_of_keeps (flags _ _)]
  exact holding.sound

theorem examineBlock_of_ok (passed : checkArrival env state.blocks arrival.block pindex.pprev = .ok ()) :
    ∃ next : Chainstate, next.blocks = state.blocks ∧
      examineBlock env arrival hash pindex state = storeBlock env arrival hash next := by
  unfold examineBlock
  rw [Chainstate.blocks] at passed
  simp only [Chainstate.blocks, passed]
  refine ⟨_, ?_, rfl⟩
  rfl

theorem examineBlock_of_reject {reject : BlockReject}
    (failed : checkArrival env state.blocks arrival.block pindex.pprev = .error (.invalid reject)) :
    ∃ next : Chainstate, next.blocks = state.blocks ∧ examineBlock env arrival hash pindex state =
        ⟨.error (.invalid reject), false, next.invalidBlockFound hash reject.result⟩ := by
  unfold examineBlock
  rw [Chainstate.blocks] at failed
  simp only [Chainstate.blocks, failed]
  refine ⟨_, ?_, rfl⟩
  rfl

theorem Holding.of_blocks (holding : Holding env header start state)
    (unchanged : after.blocks = state.blocks) : Holding env header start after := by
  refine ⟨unchanged.symm ▸ holding.tree, ?_⟩
  rintro ⟨entry, found, failed⟩
  exact holding.sound ⟨entry, unchanged ▸ found, failed⟩

/-- An arrival whose header is refused changes no entry; any other one has its place. -/
theorem Holding.header_cases (holding : Holding env header start state) (same : arrival.block.header = header) :
    (∃ error after, acceptArrivalHeader env arrival state = (.error error, after) ∧ Holding env header start after) ∨
    (∃ after entry, acceptArrivalHeader env arrival state = (.ok (header.getHash env.hashes.sha256d), after) ∧
      Holding env header start after ∧
      Keeps frame (indexWith env.hashes.sha256d header start) after.blocks ∧
      after.blocks.lookup (header.getHash env.hashes.sha256d) = some entry ∧
      entry.pprev = parentPointer env header start) := by
  subst same
  rcases @acceptArrivalHeader_cases env arrival state with
    ⟨error, after, failed, unchanged⟩ | ⟨after, accepted, added⟩
  · exact .inl ⟨error, after, failed, holding.of_blocks unchanged⟩
  obtain ⟨kept, entry, found, unfailed, parent⟩ := holding.found added
  refine .inr ⟨after, entry, accepted, ⟨.inr kept, ?_⟩, kept, found, parent⟩
  rintro ⟨other, listed, bad⟩
  rw [found] at listed
  rw [← Option.some.inj listed, unfailed] at bad
  cases bad

section Step

variable (acceptable : checkArrival env (indexWith env.hashes.sha256d block.header start)
    block (parentPointer env block.header start) = .ok ())
  (holding : Holding env block.header start state)

include acceptable holding

theorem Holding.acceptBlock (same : CopyOf env block arrival.block)
    (solved : refusedBySignet env arrival state = false) :
    Holding env block.header start (Sharecoin.acceptBlock env arrival state).state := by
  rw [Sharecoin.acceptBlock]
  rw [refusedBySignet] at solved
  rcases holding.header_cases same.header with
    ⟨error, after, failed, held⟩ | ⟨after, entry, accepted, held, kept, found, parent⟩
  · rw [failed]
    exact held
  rw [accepted] at solved ⊢
  dsimp only at solved ⊢
  rw [found] at solved ⊢
  dsimp only at solved ⊢
  split
  · exact held
  next examined =>
    rw [Bool.eq_false_iff.mpr examined, Bool.not_false, Bool.true_and] at solved
    have harmless := harmless_checkArrival same.apart same.header same.amounts acceptable solved
    rw [← parent, ← checkArrival_of_keeps kept] at harmless
    rcases harmless with passed | ⟨reject, failed, blamed⟩
    · obtain ⟨next, unchanged, stored⟩ := examineBlock_of_ok passed
      rw [stored]
      exact (held.of_blocks unchanged).storeBlock _ (unchanged.symm ▸ kept)
    · obtain ⟨next, unchanged, refused⟩ := examineBlock_of_reject failed
      rw [refused, blamed, Chainstate.invalidBlockFound_mutated]
      exact held.of_blocks unchanged

theorem Holding.condemned (same : arrival.block.header = block.header)
    (refused : refusedBySignet env arrival state = true) :
    Condemned env block.header (Sharecoin.acceptBlock env arrival state).state := by
  rw [Sharecoin.acceptBlock]
  rw [refusedBySignet] at refused
  rcases holding.header_cases same with
    ⟨error, after, failed, -⟩ | ⟨after, entry, accepted, -, kept, found, parent⟩
  · rw [failed] at refused
    cases refused
  rw [accepted] at refused ⊢
  dsimp only at refused ⊢
  rw [found] at refused ⊢
  dsimp only at refused ⊢
  rw [Bool.and_eq_true, Bool.not_eq_true'] at refused
  rw [refused.1, if_neg Bool.false_ne_true]
  rw [checkArrival, checkBlock_eq] at acceptable
  simp only [bind_eq_ok_iff] at acceptable
  obtain ⟨_, ⟨_, worked, _⟩, _⟩ := acceptable
  have failed : checkArrival env after.blocks arrival.block entry.pprev = .error (.invalid
      ⟨.blockConsensus, "bad-signet-blksig", "signet block signature validation failure"⟩) := by
    rw [checkArrival, checkBlock_eq, same, worked, Bool.and_true, refused.2]
    rfl
  obtain ⟨next, unchanged, outcome⟩ := examineBlock_of_reject failed
  rw [outcome]
  exact condemned_invalidBlockFound (unchanged.symm ▸ found)

theorem Holding.accepted : AcceptedOnArrival env block state := by
  intro arrival same passes ⟨pos, disk⟩
  subst same
  have admitted := acceptArrivalHeader_passes passes holding.sound
  rw [Sharecoin.acceptBlock]
  rcases holding.header_cases rfl with
    ⟨error, after, failed, -⟩ | ⟨after, entry, accepted, -, kept, found, parent⟩
  · rw [failed] at admitted
    cases admitted
  rw [accepted]
  dsimp only
  rw [found]
  dsimp only
  split
  · rfl
  · rw [← parent, ← checkArrival_of_keeps kept] at acceptable
    obtain ⟨next, unchanged, stored⟩ := examineBlock_of_ok acceptable
    rw [stored, Sharecoin.storeBlock, disk]

end Step

theorem not_genesis_of_refused (refused : refusedBySignet env arrival state = true) :
    arrival.block.header.getHash env.hashes.sha256d ≠ env.params.hashGenesisBlock := by
  intro genesis
  have solved : signetSolved env arrival.block = true := by
    simp [signetSolved, checkSignetBlockSolution, genesis]
  unfold refusedBySignet at refused
  split at refused
  · cases refused
  · split at refused
    · cases refused
    · simp [solved] at refused

theorem acceptBlocks_of_condemned {arrivals : List BlockArrival}
    (same : ∀ arrival ∈ arrivals, arrival.block.header = header)
    (other : header.getHash env.hashes.sha256d ≠ env.params.hashGenesisBlock)
    (condemned : Condemned env header state) : acceptBlocks env arrivals state = state := by
  induction arrivals with
  | nil => rfl
  | cons arrival arrivals ih =>
    have own := same arrival (.head _)
    rw [acceptBlocks, acceptBlock_of_condemned (own.symm ▸ condemned) (own.symm ▸ other)]
    exact ih (List.forall_mem_cons.mp same).2

/-- Copies of an acceptable block do not condemn its header, and the block is accepted when
it comes, exactly as long as the signet rule refuses none of the copies. -/
theorem copies_condemn_nothing_iff {arrivals : List BlockArrival} (acceptable : Acceptable env block state)
    (sound : ¬ Condemned env block.header state) (copies : ∀ arrival ∈ arrivals, CopyOf env block arrival.block) :
    (¬ Condemned env block.header (acceptBlocks env arrivals state) ∧
      AcceptedOnArrival env block (acceptBlocks env arrivals state)) ↔
      neverRefused env arrivals state = true := by
  have holding := holding_start sound
  rw [Acceptable] at acceptable
  generalize state.blocks = start at holding acceptable
  induction arrivals generalizing state with
  | nil => exact ⟨fun _ => rfl, fun _ => ⟨holding.sound, holding.accepted acceptable⟩⟩
  | cons arrival arrivals ih =>
    have own := copies arrival (.head _)
    have rest : ∀ later ∈ arrivals, CopyOf env block later.block := (List.forall_mem_cons.mp copies).2
    rw [acceptBlocks, neverRefused]
    cases refused : refusedBySignet env arrival state with
    | false =>
      have next := holding.acceptBlock acceptable own refused
      rw [Bool.not_false, Bool.true_and]
      exact ih next.sound rest next
    | true =>
      rw [Bool.not_true, Bool.false_and]
      have condemned := holding.condemned acceptable own.header refused
      have other := not_genesis_of_refused refused
      rw [own.header] at other
      rw [acceptBlocks_of_condemned (fun later member => (rest later member).header) other condemned]
      exact ⟨fun harmless => absurd condemned harmless.1, nofun⟩

/-! A signet whose challenge everything solves, with one block on its genesis. The hash is
one that is quick to evaluate. -/

def quickHash (bytes : Bytes) : Uint256 :=
  .ofNat (bytes.foldl (fun digest byte => (digest * 257 + byte.toNat + 1) % 2 ^ 256) 1)

def signetEnv : AcceptEnv :=
  { hashes := ⟨quickHash, fun _ _ _ _ _ _ => true⟩
    addresses := ⟨Uint256.toNat, Uint256.toNat_injective⟩
    params := (signetParams quickHash).consensus
    minimumChainWork := 0
    verifySolution := fun _ => true }

def signetStart : Chainstate :=
  let hash := signetEnv.params.hashGenesisBlock
  let genesis : Chainstate := { chainman := addToBlockIndex quickHash (signetParams quickHash).genesis {} }
  { genesis.receivedBlockTransactions signetEnv.addresses signetEnv.params 1 hash ⟨0, 8⟩ with
    mChain := [hash] }

def signetCoinbase : CTransaction :=
  { vin := [{ scriptSig := coinbaseScriptSig 1, scriptWitness := [witnessNonce] }]
    vout := [witnessCommitment quickHash .zero] }

def signetBlock : CBlock :=
  { header :=
      { nVersion := 4
        hashPrevBlock := signetEnv.params.hashGenesisBlock
        hashMerkleRoot := signetCoinbase.getHash quickHash
        nTime := 1598918401
        nBits := 0x1e0377ae
        nHeight := 1
        nNonce64 := 0
        mixHash := .zero }
    vtx := [signetCoinbase] }

def arrivalOf (block : CBlock) : BlockArrival :=
  { block, fRequested := true, minPowChecked := true, now := 1598918401, disk := .written ⟨0, 300⟩ }

/-- The block with another reserved value in its coinbase witness. -/
def rewitnessedBlock : CBlock :=
  { signetBlock with
    vtx := [{ signetCoinbase with
      vin := [{ scriptSig := coinbaseScriptSig 1, scriptWitness := [List.replicate 32 1] }] }] }

theorem signetBlock_acceptable : Acceptable signetEnv signetBlock signetStart := by
  unfold Acceptable
  decide +kernel

theorem signetStart_sound : ¬ Condemned signetEnv signetBlock.header signetStart := by
  rw [condemned_iff]
  decide +kernel

theorem rewitnessedBlock_copyOf : CopyOf signetEnv signetBlock rewitnessedBlock :=
  ⟨rfl, by decide, by decide +kernel⟩

theorem copies_condemn_nothing_rewitnessed : Acceptable signetEnv signetBlock signetStart ∧
      ¬ Condemned signetEnv signetBlock.header signetStart ∧
      CopyOf signetEnv signetBlock rewitnessedBlock ∧
      neverRefused signetEnv [arrivalOf rewitnessedBlock] signetStart = true ∧
      ¬ Condemned signetEnv signetBlock.header (acceptBlocks signetEnv [arrivalOf rewitnessedBlock] signetStart) ∧
      AcceptedOnArrival signetEnv signetBlock (acceptBlocks signetEnv [arrivalOf rewitnessedBlock] signetStart) := by
  have solved : neverRefused signetEnv [arrivalOf rewitnessedBlock] signetStart = true := by decide +kernel
  have copies : ∀ arrival ∈ [arrivalOf rewitnessedBlock], CopyOf signetEnv signetBlock arrival.block := by
    intro arrival member
    rw [List.mem_singleton.mp member]
    exact rewitnessedBlock_copyOf
  exact ⟨signetBlock_acceptable, signetStart_sound, rewitnessedBlock_copyOf, solved,
    (copies_condemn_nothing_iff signetBlock_acceptable signetStart_sound copies).mpr solved⟩

/-- A copy without transactions makes the node refuse the block for good: the signature is
looked for before the merkle root is compared. -/
theorem emptied_copy_condemns : Acceptable signetEnv signetBlock signetStart ∧
      ¬ Condemned signetEnv signetBlock.header signetStart ∧
      CopyOf signetEnv signetBlock { signetBlock with vtx := [] } ∧
      Condemned signetEnv signetBlock.header
        (acceptBlock signetEnv (arrivalOf { signetBlock with vtx := [] }) signetStart).state ∧
      (acceptBlock signetEnv (arrivalOf signetBlock)
        (acceptBlock signetEnv (arrivalOf { signetBlock with vtx := [] }) signetStart).state).outcome =
        .error (.invalid ⟨.blockCachedInvalid, "duplicate-invalid",
          "block " ++ (signetBlock.header.getHash quickHash).getHex ++ " was previously marked invalid"⟩) := by
  refine ⟨signetBlock_acceptable, signetStart_sound, ⟨rfl, by decide, by decide +kernel⟩, ?_, ?_⟩
  · rw [condemned_iff]
    decide +kernel
  · decide +kernel

end Runs

end Sharecoin
