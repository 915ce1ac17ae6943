import Sharecoin.Consensus.MerkleProperties
import Sharecoin.Primitives.TransactionCodec
import Sharecoin.Validation.AcceptBlock
import Sharecoin.Validation.ConnectBlockProperties

/-! Blocks that share the header of an acceptable block and hold other transactions or
witnesses. What a header does not fix is found out as mutated before any other rule looks at
it, except for the signature of a signet block. -/

set_option autoImplicit false

namespace Sharecoin

open Lib CTransaction

/-! ## Outcomes that condemn nothing -/

/-- A check passes, or blames the data and not the header. -/
def Harmless (outcome : Except HeaderError Unit) : Prop :=
  outcome = .ok () ∨ ∃ reject, outcome = .error (.invalid reject) ∧ reject.result = .blockMutated

theorem harmless_blockCheck {holds : Bool} {reject : BlockReject}
    (blamed : reject.result = .blockMutated) : Harmless (blockCheck holds reject) := by
  cases holds with
  | false => exact .inr ⟨reject, rfl, blamed⟩
  | true => exact .inl rfl

theorem Harmless.bind {first : Except HeaderError Unit} {next : Unit → Except HeaderError Unit}
    (harmless : Harmless first) (rest : first = .ok () → Harmless (next ())) : Harmless (first >>= next) := by
  rcases harmless with passed | ⟨reject, failed, blamed⟩
  · rw [passed]
    exact rest passed
  · rw [failed]
    exact .inr ⟨reject, rfl, blamed⟩

/-! ## What the identifiers fix -/

namespace CTransaction

variable (tx : CTransaction)

theorem flatMap_withoutWitness (vin : List CTxIn) :
    (vin.map CTxIn.withoutWitness).flatMap CTxIn.serialize = vin.flatMap CTxIn.serialize := by
  rw [List.flatMap_map]
  rfl

theorem serialize_withoutWitness : tx.withoutWitness.serialize false = tx.serialize false := by
  simp only [serialize, withoutWitness, serializeVector, flatMap_withoutWitness, List.length_map,
    Bool.false_and, Bool.false_eq_true, if_false]

theorem isCoinBase_withoutWitness : tx.withoutWitness.isCoinBase = tx.isCoinBase := by
  rw [isCoinBase, isCoinBase, withoutWitness]
  rcases tx.vin with _ | ⟨first, _ | ⟨second, rest⟩⟩
  · rfl
  · rfl
  · rfl

theorem headD_withoutWitness (vin : List CTxIn) :
    ((vin.map CTxIn.withoutWitness).headD {}).scriptSig = (vin.headD {}).scriptSig := by
  cases vin <;> rfl

theorem checkInputKinds_withoutWitness : checkInputKinds tx.withoutWitness = checkInputKinds tx := by
  rw [checkInputKinds, checkInputKinds, isCoinBase_withoutWitness]
  simp only [withoutWitness, headD_withoutWitness, List.all_map]
  rfl

theorem checkTransaction_withoutWitness : checkTransaction tx.withoutWitness = checkTransaction tx := by
  rw [checkTransaction, checkTransaction, serialize_withoutWitness, checkInputKinds_withoutWitness]
  simp only [withoutWitness, List.isEmpty_map, List.map_map]
  rfl

theorem getLegacySigOpCount_withoutWitness : getLegacySigOpCount tx.withoutWitness = getLegacySigOpCount tx := by
  simp only [getLegacySigOpCount, withoutWitness, List.map_map]
  rfl

theorem isFinalTx_withoutWitness (nBlockHeight nBlockTime : Int) :
    isFinalTx tx.withoutWitness nBlockHeight nBlockTime = isFinalTx tx nBlockHeight nBlockTime := by
  simp only [isFinalTx, withoutWitness, List.all_map]
  rfl

end CTransaction

def CBlock.withoutWitnesses (block : CBlock) : CBlock :=
  { block with vtx := block.vtx.map withoutWitness }

/-- Two blocks differ in witnesses only. -/
structure SameButWitness (block copy : CBlock) : Prop where
  header : copy.header = block.header
  vtx : copy.vtx.map withoutWitness = block.vtx.map withoutWitness

variable {block copy : CBlock} {pair : Uint256 × Uint256}

theorem SameButWitness.eq_of_blind {α : Type} (same : SameButWitness block copy) (view : CBlock → α)
    (blind : ∀ block : CBlock, view block.withoutWitnesses = view block) : view copy = view block := by
  rw [← blind copy, ← blind block, CBlock.withoutWitnesses, CBlock.withoutWitnesses, same.header, same.vtx]

theorem checkBlock_eq (env : HashEnv) (solved : CBlock → Bool) (params : Params) (block : CBlock) :
    checkBlock env solved params block true true = (do
      (checkBlockHeader env block.header params).1
      blockCheck (!(params.signetBlocks && true && !solved block))
        ⟨.blockConsensus, "bad-signet-blksig", "signet block signature validation failure"⟩
      checkMerkleRoot env.sha256d block
      checkBlockBody env.sha256d block) := rfl

theorem checkTransactions_map {sha256d : Bytes → Uint256} (vtx : List CTransaction) :
    checkTransactions sha256d (vtx.map withoutWitness) = checkTransactions sha256d vtx := by
  induction vtx with
  | nil => rfl
  | cons tx vtx ih =>
    rw [List.map_cons, checkTransactions, checkTransactions,
      checkTransaction_withoutWitness, ih, getHash,
      serialize_withoutWitness]
    rfl

variable {sha256d : Bytes → Uint256}

section Blind

variable (block : CBlock)

theorem strippedSize_withoutWitnesses : block.withoutWitnesses.strippedSize = block.strippedSize := by
  simp only [CBlock.strippedSize, serializeVector, CBlock.withoutWitnesses, List.length_map,
    List.flatMap_map, serialize_withoutWitness]

theorem checkBlockBody_withoutWitnesses :
    checkBlockBody sha256d block.withoutWitnesses = checkBlockBody sha256d block := by
  rw [checkBlockBody, checkBlockBody, strippedSize_withoutWitnesses]
  simp only [CBlock.withoutWitnesses, List.isEmpty_map, List.length_map, List.head?_map, Option.any_map,
    ← List.map_tail, List.all_map, List.map_map, checkTransactions_map, Function.comp_def,
    isCoinBase_withoutWitness, getLegacySigOpCount_withoutWitness]

theorem witnessCommitmentOutput_withoutWitnesses :
    witnessCommitmentOutput block.withoutWitnesses = witnessCommitmentOutput block := by
  rw [witnessCommitmentOutput, witnessCommitmentOutput, CBlock.withoutWitnesses]
  cases block.vtx <;> rfl

theorem coinbaseInput_withoutWitnesses :
    (block.withoutWitnesses.vtx.head?.bind fun coinbase => coinbase.vin.head?) =
      (block.vtx.head?.bind fun coinbase => coinbase.vin.head?).map CTxIn.withoutWitness := by
  rw [CBlock.withoutWitnesses]
  cases block.vtx with
  | nil => rfl
  | cons coinbase regulars => exact List.head?_map

theorem checkCoinbaseHeight_withoutWitnesses (params : Params) (context : BlockContext) :
    checkCoinbaseHeight params context block.withoutWitnesses = checkCoinbaseHeight params context block := by
  rw [checkCoinbaseHeight, checkCoinbaseHeight, coinbaseInput_withoutWitnesses]
  cases block.vtx.head?.bind fun coinbase => coinbase.vin.head? <;> rfl

theorem all_isFinalTx_withoutWitnesses (nHeight nTime : Int) :
    (block.withoutWitnesses.vtx.all fun tx => isFinalTx tx nHeight nTime) =
      block.vtx.all fun tx => isFinalTx tx nHeight nTime := by
  simp only [CBlock.withoutWitnesses, List.all_map, Function.comp_def, isFinalTx_withoutWitness]

end Blind

/-! ## Hash functions that keep two blocks apart -/

section Hashes

variable (sha256d : Bytes → Uint256)

def reservedValue (block : CBlock) : Bytes :=
  match block.vtx.head?.bind fun coinbase => coinbase.vin.head? with
  | none => []
  | some txin => txin.scriptWitness.headD []

def txidLeaves (block : CBlock) : List Uint256 := block.vtx.map (getHash sha256d)

def witnessLeaves (block : CBlock) : List Uint256 :=
  .zero :: block.vtx.tail.map (getWitnessHash sha256d)

/-- Everything that is hashed to check the transactions of a block. -/
def hashedInputs (block : CBlock) : List Bytes :=
  block.vtx.map (serialize false) ++ block.vtx.map (serialize true) ++
    (merklePairs sha256d (txidLeaves sha256d block) ++ merklePairs sha256d (witnessLeaves sha256d block)).map
        (fun pair => pair.1.data ++ pair.2.data) ++
    [(blockWitnessMerkleRoot sha256d block).data ++ reservedValue block]

/-- What is assumed of the hash function on two blocks: it does not collide on what they
hash, no transaction hash is a node of the trees, and the root is not the null hash. -/
structure KeepsApart (block copy : CBlock) : Prop where
  collisionFree : ∀ left ∈ hashedInputs sha256d block ++ hashedInputs sha256d copy,
    ∀ right ∈ hashedInputs sha256d block ++ hashedInputs sha256d copy, sha256d left = sha256d right → left = right
  leavesApart : ∀ leaf ∈ txidLeaves sha256d block ++ txidLeaves sha256d copy,
    ∀ pair ∈ merklePairs sha256d (txidLeaves sha256d block) ++
      merklePairs sha256d (txidLeaves sha256d copy), leaf ≠ merkleNode sha256d pair
  rootNotNull : block.header.hashMerkleRoot ≠ .zero

instance (block copy : CBlock) : Decidable (KeepsApart sha256d block copy) :=
  decidable_of_iff (_ ∧ _ ∧ _) ⟨fun ⟨free, apart, root⟩ => ⟨free, apart, root⟩,
      fun ⟨free, apart, root⟩ => ⟨free, apart, root⟩⟩

/-- Amounts are 64-bit integers. -/
def AmountsFit (block : CBlock) : Prop :=
  ∀ tx ∈ block.vtx, ∀ txout ∈ tx.vout, -2 ^ 63 ≤ txout.nValue ∧ txout.nValue < 2 ^ 63

instance (block : CBlock) : Decidable (AmountsFit block) :=
  inferInstanceAs (Decidable (∀ tx ∈ block.vtx, ∀ txout ∈ tx.vout, -2 ^ 63 ≤ txout.nValue ∧ txout.nValue < 2 ^ 63))

end Hashes

/-! ## Reading off the checks -/

theorem map_eq_of_map_eq {α β γ : Type} {first : α → β} {second : α → γ} {items others : List α}
    (same : items.map first = others.map first)
    (fixed : ∀ item ∈ items, ∀ other ∈ others, first item = first other → second item = second other) :
    items.map second = others.map second := by
  induction items generalizing others with
  | nil => rw [List.map_eq_nil_iff.mp same.symm]
  | cons item items ih =>
    match others with
    | other :: others =>
      obtain ⟨head, tail⟩ := List.cons.inj same
      rw [List.map_cons, List.map_cons, fixed item (.head _) other (.head _) head,
        ih tail fun item member other member' =>
          fixed item (.tail _ member) other (.tail _ member')]

theorem checkMerkleRoot_eq_ok (passed : checkMerkleRoot sha256d block = .ok ()) :
    block.header.hashMerkleRoot = (computeMerkleRoot sha256d (txidLeaves sha256d block)).1 ∧
      (computeMerkleRoot sha256d (txidLeaves sha256d block)).2 = false := by
  simp only [checkMerkleRoot, bind_eq_ok_iff, blockCheck_eq_ok_iff] at passed
  obtain ⟨_, root, flag⟩ := passed
  have unflagged : (blockMerkleRoot sha256d block).2 = false := by simpa using flag
  exact ⟨of_decide_eq_true root, unflagged⟩

theorem checkOutputValues_range {vout : List CTxOut} {nValueOut : Int}
    (passed : checkOutputValues vout nValueOut = .ok ()) :
    ∀ txout ∈ vout, 0 ≤ txout.nValue ∧ txout.nValue ≤ MAX_MONEY := by
  induction vout generalizing nValueOut with
  | nil => exact List.forall_mem_nil _
  | cons txout vout ih =>
    simp only [checkOutputValues, bind_eq_ok_iff, txCheck_eq_ok_iff, decide_eq_true_eq] at passed
    obtain ⟨_, low, _, high, _, _, rest⟩ := passed
    exact List.forall_mem_cons.mpr ⟨⟨low, high⟩, ih rest⟩

/-- What the rest of `CheckBlock` says about a block that passes. -/
structure BodyChecked (block : CBlock) : Prop where
  inputs : ∀ tx ∈ block.vtx, tx.vin ≠ []
  amounts : AmountsFit block
  stripped : block.strippedSize ≤ MAX_SIZE
  coinbase : ∃ coinbase regulars txin, block.vtx = coinbase :: regulars ∧ coinbase.vin = [txin]

theorem checkBlockBody_ok (passed : checkBlockBody sha256d block = .ok ()) : BodyChecked block := by
  simp only [checkBlockBody, bind_eq_ok_iff, blockCheck_eq_ok_iff, Bool.and_eq_true, decide_eq_true_eq] at passed
  obtain ⟨_, ⟨⟨some, _⟩, size⟩, _, minted, _, _, _, transactions, _⟩ := passed
  have checked := checkTransactions_ok transactions
  have each : ∀ tx ∈ block.vtx, tx.vin ≠ [] ∧ ∀ txout ∈ tx.vout, 0 ≤ txout.nValue ∧ txout.nValue ≤ MAX_MONEY := by
    intro tx member
    have own := checked tx member
    simp only [checkTransaction, bind_eq_ok_iff, txCheck_eq_ok_iff] at own
    obtain ⟨_, inputs, _, _, _, _, _, outputs, _⟩ := own
    exact ⟨by simpa using inputs, checkOutputValues_range outputs⟩
  refine ⟨fun tx member => (each tx member).1, ?_, ?_, ?_⟩
  · intro tx member txout listed
    have range := (each tx member).2 txout listed
    have most : MAX_MONEY < 2 ^ 63 := by decide
    omega
  · simp only [WITNESS_SCALE_FACTOR, MAX_BLOCK_WEIGHT] at size
    unfold MAX_SIZE
    omega
  rcases split : block.vtx with _ | ⟨coinbase, regulars⟩
  · simp [split] at some
  rw [split, List.head?_cons, Option.any_some] at minted
  rcases inputs : coinbase.vin with _ | ⟨txin, _ | ⟨second, rest⟩⟩
  · simp [isCoinBase, inputs] at minted
  · exact ⟨coinbase, regulars, txin, rfl, inputs⟩
  · simp [isCoinBase, inputs] at minted

/-! ## What the header fixes -/

namespace KeepsApart

variable (apart : KeepsApart sha256d block copy)

include apart

theorem serialize_eq {allowWitness : Bool} {tx other : CTransaction} (member : tx ∈ copy.vtx)
    (member' : other ∈ block.vtx)
    (same : sha256d (tx.serialize allowWitness) = sha256d (other.serialize allowWitness)) :
    tx.serialize allowWitness = other.serialize allowWitness := by
  apply apart.collisionFree _ (List.mem_append_right _ ?_) _ (List.mem_append_left _ ?_) same
  all_goals
    cases allowWitness
    · simp only [hashedInputs, List.append_assoc]
      exact List.mem_append_left _ (List.mem_map_of_mem ‹_›)
    · simp only [hashedInputs, List.append_assoc]
      exact List.mem_append_right _ (List.mem_append_left _ (List.mem_map_of_mem ‹_›))

theorem injOn {pairs : List (Uint256 × Uint256)} (hashed : ∀ pair ∈ pairs, pair.1.data ++ pair.2.data ∈
      hashedInputs sha256d block ++ hashedInputs sha256d copy) :
    Set.InjOn (merkleNode sha256d) {pair | pair ∈ pairs} := by
  intro pair listed other listed' same
  have bytes := apart.collisionFree _ (hashed pair listed) _ (hashed other listed') same
  obtain ⟨left, right⟩ := List.append_inj bytes (by rw [pair.1.size_eq, other.1.size_eq])
  exact Prod.ext (Uint256.ext left) (Uint256.ext right)

end KeepsApart

theorem mem_hashedInputs (listed : pair ∈
      merklePairs sha256d (txidLeaves sha256d block) ++ merklePairs sha256d (witnessLeaves sha256d block)) :
    pair.1.data ++ pair.2.data ∈ hashedInputs sha256d block := by
  refine List.mem_append_left _ (List.mem_append_right _ ?_)
  exact List.mem_map.mpr ⟨pair, listed, rfl⟩

theorem stripped_length (checked : BodyChecked block) {tx : CTransaction}
    (member : tx ∈ block.vtx) : (tx.serialize false).length ≤ MAX_SIZE := by
  have size := checked.stripped
  have own := @length_le_flatMap _ (serialize false) _ _ member
  have all := @flatMap_le_serializeVector _ (serialize false) block.vtx
  rw [CBlock.strippedSize] at size
  omega

section Fixed

variable {commitment : CTxOut}

/-- The merkle root fixes everything but the witnesses. -/
theorem sameButWitness_of_roots (apart : KeepsApart sha256d block copy) (header : copy.header = block.header)
    (checked : BodyChecked block) (amounts : AmountsFit copy) (root : checkMerkleRoot sha256d block = .ok ())
    (root' : checkMerkleRoot sha256d copy = .ok ()) : SameButWitness block copy := by
  obtain ⟨own, unflagged⟩ := checkMerkleRoot_eq_ok root
  obtain ⟨other, unflagged'⟩ := checkMerkleRoot_eq_ok root'
  rw [header] at other
  have some : txidLeaves sha256d block ≠ [] := by
    obtain ⟨coinbase, regulars, _, split, _⟩ := checked.coinbase
    simp [txidLeaves, split]
  have some' : txidLeaves sha256d copy ≠ [] := by
    intro empty
    rw [empty] at other
    exact apart.rootNotNull other
  have leaves : txidLeaves sha256d block = txidLeaves sha256d copy := by
    refine eq_of_computeMerkleRoot (apart.injOn ?_) some (own.symm.trans other) apart.leavesApart some' unflagged unflagged'
    intro pair listed
    rcases List.mem_append.mp listed with listed | listed
    · exact List.mem_append_left _ (mem_hashedInputs (List.mem_append_left _ listed))
    · exact List.mem_append_right _ (mem_hashedInputs (List.mem_append_left _ listed))
  refine ⟨header, map_eq_of_map_eq leaves.symm ?_⟩
  intro tx member other member' hashes
  have bytes := apart.serialize_eq member member' hashes
  have length := stripped_length checked member'
  exact withoutWitness_eq (encodable_of_length (bytes ▸ length) (amounts tx member))
    (encodable_of_length length (checked.amounts other member')) bytes

theorem eq_of_noWitness (same : SameButWitness block copy) (bare : checkNoWitness block = .ok ())
    (bare' : checkNoWitness copy = .ok ()) : copy = block := by
  have stripped : ∀ block, checkNoWitness block = .ok () → block.vtx.map withoutWitness = block.vtx := by
    intro block bare
    rw [checkNoWitness, blockCheck_eq_ok_iff, List.all_eq_true] at bare
    conv_rhs => rw [← List.map_id block.vtx]
    exact List.map_congr_left fun tx member => withoutWitness_of_bare (by simpa using bare tx member)
  have vtx := same.vtx
  rw [stripped block bare, stripped copy bare'] at vtx
  have header := same.header
  cases block
  cases copy
  cases vtx
  cases header
  rfl

theorem checkWitnessCommitment_eq_ok (passed : checkWitnessCommitment sha256d block commitment = .ok ()) :
    ∃ txin, (block.vtx.head?.bind fun coinbase => coinbase.vin.head?) = some txin ∧
      txin.scriptWitness = [reservedValue block] ∧
      (sha256d ((blockWitnessMerkleRoot sha256d block).data ++ reservedValue block)).data =
        (commitment.scriptPubKey.drop 6).take 32 := by
  unfold checkWitnessCommitment at passed
  cases first : block.vtx.head?.bind fun coinbase => coinbase.vin.head? with
  | none => simp [first] at passed
  | some txin =>
    have reserved : reservedValue block = txin.scriptWitness.headD [] := by
      rw [reservedValue, first]
    simp only [first, bind_eq_ok_iff, blockCheck_eq_ok_iff, Bool.and_eq_true, beq_iff_eq] at passed
    obtain ⟨_, ⟨one, _⟩, hash⟩ := passed
    obtain ⟨nonce, stack⟩ := List.length_eq_one_iff.mp one
    refine ⟨txin, rfl, ?_, reserved ▸ hash⟩
    rw [reserved, stack]
    rfl

theorem full_length (light : getBlockWeight block ≤ MAX_BLOCK_WEIGHT) {tx : CTransaction}
    (member : tx ∈ block.vtx) : (tx.serialize true).length ≤ MAX_SIZE := by
  have own := @length_le_flatMap _ (serialize true) _ _ member
  have all := @flatMap_le_serializeVector _ (serialize true) block.vtx
  simp only [getBlockWeight, fullSize, MAX_BLOCK_WEIGHT] at light
  unfold MAX_SIZE
  omega

/-- A copy of a checked block that can differ only in its witnesses. -/
structure Rewitnessed (sha256d : Bytes → Uint256) (block copy : CBlock) : Prop where
  apart : KeepsApart sha256d block copy
  checked : BodyChecked block
  amounts : AmountsFit copy
  same : SameButWitness block copy

theorem regulars_eq (rewitnessed : Rewitnessed sha256d block copy) (light : getBlockWeight block ≤ MAX_BLOCK_WEIGHT)
    (roots : blockWitnessMerkleRoot sha256d copy = blockWitnessMerkleRoot sha256d block) :
    copy.vtx.tail = block.vtx.tail := by
  obtain ⟨apart, checked, amounts, same⟩ := rewitnessed
  have long : (witnessLeaves sha256d copy).length = (witnessLeaves sha256d block).length := by
    have count := same.eq_of_blind (·.vtx.length) fun _ => List.length_map _
    simp [witnessLeaves, count]
  have leaves : witnessLeaves sha256d copy = witnessLeaves sha256d block := by
    refine eq_of_computeMerkleRoot_of_length (apart.injOn ?_) (List.cons_ne_nil _ _) roots long
    intro pair listed
    rcases List.mem_append.mp listed with listed | listed
    · exact List.mem_append_right _ (mem_hashedInputs (List.mem_append_right _ listed))
    · exact List.mem_append_left _ (mem_hashedInputs (List.mem_append_right _ listed))
  have hashes : copy.vtx.tail.map (getWitnessHash sha256d) =
      block.vtx.tail.map (getWitnessHash sha256d) := (List.cons.inj leaves).2
  have inputs : (∀ tx ∈ copy.vtx, tx.vin ≠ []) = ∀ tx ∈ block.vtx, tx.vin ≠ [] :=
    same.eq_of_blind (fun block => ∀ tx ∈ block.vtx, tx.vin ≠ []) fun block => by
      simp [CBlock.withoutWitnesses, withoutWitness]
  have fixed : copy.vtx.tail.map id = block.vtx.tail.map id := by
    refine map_eq_of_map_eq hashes ?_
    intro tx member other member' hash
    have member := List.mem_of_mem_tail member
    have member' := List.mem_of_mem_tail member'
    rw [getWitnessHash_eq, getWitnessHash_eq] at hash
    have bytes := apart.serialize_eq member member' hash
    have length := full_length light member'
    have length' : (tx.serialize true).length ≤ MAX_SIZE := bytes ▸ length
    exact eq_of_serialize (encodable_of_length
        (Nat.le_trans (serialize_le tx) length') (amounts tx member))
      (encodable_of_length
        (Nat.le_trans (serialize_le other) length) (checked.amounts other member'))
      (witnessEncodable_of_length length')
      (witnessEncodable_of_length length) (inputs.mpr checked.inputs tx member)
      (checked.inputs other member') bytes
  rwa [List.map_id, List.map_id] at fixed

theorem coinbase_eq {coinbase other : CTransaction} {txin : CTxIn} (one : coinbase.vin = [txin])
    (stripped : other.withoutWitness = coinbase.withoutWitness) {txin' : CTxIn}
    (first : other.vin.head? = some txin') (witness : txin'.scriptWitness = txin.scriptWitness) :
    other = coinbase := by
  obtain ⟨version, vin, vout, nLockTime⟩ := coinbase
  obtain ⟨version', vin', vout', nLockTime'⟩ := other
  dsimp only at one first
  subst one
  obtain ⟨rfl, inputs, rfl, rfl⟩ := mk.inj stripped
  obtain ⟨input, rfl, rest⟩ := List.map_eq_singleton_iff.mp inputs
  obtain rfl : input = txin' := Option.some.inj first
  obtain ⟨prevout, scriptSig, nSequence, stack⟩ := input
  obtain ⟨prevout', scriptSig', nSequence', stack'⟩ := txin
  obtain ⟨rfl, rfl, rfl, -⟩ := CTxIn.mk.inj rest
  dsimp only at witness
  rw [witness]

theorem eq_of_commitment (rewitnessed : Rewitnessed sha256d block copy)
    (light : getBlockWeight block ≤ MAX_BLOCK_WEIGHT)
    (passed : checkWitnessCommitment sha256d block commitment = .ok ())
    (passed' : checkWitnessCommitment sha256d copy commitment = .ok ()) : copy = block := by
  obtain ⟨txin, first, stack, hash⟩ := checkWitnessCommitment_eq_ok passed
  obtain ⟨txin', first', stack', hash'⟩ := checkWitnessCommitment_eq_ok passed'
  have preimages := rewitnessed.apart.collisionFree ((blockWitnessMerkleRoot sha256d copy).data ++ reservedValue copy)
    (List.mem_append_right _ (List.mem_append_right _ (List.mem_singleton_self _)))
    ((blockWitnessMerkleRoot sha256d block).data ++ reservedValue block)
    (List.mem_append_left _ (List.mem_append_right _ (List.mem_singleton_self _)))
    (Uint256.ext (hash'.trans hash.symm))
  obtain ⟨roots, nonces⟩ := List.append_inj preimages (by rw [Uint256.size_eq, Uint256.size_eq])
  have tails := regulars_eq rewitnessed light (Uint256.ext roots)
  obtain ⟨-, checked, -, same⟩ := rewitnessed
  obtain ⟨coinbase, regulars, input, split, one⟩ := checked.coinbase
  obtain ⟨header, vtx⟩ := copy
  obtain ⟨header', vtx'⟩ := block
  obtain rfl : header = header' := same.header
  dsimp only at split
  subst split
  match vtx with
  | [] => cases first'
  | other :: others =>
    obtain rfl : others = regulars := tails
    have input_eq : input = txin := by
      rw [List.head?_cons, Option.bind_some, one] at first
      exact Option.some.inj first
    have witness : txin'.scriptWitness = input.scriptWitness := by
      rw [input_eq, stack, stack', nonces]
    rw [coinbase_eq one (List.cons.inj same.vtx).1 first' witness]

end Fixed

/-! ## The checks on a copy -/

section Copies

variable {env : AcceptEnv} {blocks : BlockMap} {pindexPrev : Option Uint256} {expected : Bool}

theorem harmless_checkNoWitness (block : CBlock) : Harmless (checkNoWitness block) :=
  harmless_blockCheck rfl

/-- The witness check of a copy blames its data, once the coinbase has an input. -/
theorem harmless_checkWitnessMalleation
    (input : (copy.vtx.head?.bind fun coinbase => coinbase.vin.head?) ≠ none) :
    Harmless (checkWitnessMalleation sha256d copy expected) := by
  unfold checkWitnessMalleation
  split
  · unfold checkWitnessCommitment
    split
    · next missing => exact absurd missing input
    · exact (harmless_blockCheck rfl).bind fun _ => harmless_blockCheck rfl
  · exact harmless_checkNoWitness copy

theorem harmless_checkMerkleRoot (block : CBlock) : Harmless (checkMerkleRoot sha256d block) :=
  (harmless_blockCheck rfl).bind fun _ => harmless_blockCheck rfl

theorem eq_of_malleation
    (rewitnessed : Rewitnessed sha256d block copy) (light : getBlockWeight block ≤ MAX_BLOCK_WEIGHT)
    (passed : checkWitnessMalleation sha256d block expected = .ok ())
    (passed' : checkWitnessMalleation sha256d copy expected = .ok ()) : copy = block := by
  unfold checkWitnessMalleation at passed passed'
  rw [rewitnessed.same.eq_of_blind witnessCommitmentOutput witnessCommitmentOutput_withoutWitnesses] at passed'
  cases expected with
  | false => exact eq_of_noWitness rewitnessed.same passed passed'
  | true =>
    cases found : witnessCommitmentOutput block with
    | none =>
      rw [found] at passed passed'
      exact eq_of_noWitness rewitnessed.same passed passed'
    | some commitment =>
      rw [found] at passed passed'
      exact eq_of_commitment rewitnessed light passed passed'

theorem harmless_contextualCheckBlock {params : Params}
    {context : BlockContext} (rewitnessed : Rewitnessed sha256d block copy)
    (passed : contextualCheckBlock sha256d params context block = .ok ()) :
    Harmless (contextualCheckBlock sha256d params context copy) := by
  unfold contextualCheckBlock at passed
  split at passed
  · cases passed
  rename_i cutoff found
  simp only [bind_eq_ok_iff, blockCheck_eq_ok_iff, decide_eq_true_eq] at passed
  obtain ⟨_, final, _, height, _, witness, light⟩ := passed
  have same := rewitnessed.same
  have found' : lockTimeCutoff params context copy = some cutoff := by
    rw [lockTimeCutoff, same.header]
    exact found
  have input : (copy.vtx.head?.bind fun coinbase => coinbase.vin.head?) ≠ none := by
    obtain ⟨coinbase, regulars, txin, split, one⟩ := rewitnessed.checked.coinbase
    have first := same.eq_of_blind (fun block =>
      (block.vtx.head?.bind fun coinbase => coinbase.vin.head?).isSome) fun block => by
        rw [coinbaseInput_withoutWitnesses, Option.isSome_map]
    rw [← Option.isSome_iff_ne_none, first]
    simp [split, one]
  rw [contextualCheckBlock, found']
  dsimp only
  have finals := same.eq_of_blind (fun block => block.vtx.all fun tx => isFinalTx tx context.nHeight cutoff)
    (all_isFinalTx_withoutWitnesses · _ _)
  rw [finals, final, same.eq_of_blind (checkCoinbaseHeight params context)
    (checkCoinbaseHeight_withoutWitnesses · _ _), height]
  refine (harmless_checkWitnessMalleation input).bind fun passed' => ?_
  rw [eq_of_malleation rewitnessed light witness passed']
  exact .inl (blockCheck_eq_ok_iff.mpr (decide_eq_true light))

/-- A copy is refused by the signet rule, or every check passes it or blames its data. -/
theorem harmless_checkArrival (apart : KeepsApart env.hashes.sha256d block copy)
    (header : copy.header = block.header) (amounts : AmountsFit copy)
    (passed : checkArrival env blocks block pindexPrev = .ok ())
    (solved : (env.params.signetBlocks && !signetSolved env copy) = false) :
    Harmless (checkArrival env blocks copy pindexPrev) := by
  rw [checkArrival, checkBlock_eq] at passed
  simp only [bind_eq_ok_iff] at passed
  obtain ⟨_, ⟨_, worked, _, _, _, root, body⟩, contextual⟩ := passed
  have checked := checkBlockBody_ok body
  rw [checkArrival, checkBlock_eq, header, worked, Bool.and_true, solved]
  change Harmless ((checkMerkleRoot env.hashes.sha256d copy >>= fun _ =>
    checkBlockBody env.hashes.sha256d copy) >>= fun _ =>
      contextualCheckBlock env.hashes.sha256d env.params (blockContext blocks pindexPrev) copy)
  refine Harmless.bind (Harmless.bind (harmless_checkMerkleRoot copy) fun root' => ?_) fun ok => ?_
  · have same := sameButWitness_of_roots apart header checked amounts root root'
    rw [same.eq_of_blind (checkBlockBody _) checkBlockBody_withoutWitnesses]
    exact .inl body
  · obtain ⟨_, root', _⟩ := bind_eq_ok_iff.mp ok
    have same := sameButWitness_of_roots apart header checked amounts root root'
    exact harmless_contextualCheckBlock ⟨apart, checked, amounts, same⟩ contextual

end Copies

end Sharecoin
