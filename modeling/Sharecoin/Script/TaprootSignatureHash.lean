import Sharecoin.Primitives.TransactionCodec
import Sharecoin.Script.SignatureHash

/-! The message of a taproot signature and what it commits to. The hash type and the spend type
stand in front of the parts they select, so equal messages are laid out alike and agree part
by part. -/

set_option autoImplicit false

namespace Sharecoin

open Lib

def SIGHASH_DEFAULT : UInt8 := 0
def SIGHASH_OUTPUT_MASK : UInt8 := 3
def SIGHASH_INPUT_MASK : UInt8 := 0x80
def WITNESS_V1_TAPROOT_SIZE : Nat := 32

/-! ## Precomputed hashes -/

/-- `PrecomputedTransactionData`, without the hashes of version 0 witness programs. -/
structure PrecomputedTransactionData where
  prevoutsSingleHash : Uint256 := .zero
  sequencesSingleHash : Uint256 := .zero
  outputsSingleHash : Uint256 := .zero
  spentAmountsSingleHash : Uint256 := .zero
  spentScriptsSingleHash : Uint256 := .zero
  bip341TaprootReady : Bool := false
  spentOutputs : List CTxOut := []
  spentOutputsReady : Bool := false

section Hashes

variable (sha256 : Bytes → Uint256)

def amountBytes (nValue : Int) : Bytes := leBytes 8 (nValue % 2 ^ 64).toNat

def getSpentAmountsSHA256 (outputsSpent : List CTxOut) : Uint256 :=
  sha256 ((outputsSpent.map (·.nValue)).flatMap amountBytes)

def getSpentScriptsSHA256 (outputsSpent : List CTxOut) : Uint256 :=
  sha256 ((outputsSpent.map (·.scriptPubKey)).flatMap serializeBytes)

def looksTaproot (txout : CTxOut) : Bool :=
  txout.scriptPubKey.length == 2 + WITNESS_V1_TAPROOT_SIZE && txout.scriptPubKey.head? == some OP_1

def PrecomputedTransactionData.init (txTo : CTransaction) (spentOutputs : List CTxOut) (force : Bool) :
    PrecomputedTransactionData :=
  let spentOutputsReady := !spentOutputs.isEmpty
  let usesTaproot (inpos : Nat) := spentOutputsReady && looksTaproot (spentOutputs.getD inpos {})
  let witnessed := (List.range txTo.vin.length).filter fun inpos =>
    !(txTo.vin.getD inpos {}).scriptWitness.isEmpty
  let usesBip143Segwit := force || witnessed.any fun inpos => !usesTaproot inpos
  let usesBip341Taproot := force || witnessed.any usesTaproot
  let shared := usesBip143Segwit || usesBip341Taproot
  let ready := usesBip341Taproot && spentOutputsReady
  { prevoutsSingleHash := if shared then getPrevoutsSHA256 txTo sha256 else .zero
    sequencesSingleHash := if shared then getSequencesSHA256 txTo sha256 else .zero
    outputsSingleHash := if shared then getOutputsSHA256 txTo sha256 else .zero
    spentAmountsSingleHash := if ready then getSpentAmountsSHA256 sha256 spentOutputs else .zero
    spentScriptsSingleHash := if ready then getSpentScriptsSHA256 sha256 spentOutputs else .zero
    bip341TaprootReady := ready
    spentOutputs
    spentOutputsReady }

/-! ## Message -/

/-- The part of `ScriptExecutionData` that is signed; `none` is a field not initialised. -/
structure ScriptExecutionData where
  tapleafHash : Option Uint256 := none
  codeseparatorPos : Option UInt32 := none
  annexHash : Option (Option Uint256) := none
  outputHash : Option Uint256 := none

def outputTypeOf (hashType : UInt8) : UInt8 :=
  if hashType = SIGHASH_DEFAULT then SIGHASH_ALL else hashType &&& SIGHASH_OUTPUT_MASK

def inputTypeOf (hashType : UInt8) : UInt8 := hashType &&& SIGHASH_INPUT_MASK

def validHashType (hashType : UInt8) : Bool :=
  hashType ≤ 0x03 || (hashType ≥ 0x81 && hashType ≤ 0x83)

variable (execdata : ScriptExecutionData) (txTo : CTransaction) (inPos : UInt32) (hashType : UInt8)
  (sigversion : SigVersion) (cache : PrecomputedTransactionData)

/-- The hash of the output at the position of the input, kept once it is computed. -/
def singleOutputHash : Option (Option Uint256) :=
  if outputTypeOf hashType = SIGHASH_SINGLE then
    (txTo.vout[inPos.toNat]?).map fun txout =>
      some (execdata.outputHash.getD (sha256 txout.serialize))
  else some none

def tapscriptExtension : Option Bytes :=
  match sigversion with
  | .tapscript => do
    let tapleafHash ← execdata.tapleafHash
    let codeseparatorPos ← execdata.codeseparatorPos
    some (tapleafHash.data ++ ([0] ++ leBytes 4 codeseparatorPos.toNat))
  | _ => some []

def spendTypeOf (annexPresent : Bool) : UInt8 :=
  let extFlag : UInt8 := if sigversion = .tapscript then 1 else 0
  (extFlag <<< 1) + if annexPresent then 1 else 0

def hashBytes (hash : Option Uint256) : Bytes := (hash.map (·.data)).getD []

/-- `HASHER_TAPSIGHASH`, the tag being the bytes of "TapSighash". -/
def tapSighashTag : Bytes :=
  let tag := sha256 [0x54, 0x61, 0x70, 0x53, 0x69, 0x67, 0x68, 0x61, 0x73, 0x68]
  tag.data ++ tag.data

/-- What is written, in the order of the source; which parts are there depends on the hash type
and on the two that have a presence of their own. -/
def schnorrLayout (txin : CTxIn) (annexHash outputHash : Option Uint256) (extension : Bytes) : Bytes :=
  let all := inputTypeOf hashType ≠ SIGHASH_ANYONECANPAY
  tapSighashTag sha256 ++ ([0, hashType] ++ (leBytes 4 txTo.version.toNat ++ (leBytes 4 txTo.nLockTime.toNat ++
    ((if all then cache.prevoutsSingleHash.data ++ (cache.spentAmountsSingleHash.data ++
      (cache.spentScriptsSingleHash.data ++ cache.sequencesSingleHash.data)) else []) ++
    ((if outputTypeOf hashType = SIGHASH_ALL then cache.outputsSingleHash.data else []) ++
    ([spendTypeOf sigversion annexHash.isSome] ++
    ((if all then leBytes 4 inPos.toNat else txin.prevout.serialize ++
      ((cache.spentOutputs.getD inPos.toNat {}).serialize ++ leBytes 4 txin.nSequence.toNat)) ++
    (hashBytes annexHash ++ (hashBytes outputHash ++ extension)))))))))

/-- The bytes `SignatureHashSchnorr` hashes, with the execution data it leaves; `none` where it
answers false or an assertion stops it. -/
def schnorrMessage : Option (Bytes × ScriptExecutionData) := do
  guard (sigversion = .taproot ∨ sigversion = .tapscript)
  let txin ← txTo.vin[inPos.toNat]?
  guard (cache.bip341TaprootReady && cache.spentOutputsReady)
  guard (validHashType hashType)
  let annexHash ← execdata.annexHash
  let outputHash ← singleOutputHash sha256 execdata txTo inPos hashType
  let extension ← tapscriptExtension execdata sigversion
  some (schnorrLayout sha256 txTo inPos hashType sigversion cache txin annexHash outputHash extension,
    { execdata with outputHash := outputHash.orElse fun _ => execdata.outputHash })

def signatureHashSchnorr : Option (Uint256 × ScriptExecutionData) :=
  (schnorrMessage sha256 execdata txTo inPos hashType sigversion cache).map fun (ss, execdata) =>
    (sha256 ss, execdata)

end Hashes

/-! ## Reading back -/

/-- What is written shows where it ends. -/
def Delimited {α : Type} (write : α → Bytes) (valid : α → Prop) : Prop :=
  ∀ ⦃value other : α⦄ ⦃rest rest' : Bytes⦄, valid value → valid other →
    write value ++ rest = write other ++ rest' → value = other ∧ rest = rest'

theorem Delimited.of_reads {α : Type} {write : α → Bytes} {valid : α → Prop} {reader : Reader α}
    (reads : ∀ value, valid value → Reads reader (write value) value) : Delimited write valid := by
  intro value other rest rest' fits fits' same
  have first := reads value fits rest
  rw [same, reads other fits' rest'] at first
  cases first
  exact ⟨rfl, rfl⟩

theorem Delimited.flatMap {α : Type} {write : α → Bytes} {valid : α → Prop} (delimited : Delimited write valid)
    (nonempty : ∀ value, write value ≠ []) {items others : List α} (fit : ∀ value ∈ items, valid value)
    (fit' : ∀ value ∈ others, valid value) (same : items.flatMap write = others.flatMap write) : items = others := by
  induction items generalizing others with
  | nil =>
    cases others with
    | nil => rfl
    | cons other others => exact absurd (List.append_eq_nil_iff.mp same.symm).1 (nonempty other)
  | cons value items ih =>
    cases others with
    | nil => exact absurd (List.append_eq_nil_iff.mp same).1 (nonempty value)
    | cons other others =>
      rw [List.forall_mem_cons] at fit fit'
      rw [List.flatMap_cons, List.flatMap_cons] at same
      obtain ⟨rfl, rest⟩ := delimited fit.1 fit'.1 same
      rw [ih fit.2 fit'.2 rest]

/-- A length of any size, in whichever width it comes. -/
def readSize : Reader Nat := do
  let chSize ← readLe 1
  if chSize < 253 then pure chSize
  else if chSize = 253 then readLe 2
  else if chSize = 254 then readLe 4
  else readLe 8

theorem reads_readSize {size : Nat} (fits : size < 2 ^ 64) : Reads readSize (writeCompactSize size) size := by
  unfold writeCompactSize
  split
  · next small =>
      refine Reads.andThen (reads_readLe (by omega)) ?_
      rw [if_pos small]
      exact Reads.pure size
  split
  · exact Reads.bind (reads_mark 253) (reads_readLe (by omega))
  · split
    · exact Reads.bind (reads_mark 254) (reads_readLe (by omega))
    · exact Reads.bind (reads_mark 255) (reads_readLe (by omega))

theorem delimited_serializeBytes : Delimited serializeBytes (·.length < 2 ^ 64) :=
  .of_reads fun bytes fits => Reads.bind (reads_readSize fits) (reads_readBytes bytes)

theorem delimited_outpoint : Delimited COutPoint.serialize fun _ => True :=
  .of_reads fun outpoint _ => outpoint.reads_read

theorem delimited_sequenceBytes : Delimited sequenceBytes fun _ => True :=
  .of_reads fun nSequence _ => reads_readUInt32 nSequence

theorem delimited_amountBytes : Delimited amountBytes fun value => -2 ^ 63 ≤ value ∧ value < 2 ^ 63 :=
  .of_reads fun _ fits => reads_readInt64 fits.1 fits.2

/-- An amount of an `int64_t` and a length of a `size_t`. -/
def CTxOut.Sized (txout : CTxOut) : Prop :=
  (-2 ^ 63 ≤ txout.nValue ∧ txout.nValue < 2 ^ 63) ∧ txout.scriptPubKey.length < 2 ^ 64

theorem delimited_serialize : Delimited CTxOut.serialize CTxOut.Sized := by
  intro txout other rest rest' fits fits' same
  rw [CTxOut.serialize, CTxOut.serialize, List.append_assoc, List.append_assoc] at same
  obtain ⟨value, tail⟩ := delimited_amountBytes fits.1 fits'.1 same
  obtain ⟨script, behind⟩ := delimited_serializeBytes fits.2 fits'.2 tail
  cases txout
  cases other
  exact ⟨by rw [CTxOut.mk.injEq]; exact ⟨value, script⟩, behind⟩

theorem uint32_of_leBytes {value other : UInt32} (same : leBytes 4 value.toNat = leBytes 4 other.toNat) :
    value = other :=
  (reads_readUInt32 value).unique (reads_readUInt32 other) same

theorem hashBytes_append {hash other : Option Uint256} (present : hash.isSome = other.isSome) {rest rest' : Bytes}
    (same : hashBytes hash ++ rest = hashBytes other ++ rest') : hash = other ∧ rest = rest' := by
  cases hash with
  | none =>
    cases other with
    | none => exact ⟨rfl, same⟩
    | some other => cases present
  | some hash =>
    cases other with
    | none => cases present
    | some other =>
      obtain ⟨data, behind⟩ := List.append_inj same (hash.size_eq.trans other.size_eq.symm)
      exact ⟨congrArg some (Uint256.ext data), behind⟩

section Layout

variable {sha256 : Bytes → Uint256} {txTo txTo' : CTransaction} {inPos inPos' : UInt32}
  {hashType hashType' : UInt8} {sigversion sigversion' : SigVersion}
  {cache cache' : PrecomputedTransactionData} {txin txin' : CTxIn}
  {annexHash annexHash' outputHash outputHash' : Option Uint256} {extension extension' : Bytes}

theorem spendTypeOf_inj {annex annex' : Bool}
    (taproot : sigversion = .taproot ∨ sigversion = .tapscript)
    (taproot' : sigversion' = .taproot ∨ sigversion' = .tapscript)
    (same : spendTypeOf sigversion annex = spendTypeOf sigversion' annex') :
    sigversion = sigversion' ∧ annex = annex' := by
  revert same
  rcases taproot with rfl | rfl <;> rcases taproot' with rfl | rfl <;> cases annex <;> cases annex' <;>
    decide

private theorem inputPart_append {rest rest' : Bytes} {all : Prop} [Decidable all]
    {spent spent' : CTxOut} (sized : spent.Sized) (sized' : spent'.Sized)
    (same : (if all then leBytes 4 inPos.toNat else txin.prevout.serialize ++
          (spent.serialize ++ leBytes 4 txin.nSequence.toNat)) ++ rest =
        (if all then leBytes 4 inPos'.toNat else txin'.prevout.serialize ++
          (spent'.serialize ++ leBytes 4 txin'.nSequence.toNat)) ++ rest') :
    (all → inPos = inPos') ∧
      (¬ all → txin.prevout = txin'.prevout ∧ txin.nSequence = txin'.nSequence ∧ spent = spent') ∧
      rest = rest' := by
  by_cases every : all
  · rw [if_pos every, if_pos every] at same
    obtain ⟨position, behind⟩ := List.append_inj same (by simp)
    exact ⟨fun _ => uint32_of_leBytes position, absurd every, behind⟩
  rw [if_neg every, if_neg every] at same
  simp only [List.append_assoc] at same
  obtain ⟨prevout, afterPrevout⟩ := delimited_outpoint trivial trivial same
  obtain ⟨output, afterOutput⟩ := delimited_serialize sized sized' afterPrevout
  obtain ⟨nSequence, behind⟩ := List.append_inj afterOutput (by simp)
  exact ⟨(absurd · every), fun _ => ⟨prevout, uint32_of_leBytes nSequence, output⟩, behind⟩

theorem schnorrLayout_inj (taproot : sigversion = .taproot ∨ sigversion = .tapscript)
    (taproot' : sigversion' = .taproot ∨ sigversion' = .tapscript)
    (single : outputHash.isSome = decide (outputTypeOf hashType = SIGHASH_SINGLE))
    (single' : outputHash'.isSome = decide (outputTypeOf hashType' = SIGHASH_SINGLE))
    (sized : (cache.spentOutputs.getD inPos.toNat {}).Sized)
    (sized' : (cache'.spentOutputs.getD inPos'.toNat {}).Sized)
    (same : schnorrLayout sha256 txTo inPos hashType sigversion cache txin annexHash outputHash extension =
      schnorrLayout sha256 txTo' inPos' hashType' sigversion' cache' txin' annexHash' outputHash' extension') :
    (hashType = hashType' ∧ txTo.version = txTo'.version ∧ txTo.nLockTime = txTo'.nLockTime ∧
      sigversion = sigversion' ∧ annexHash = annexHash' ∧ outputHash = outputHash' ∧
      extension = extension') ∧
    (inputTypeOf hashType ≠ SIGHASH_ANYONECANPAY →
      inPos = inPos' ∧ cache.prevoutsSingleHash = cache'.prevoutsSingleHash ∧
        cache.spentAmountsSingleHash = cache'.spentAmountsSingleHash ∧
        cache.spentScriptsSingleHash = cache'.spentScriptsSingleHash ∧
        cache.sequencesSingleHash = cache'.sequencesSingleHash) ∧
    (inputTypeOf hashType = SIGHASH_ANYONECANPAY → txin.prevout = txin'.prevout ∧ txin.nSequence = txin'.nSequence ∧
        cache.spentOutputs.getD inPos.toNat {} = cache'.spentOutputs.getD inPos'.toNat {}) ∧
    (outputTypeOf hashType = SIGHASH_ALL → cache.outputsSingleHash = cache'.outputsSingleHash) := by
  have afterTag := List.append_cancel_left same
  obtain ⟨head, afterType⟩ := List.append_inj afterTag rfl
  obtain rfl : hashType = hashType' := (List.cons.inj (List.cons.inj head).2).1
  obtain ⟨version, afterVersion⟩ := List.append_inj afterType (by simp)
  obtain ⟨lockTime, afterLockTime⟩ := List.append_inj afterVersion (by simp)
  obtain ⟨hashes, afterHashes⟩ := List.append_inj afterLockTime (by split <;> simp [Uint256.size_eq])
  obtain ⟨outputs, afterOutputs⟩ := List.append_inj afterHashes (by split <;> simp [Uint256.size_eq])
  obtain ⟨spend, afterSpend⟩ := List.append_inj afterOutputs rfl
  obtain ⟨versions, annexes⟩ := spendTypeOf_inj taproot taproot' (List.cons.inj spend).1
  obtain ⟨position, input, afterInput⟩ := inputPart_append sized sized' afterSpend
  obtain ⟨annex, afterAnnex⟩ := hashBytes_append annexes afterInput
  obtain ⟨output, rest⟩ := hashBytes_append (single.trans single'.symm) afterAnnex
  refine ⟨⟨rfl, uint32_of_leBytes version, uint32_of_leBytes lockTime, versions, annex, output, rest⟩,
    ?_, fun pays => input (not_not.mpr pays), ?_⟩
  · intro every
    rw [if_pos every, if_pos every] at hashes
    obtain ⟨prevouts, afterPrevouts⟩ := List.append_inj hashes (by simp [Uint256.size_eq])
    obtain ⟨amounts, afterAmounts⟩ := List.append_inj afterPrevouts (by simp [Uint256.size_eq])
    obtain ⟨scripts, sequences⟩ := List.append_inj afterAmounts (by simp [Uint256.size_eq])
    exact ⟨position every, Uint256.ext prevouts, Uint256.ext amounts, Uint256.ext scripts, Uint256.ext sequences⟩
  · intro every
    rw [if_pos every, if_pos every] at outputs
    exact Uint256.ext outputs

theorem schnorrMessage_eq_some {execdata execdata' : ScriptExecutionData} {ss : Bytes}
    (made : schnorrMessage sha256 execdata txTo inPos hashType sigversion cache = some (ss, execdata')) :
    ∃ txin annexHash outputHash extension, txTo.vin[inPos.toNat]? = some txin ∧
      cache.bip341TaprootReady = true ∧ execdata.annexHash = some annexHash ∧
      singleOutputHash sha256 execdata txTo inPos hashType = some outputHash ∧
      tapscriptExtension execdata sigversion = some extension ∧
      ss = schnorrLayout sha256 txTo inPos hashType sigversion cache txin annexHash outputHash extension := by
  unfold schnorrMessage at made
  obtain ⟨-, -, made⟩ := Option.bind_eq_some_iff.mp made
  obtain ⟨txin, input, made⟩ := Option.bind_eq_some_iff.mp made
  obtain ⟨_, ready, made⟩ := Option.bind_eq_some_iff.mp made
  obtain ⟨-, -, made⟩ := Option.bind_eq_some_iff.mp made
  obtain ⟨annexHash, annex, made⟩ := Option.bind_eq_some_iff.mp made
  obtain ⟨outputHash, output, made⟩ := Option.bind_eq_some_iff.mp made
  obtain ⟨extension, extended, made⟩ := Option.bind_eq_some_iff.mp made
  cases made
  have ready : (cache.bip341TaprootReady && cache.spentOutputsReady) = true := by
    by_contra unready
    simp [guard, unready] at ready
  exact ⟨txin, annexHash, outputHash, extension, input, (Bool.and_eq_true_iff.mp ready).1, annex, output, extended, rfl⟩

theorem PrecomputedTransactionData.init_ready {spentOutputs : List CTxOut} {force : Bool}
    (ready : (init sha256 txTo spentOutputs force).bip341TaprootReady = true) :
    init sha256 txTo spentOutputs force =
      { prevoutsSingleHash := getPrevoutsSHA256 txTo sha256
        sequencesSingleHash := getSequencesSHA256 txTo sha256
        outputsSingleHash := getOutputsSHA256 txTo sha256
        spentAmountsSingleHash := getSpentAmountsSHA256 sha256 spentOutputs
        spentScriptsSingleHash := getSpentScriptsSHA256 sha256 spentOutputs
        bip341TaprootReady := true
        spentOutputs
        spentOutputsReady := true } := by
  obtain ⟨uses, present⟩ := Bool.and_eq_true_iff.mp ready
  unfold init
  dsimp only
  rw [uses, present, Bool.or_true, Bool.and_self]
  rfl

end Layout

/-! ## Contexts -/

/-- What a taproot signature is made over; a leaf makes it a script path spend. -/
structure TaprootContext where
  tx : CTransaction
  inPos : UInt32
  spentOutputs : List CTxOut
  hashType : UInt8
  annex : Option Bytes
  leaf : Option (Uint256 × UInt32)
  spent : spentOutputs.length = tx.vin.length
  sized : ∀ txout ∈ spentOutputs ++ tx.vout, txout.Sized
  annexSize : ∀ bytes ∈ annex, bytes.length < 2 ^ 64

namespace TaprootContext

variable (sha256 : Bytes → Uint256) (context : TaprootContext)

def sigversion : SigVersion := if context.leaf.isSome then .tapscript else .taproot

/-- The execution data of the input, before or after a signature was checked that commits to
one output. -/
def execdata (stored : Bool) : ScriptExecutionData where
  tapleafHash := context.leaf.map (·.1)
  codeseparatorPos := context.leaf.map (·.2)
  annexHash := some (context.annex.map fun annex => sha256 (serializeBytes annex))
  outputHash :=
    if stored then (context.tx.vout[context.inPos.toNat]?).map fun txout => sha256 txout.serialize
    else none

def message (stored force : Bool) : Option (Bytes × ScriptExecutionData) :=
  schnorrMessage sha256 (context.execdata sha256 stored) context.tx context.inPos context.hashType
    context.sigversion (.init sha256 context.tx context.spentOutputs force)

def signatureHash (stored force : Bool) : Option Uint256 :=
  (signatureHashSchnorr sha256 (context.execdata sha256 stored) context.tx context.inPos
    context.hashType context.sigversion (.init sha256 context.tx context.spentOutputs force)).map (·.1)

/-- Everything hashed on the way. -/
def hashed (stored force : Bool) : List Bytes :=
  [(context.tx.vin.map (·.prevout)).flatMap COutPoint.serialize,
    (context.tx.vin.map (·.nSequence)).flatMap sequenceBytes,
    context.tx.vout.flatMap CTxOut.serialize,
    (context.spentOutputs.map (·.nValue)).flatMap amountBytes,
    (context.spentOutputs.map (·.scriptPubKey)).flatMap serializeBytes] ++
  (context.annex.map serializeBytes).toList ++
  ((context.tx.vout[context.inPos.toNat]?).map CTxOut.serialize).toList ++
  ((context.message sha256 stored force).map (·.1)).toList

/-- Agreement on what the hash type says is signed. -/
structure Commits (context other : TaprootContext) : Prop where
  sigversion : context.sigversion = other.sigversion
  hashType : context.hashType = other.hashType
  version : context.tx.version = other.tx.version
  nLockTime : context.tx.nLockTime = other.tx.nLockTime
  annex : context.annex = other.annex
  leaf : context.leaf = other.leaf
  inputs : inputTypeOf context.hashType ≠ SIGHASH_ANYONECANPAY → context.inPos = other.inPos ∧
      context.tx.vin.map (·.prevout) = other.tx.vin.map (·.prevout) ∧
      context.tx.vin.map (·.nSequence) = other.tx.vin.map (·.nSequence) ∧
      context.spentOutputs.map (·.nValue) = other.spentOutputs.map (·.nValue) ∧
      context.spentOutputs.map (·.scriptPubKey) = other.spentOutputs.map (·.scriptPubKey)
  input : inputTypeOf context.hashType = SIGHASH_ANYONECANPAY →
    (context.tx.vin[context.inPos.toNat]?).map (fun txin => (txin.prevout, txin.nSequence)) =
        (other.tx.vin[other.inPos.toNat]?).map (fun txin => (txin.prevout, txin.nSequence)) ∧
      context.spentOutputs[context.inPos.toNat]? = other.spentOutputs[other.inPos.toNat]?
  outputs : outputTypeOf context.hashType = SIGHASH_ALL → context.tx.vout = other.tx.vout
  output : outputTypeOf context.hashType = SIGHASH_SINGLE →
    context.tx.vout[context.inPos.toNat]? = other.tx.vout[other.inPos.toNat]?

end TaprootContext

/-! ## Commitment -/

namespace TaprootContext

variable {sha256 : Bytes → Uint256} {context other : TaprootContext} {stored stored' force force' : Bool}
  {txin : CTxIn}

theorem sigversion_cases (context : TaprootContext) :
    context.sigversion = .taproot ∨ context.sigversion = .tapscript := by
  unfold sigversion
  split
  · exact .inr rfl
  · exact .inl rfl

theorem spentOutputs_eq_some (context : TaprootContext) (input : context.tx.vin[context.inPos.toNat]? = some txin) :
    context.spentOutputs[context.inPos.toNat]? = some (context.spentOutputs.getD context.inPos.toNat {}) := by
  have inside := (List.getElem?_eq_some_iff.mp input).1
  rw [← context.spent] at inside
  rw [List.getD_eq_getElem _ _ inside, List.getElem?_eq_getElem inside]

theorem sized_spentOutput (context : TaprootContext) (input : context.tx.vin[context.inPos.toNat]? = some txin) :
    (context.spentOutputs.getD context.inPos.toNat {}).Sized :=
  context.sized _ (List.mem_append_left _ (List.mem_of_getElem? (context.spentOutputs_eq_some input)))

theorem singleOutputHash_execdata {outputHash : Option Uint256}
    (single : singleOutputHash sha256 (context.execdata sha256 stored) context.tx context.inPos
      context.hashType = some outputHash) :
    outputHash.isSome = decide (outputTypeOf context.hashType = SIGHASH_SINGLE) ∧
      (outputTypeOf context.hashType = SIGHASH_SINGLE →
        outputHash = (context.tx.vout[context.inPos.toNat]?).map (sha256 ·.serialize)) := by
  unfold singleOutputHash at single
  split at single
  · next one =>
      obtain ⟨txout, found, rfl⟩ := Option.map_eq_some_iff.mp single
      refine ⟨(decide_eq_true one).symm, fun _ => ?_⟩
      rw [found, Option.map_some, execdata]
      cases stored with
      | false => rfl
      | true =>
        dsimp only
        rw [if_pos rfl, found]
        rfl
  · next several =>
      cases single
      exact ⟨(decide_eq_false several).symm, (absurd · several)⟩

theorem leaf_of_extension {extension : Bytes}
    (extended : tapscriptExtension (context.execdata sha256 stored) context.sigversion = some extension)
    (extended' : tapscriptExtension (other.execdata sha256 stored') other.sigversion = some extension)
    (same : context.sigversion = other.sigversion) : context.leaf = other.leaf := by
  unfold sigversion execdata at *
  cases leaf : context.leaf with
  | none =>
    cases leaf' : other.leaf with
    | none => rfl
    | some _ => simp [leaf, leaf'] at same
  | some pair =>
    cases leaf' : other.leaf with
    | none => simp [leaf, leaf'] at same
    | some pair' =>
      rw [leaf] at extended
      rw [leaf', ← extended] at extended'
      obtain ⟨hash, behind⟩ := List.append_inj (Option.some.inj extended') (pair'.1.size_eq.trans pair.1.size_eq.symm)
      have position := uint32_of_leBytes (List.append_cancel_left behind)
      rw [Prod.ext (Uint256.ext hash.symm) position.symm]

theorem message_of_signatureHash {hash : Uint256} (signed : context.signatureHash sha256 stored force = some hash) :
    ∃ made, context.message sha256 stored force = some made ∧ sha256 made.1 = hash := by
  obtain ⟨_, answered, rfl⟩ := Option.map_eq_some_iff.mp signed
  obtain ⟨made, message, rfl⟩ := Option.map_eq_some_iff.mp answered
  exact ⟨made, message, rfl⟩

/-- Two contexts with one hash agree on everything the hash type says is signed, unless two
different messages hashed on the way collide. -/
theorem commits_of_signatureHash {hash : Uint256} (injective : ∀ first ∈ context.hashed sha256 stored force,
      ∀ second ∈ other.hashed sha256 stored' force', sha256 first = sha256 second → first = second)
    (signed : context.signatureHash sha256 stored force = some hash)
    (signed' : other.signatureHash sha256 stored' force' = some hash) : Commits context other := by
  obtain ⟨made, message, rfl⟩ := message_of_signatureHash signed
  obtain ⟨made', message', same⟩ := message_of_signatureHash signed'
  have layouts := injective made.1 (by simp [hashed, message]) made'.1 (by simp [hashed, message']) same.symm
  obtain ⟨txin, annexHash, outputHash, extension, input, ready, annex, single, extended, written⟩ :=
    schnorrMessage_eq_some message
  obtain ⟨txin', annexHash', outputHash', extension', input', ready', annex', single', extended', written'⟩ :=
    schnorrMessage_eq_some message'
  cases annex
  cases annex'
  obtain ⟨isSingle, output⟩ := singleOutputHash_execdata single
  obtain ⟨isSingle', output'⟩ := singleOutputHash_execdata single'
  rw [PrecomputedTransactionData.init_ready ready] at written
  rw [PrecomputedTransactionData.init_ready ready'] at written'
  rw [written, written'] at layouts
  obtain ⟨⟨hashTypes, version, nLockTime, versions, annexes, outputHashes, extensions⟩, inputs, own,
    outputs⟩ := schnorrLayout_inj context.sigversion_cases other.sigversion_cases isSingle isSingle'
      (context.sized_spentOutput input) (other.sized_spentOutput input') layouts
  obtain ⟨spentSized, outSized⟩ := List.forall_mem_append.mp context.sized
  obtain ⟨spentSized', outSized'⟩ := List.forall_mem_append.mp other.sized
  constructor
  case sigversion => exact versions
  case hashType => exact hashTypes
  case version => exact version
  case nLockTime => exact nLockTime
  case leaf =>
    rw [← extensions] at extended'
    exact leaf_of_extension extended extended' versions
  case annex =>
    cases present : context.annex with
    | none =>
      rw [present] at annexes
      exact (Option.map_eq_none_iff.mp annexes.symm).symm
    | some bytes =>
      rw [present] at annexes
      obtain ⟨bytes', present', hashed'⟩ := Option.map_eq_some_iff.mp annexes.symm
      have written := injective (serializeBytes bytes) (by simp [hashed, present]) (serializeBytes bytes')
        (by simp [hashed, present']) hashed'.symm
      have fits := context.annexSize bytes present
      have fits' := other.annexSize bytes' present'
      rw [present', (delimited_serializeBytes fits fits' (congrArg (· ++ []) written)).1]
  case inputs =>
    intro every
    obtain ⟨position, prevouts, amounts, scripts, sequences⟩ := inputs every
    refine ⟨position, ?_, ?_, ?_, ?_⟩
    · exact delimited_outpoint.flatMap (by simp [COutPoint.serialize, leBytes]) (by simp) (by simp)
        (injective _ (by simp [hashed]) _ (by simp [hashed]) prevouts)
    · exact delimited_sequenceBytes.flatMap (by simp [sequenceBytes, leBytes]) (by simp) (by simp)
        (injective _ (by simp [hashed]) _ (by simp [hashed]) sequences)
    · refine delimited_amountBytes.flatMap (by simp [amountBytes, leBytes]) ?_ ?_
        (injective _ (by simp [hashed]) _ (by simp [hashed]) amounts)
      · simpa using fun txout member => (spentSized txout member).1
      · simpa using fun txout member => (spentSized' txout member).1
    · refine delimited_serializeBytes.flatMap (fun bytes => List.ne_nil_of_length_pos (serializeBytes_pos bytes)) ?_ ?_
        (injective _ (by simp [hashed]) _ (by simp [hashed]) scripts)
      · simpa using fun txout member => (spentSized txout member).2
      · simpa using fun txout member => (spentSized' txout member).2
  case input =>
    intro pays
    obtain ⟨prevout, nSequence, spent⟩ := own pays
    rw [input, input', context.spentOutputs_eq_some input, other.spentOutputs_eq_some input']
    exact ⟨by rw [Option.map_some, Option.map_some, prevout, nSequence], congrArg some spent⟩
  case outputs =>
    intro every
    exact delimited_serialize.flatMap (by simp [CTxOut.serialize, leBytes]) outSized outSized'
      (injective _ (by simp [hashed]) _ (by simp [hashed]) (outputs every))
  case output =>
    intro one
    rw [output one, output' (hashTypes ▸ one)] at outputHashes
    cases found : context.tx.vout[context.inPos.toNat]? with
    | none =>
      rw [found] at outputHashes
      exact (Option.map_eq_none_iff.mp outputHashes.symm).symm
    | some txout =>
      rw [found] at outputHashes
      obtain ⟨txout', found', hashed'⟩ := Option.map_eq_some_iff.mp outputHashes.symm
      have written := injective txout.serialize (by simp [hashed, found]) txout'.serialize
        (by simp [hashed, found']) hashed'.symm
      have sized := outSized txout (List.mem_of_getElem? found)
      have sized' := outSized' txout' (List.mem_of_getElem? found')
      rw [found', (delimited_serialize sized sized' (congrArg (· ++ []) written)).1]

theorem sized_of_zero (outputs : Nat) :
    ∀ txout ∈ [{ nValue := 0 }] ++ List.replicate outputs { nValue := 0 }, CTxOut.Sized txout := by
  simp [CTxOut.Sized]

/-- A transaction with one input, signed with `SIGHASH_ANYONECANPAY` and `SIGHASH_NONE`. -/
def oneInput (outputs : Nat) : TaprootContext where
  tx := { vin := [{}], vout := List.replicate outputs { nValue := 0 } }
  inPos := 0
  spentOutputs := [{ nValue := 0 }]
  hashType := 0x82
  annex := none
  leaf := none
  spent := rfl
  sized := sized_of_zero outputs
  annexSize := nofun

/-- Outputs are not signed, so adding one does not change the hash. -/
theorem commits_without_outputs : Commits (oneInput 0) (oneInput 1) := by
  have injective : ∀ first ∈ (oneInput 0).hashed Sha256.digest false true,
      ∀ second ∈ (oneInput 1).hashed Sha256.digest false true,
        Sha256.digest first = Sha256.digest second → first = second := by
    decide +kernel
  have same : (oneInput 1).signatureHash Sha256.digest false true =
      (oneInput 0).signatureHash Sha256.digest false true := by decide +kernel
  have known : ((oneInput 0).signatureHash Sha256.digest false true).isSome = true := by decide +kernel
  obtain ⟨hash, signed⟩ := Option.isSome_iff_exists.mp known
  exact commits_of_signatureHash injective signed (same.trans signed)

end TaprootContext

end Sharecoin
