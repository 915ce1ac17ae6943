import Mathlib.Data.List.GetD
import Sharecoin.Crypto.Sha256
import Sharecoin.Script.FindAndDelete

/-! The message signed before taproot. The legacy message is written straight from the
transaction by a serializer; the original algorithm changed a copy of the transaction and
serialized that. Both write the same bytes. -/

set_option autoImplicit false

namespace Sharecoin

open Lib

inductive SigVersion where
  | base
  | witnessV0
  | taproot
  | tapscript
deriving DecidableEq

def SIGHASH_ALL : UInt8 := 1
def SIGHASH_NONE : UInt8 := 2
def SIGHASH_SINGLE : UInt8 := 3
def SIGHASH_ANYONECANPAY : UInt8 := 0x80

/-! ## Modes -/

/-- What the serializer reads from a hash type. -/
structure HashMode where
  fAnyoneCanPay : Bool
  fHashSingle : Bool
  fHashNone : Bool
  exclusive : fHashSingle = true → fHashNone = false
deriving DecidableEq

/-- The hash type is the bit pattern of an `int32_t`. -/
def hashMode (nHashType : UInt32) : HashMode where
  fAnyoneCanPay := nHashType &&& SIGHASH_ANYONECANPAY.toUInt32 != 0
  fHashSingle := nHashType &&& 0x1f == SIGHASH_SINGLE.toUInt32
  fHashNone := nHashType &&& 0x1f == SIGHASH_NONE.toUInt32
  exclusive := by
    intro single
    rw [beq_iff_eq.mp single]
    rfl

/-! ## Serialization -/

section Serializer

variable (txTo : CTransaction) (scriptCode : CScript) (nIn : Nat) (mode : HashMode)

def serializeInput (nInput : Nat) : Bytes :=
  let nInput := if mode.fAnyoneCanPay then nIn else nInput
  let txin := txTo.vin.getD nInput {}
  txin.prevout.serialize ++ (if nInput ≠ nIn then serializeBytes [] else scriptCode.serializeScriptCode) ++
    (if nInput ≠ nIn ∧ (mode.fHashSingle || mode.fHashNone) then leBytes 4 0
      else leBytes 4 txin.nSequence.toNat)

def serializeOutput (nOutput : Nat) : Bytes :=
  if mode.fHashSingle ∧ nOutput ≠ nIn then CTxOut.serialize {}
  else (txTo.vout.getD nOutput {}).serialize

def serializeForSignature : Bytes :=
  let nInputs := if mode.fAnyoneCanPay then 1 else txTo.vin.length
  let nOutputs := if mode.fHashNone then 0 else if mode.fHashSingle then nIn + 1 else txTo.vout.length
  leBytes 4 txTo.version.toNat ++
    (writeCompactSize nInputs ++ (List.range nInputs).flatMap (serializeInput txTo scriptCode nIn mode)) ++
    (writeCompactSize nOutputs ++ (List.range nOutputs).flatMap (serializeOutput txTo nIn mode)) ++
    leBytes 4 txTo.nLockTime.toNat

variable (sha256 : Bytes → Uint256)

def sequenceBytes (nSequence : UInt32) : Bytes := leBytes 4 nSequence.toNat

def getPrevoutsSHA256 : Uint256 := sha256 ((txTo.vin.map (·.prevout)).flatMap COutPoint.serialize)

def getSequencesSHA256 : Uint256 := sha256 ((txTo.vin.map (·.nSequence)).flatMap sequenceBytes)

def getOutputsSHA256 : Uint256 := sha256 (txTo.vout.flatMap CTxOut.serialize)

def doubleSHA256 (message : Bytes) : Uint256 := sha256 (sha256 message).data

def serializeWitnessV0 (amount : Int) : Bytes :=
  let all := !mode.fHashSingle && !mode.fHashNone
  let hashPrevouts := if mode.fAnyoneCanPay then .zero else sha256 (getPrevoutsSHA256 txTo sha256).data
  let hashSequence := if !mode.fAnyoneCanPay && all then sha256 (getSequencesSHA256 txTo sha256).data else .zero
  let hashOutputs :=
    if all then sha256 (getOutputsSHA256 txTo sha256).data
    else if mode.fHashSingle ∧ nIn < txTo.vout.length then
      doubleSHA256 sha256 (txTo.vout.getD nIn {}).serialize
    else .zero
  let txin := txTo.vin.getD nIn {}
  leBytes 4 txTo.version.toNat ++ hashPrevouts.data ++ hashSequence.data ++
    txin.prevout.serialize ++ serializeBytes scriptCode ++ leBytes 8 (amount % 2 ^ 64).toNat ++
    leBytes 4 txin.nSequence.toNat ++ hashOutputs.data ++ leBytes 4 txTo.nLockTime.toNat

end Serializer

/-! ## Signature hash -/

def HashMode.cacheIndex (mode : HashMode) : Nat :=
  3 * mode.fAnyoneCanPay.toNat + 2 * mode.fHashSingle.toNat + mode.fHashNone.toNat

theorem HashMode.cacheIndex_injective : Function.Injective HashMode.cacheIndex := by
  rintro ⟨pay, single, none, exclusive⟩ ⟨pay', single', none', exclusive'⟩ same
  cases pay <;> cases single <;> cases none <;> cases pay' <;> cases single' <;> cases none' <;>
    simp_all [HashMode.cacheIndex]

/-- For each mode a script code and what was written for it before the hash type. -/
abbrev SigHashCache := Nat → Option (CScript × Bytes)

def SigHashCache.load (cache : SigHashCache) (nHashType : UInt32) (scriptCode : CScript) : Option Bytes :=
  match cache (hashMode nHashType).cacheIndex with
  | some (script, writer) => if scriptCode = script then some writer else none
  | none => none

def SigHashCache.store (cache : SigHashCache) (nHashType : UInt32) (scriptCode : CScript)
    (writer : Bytes) : SigHashCache :=
  Function.update cache (hashMode nHashType).cacheIndex (some (scriptCode, writer))

section SignatureHash

variable (sha256 : Bytes → Uint256) (txTo : CTransaction) (nIn : Nat) (amount : Int) (sigversion : SigVersion)

/-- What is written before the hash type. -/
def signedPart (scriptCode : CScript) (mode : HashMode) : Bytes :=
  if sigversion = .witnessV0 then serializeWitnessV0 txTo scriptCode nIn mode sha256 amount
  else serializeForSignature txTo scriptCode nIn mode

/-- The bytes `SignatureHash` hashes, `none` where it answers one without hashing, and the
cache it leaves. -/
def signatureMessage (scriptCode : CScript) (nHashType : UInt32)
    (sighashCache : Option SigHashCache) : Option Bytes × Option SigHashCache :=
  if sigversion ≠ .witnessV0 ∧ (hashMode nHashType).fHashSingle ∧ txTo.vout.length ≤ nIn then
    (none, sighashCache)
  else
    match sighashCache.bind (·.load nHashType scriptCode) with
    | some ss => (some (ss ++ leBytes 4 nHashType.toNat), sighashCache)
    | none =>
      let ss := signedPart sha256 txTo nIn amount sigversion scriptCode (hashMode nHashType)
      (some (ss ++ leBytes 4 nHashType.toNat), sighashCache.map (·.store nHashType scriptCode ss))

def hashOrOne (message : Option Bytes) : Uint256 :=
  match message with
  | none => .ofNat 1
  | some message => doubleSHA256 sha256 message

def signatureHash (scriptCode : CScript) (nHashType : UInt32) (sighashCache : Option SigHashCache) : Uint256 :=
  hashOrOne sha256 (signatureMessage sha256 txTo nIn amount sigversion scriptCode nHashType sighashCache).1

/-- The caches that calls for one input of one transaction leave, starting with an empty one. -/
inductive CacheReached : Option SigHashCache → Prop where
  | absent : CacheReached none
  | empty : CacheReached (some fun _ => none)
  | call {sighashCache : Option SigHashCache} (scriptCode : CScript) (nHashType : UInt32) :
      CacheReached sighashCache →
      CacheReached (signatureMessage sha256 txTo nIn amount sigversion scriptCode nHashType sighashCache).2

end SignatureHash

/-! ## The original algorithm -/

section Original

variable (scriptCode : CScript) (txTo : CTransaction) (nIn : Nat) (nHashType : UInt32)

def blankScripts : List CTxIn :=
  (txTo.vin.map fun txin => { txin with scriptSig := [] }).modify nIn fun txin =>
    { txin with scriptSig := (scriptCode.findAndDelete [OP_CODESEPARATOR]).2 }

def zeroOtherSequences (vin : List CTxIn) : List CTxIn :=
  vin.mapIdx fun i txin => if i ≠ nIn then { txin with nSequence := 0 } else txin

/-- The inputs before `SIGHASH_ANYONECANPAY` is looked at. -/
def changedInputs (mode : HashMode) : List CTxIn :=
  if mode.fHashSingle || mode.fHashNone then
    zeroOtherSequences nIn (blankScripts scriptCode txTo nIn)
  else blankScripts scriptCode txTo nIn

def originalInputs (mode : HashMode) : List CTxIn :=
  let vin := changedInputs scriptCode txTo nIn mode
  if mode.fAnyoneCanPay then (vin.set 0 (vin.getD nIn {})).take 1 else vin

def originalOutputs (mode : HashMode) : List CTxOut :=
  if mode.fHashNone then []
  else if mode.fHashSingle then
    (txTo.vout.take (nIn + 1)).mapIdx fun i txout => if i < nIn then {} else txout
  else txTo.vout

def originalCopy : Option CTransaction :=
  let mode := hashMode nHashType
  if mode.fHashSingle ∧ txTo.vout.length ≤ nIn then none
  else some { txTo with
    vin := originalInputs scriptCode txTo nIn mode
    vout := originalOutputs txTo nIn mode }

def signatureHashOld (sha256 : Bytes → Uint256) : Uint256 :=
  if nIn ≥ txTo.vin.length then .ofNat 1
  else
    hashOrOne sha256 <| (originalCopy scriptCode txTo nIn nHashType).map fun txTmp =>
      txTmp.serialize false ++ leBytes 4 nHashType.toNat

end Original

/-! ## Agreement -/

theorem flatMap_eq_range {α : Type} {write : α → Bytes} {items : List α} {writeAt : Nat → Bytes} (fallback : α)
    (same : ∀ i < items.length, write (items.getD i fallback) = writeAt i) :
    items.flatMap write = (List.range items.length).flatMap writeAt := by
  rw [List.flatMap_def, List.flatMap_def]
  congr 1
  apply List.ext_getElem
  · simp
  · intro i inside inside'
    have inside : i < items.length := by simpa using inside
    simpa [inside] using same i inside

section Agreement

variable {sha256 : Bytes → Uint256} {txTo : CTransaction} {nIn : Nat} {amount : Int}
  {sigversion : SigVersion} {scriptCode : CScript} {nHashType : UInt32} {kept : CScript} {i : Nat}

def SigHashCache.Right (written : CScript → HashMode → Bytes) (cache : SigHashCache) : Prop :=
  ∀ (mode : HashMode) (script : CScript) (writer : Bytes),
    cache mode.cacheIndex = some (script, writer) → writer = written script mode

section

variable {written : CScript → HashMode → Bytes} {cache : SigHashCache} (right : cache.Right written)

include right

theorem SigHashCache.Right.load {writer : Bytes} (loaded : cache.load nHashType scriptCode = some writer) :
    writer = written scriptCode (hashMode nHashType) := by
  unfold SigHashCache.load at loaded
  split at loaded
  · next script writer' found =>
      split at loaded
      · next same =>
          cases loaded
          rw [same]
          exact right _ _ _ found
      · cases loaded
  · cases loaded

theorem SigHashCache.Right.store :
    (cache.store nHashType scriptCode (written scriptCode (hashMode nHashType))).Right written := by
  intro mode script writer found
  unfold SigHashCache.store at found
  by_cases same : mode.cacheIndex = (hashMode nHashType).cacheIndex
  · rw [same, Function.update_self] at found
    cases found
    rw [HashMode.cacheIndex_injective same]
  · rw [Function.update_of_ne same] at found
    exact right _ _ _ found

end

theorem signatureMessage_of_right (scriptCode : CScript) (nHashType : UInt32) {cache : Option SigHashCache}
    (right : ∀ entries ∈ cache, SigHashCache.Right (signedPart sha256 txTo nIn amount sigversion) entries) :
    (signatureMessage sha256 txTo nIn amount sigversion scriptCode nHashType cache).1 =
        (if sigversion ≠ .witnessV0 ∧ (hashMode nHashType).fHashSingle ∧ txTo.vout.length ≤ nIn
          then none
          else some (signedPart sha256 txTo nIn amount sigversion scriptCode (hashMode nHashType) ++
            leBytes 4 nHashType.toNat)) ∧
      ∀ entries ∈ (signatureMessage sha256 txTo nIn amount sigversion scriptCode nHashType cache).2,
        SigHashCache.Right (signedPart sha256 txTo nIn amount sigversion) entries := by
  unfold signatureMessage
  split
  · exact ⟨rfl, right⟩
  split
  · next ss loaded =>
      obtain ⟨entries, present, loaded⟩ := Option.bind_eq_some_iff.mp loaded
      rw [(right entries present).load loaded]
      exact ⟨rfl, right⟩
  refine ⟨rfl, ?_⟩
  intro stored member
  obtain ⟨entries, present, rfl⟩ := Option.map_eq_some_iff.mp member
  exact (right entries present).store

theorem CacheReached.right {cache : Option SigHashCache}
    (reached : CacheReached sha256 txTo nIn amount sigversion cache) :
    ∀ entries ∈ cache, SigHashCache.Right (signedPart sha256 txTo nIn amount sigversion) entries := by
  induction reached with
  | absent =>
    intro entries member
    cases member
  | empty =>
    intro entries member mode script writer found
    cases member
    cases found
  | call scriptCode nHashType _ ih => exact (signatureMessage_of_right _ _ ih).2

/-! The inputs and outputs of the changed copy are the ones the serializer writes. -/

theorem getD_blankScripts (nIn : Nat)
    (deleted : (scriptCode.findAndDelete [OP_CODESEPARATOR]).2 = kept) (inside : i < txTo.vin.length) :
    (blankScripts scriptCode txTo nIn).getD i {} =
      { txTo.vin.getD i {} with scriptSig := if nIn = i then kept else [] } := by
  unfold blankScripts
  rw [deleted, List.getD_eq_getElem?_getD, List.getElem?_modify, List.getElem?_map,
    List.getElem?_eq_getElem inside, List.getD_eq_getElem _ _ inside]
  split <;> rfl

theorem getD_zeroOtherSequences {vin : List CTxIn} (inside : i < vin.length) :
    (zeroOtherSequences nIn vin).getD i {} =
      if i ≠ nIn then { vin.getD i {} with nSequence := 0 } else vin.getD i {} := by
  unfold zeroOtherSequences
  rw [List.getD_eq_getElem _ _ (by rwa [List.length_mapIdx]), List.getElem_mapIdx,
    List.getD_eq_getElem _ _ inside]

@[simp] theorem length_blankScripts : (blankScripts scriptCode txTo nIn).length = txTo.vin.length := by
  simp [blankScripts]

theorem length_changedInputs (mode : HashMode) : (changedInputs scriptCode txTo nIn mode).length = txTo.vin.length := by
  unfold changedInputs
  split <;> simp [zeroOtherSequences]

theorem serialize_changedInputs (strips : scriptCode.Strips kept) (mode : HashMode)
    (inside : i < txTo.vin.length) (own : mode.fAnyoneCanPay = true → i = nIn) (nInput : Nat)
    (position : mode.fAnyoneCanPay = false → i = nInput) :
    ((changedInputs scriptCode txTo nIn mode).getD i {}).serialize =
      serializeInput txTo scriptCode nIn mode nInput := by
  have chosen : (if mode.fAnyoneCanPay then nIn else nInput) = i := by
    split
    · next pays => exact (own pays).symm
    · next pays => exact (position (Bool.eq_false_iff.mpr pays)).symm
  have blank := getD_blankScripts nIn (CScript.findAndDelete_separator strips) inside
  unfold serializeInput changedInputs
  rw [chosen]
  by_cases same : i = nIn
  · subst same
    rw [CScript.serializeScriptCode_eq strips]
    split
    · rw [getD_zeroOtherSequences (by simpa using inside), blank]
      simp [CTxIn.serialize]
    · rw [blank]
      simp [CTxIn.serialize]
  · split
    · next others =>
        rw [getD_zeroOtherSequences (by simpa using inside), blank]
        simp [CTxIn.serialize, same, Ne.symm same, others]
    · next others =>
        rw [blank]
        simp [CTxIn.serialize, same, Ne.symm same, others]

theorem serialize_inputs (strips : scriptCode.Strips kept) (inRange : nIn < txTo.vin.length) (mode : HashMode) :
    serializeVector CTxIn.serialize (originalInputs scriptCode txTo nIn mode) =
      (let nInputs := if mode.fAnyoneCanPay then 1 else txTo.vin.length
      writeCompactSize nInputs ++ (List.range nInputs).flatMap (serializeInput txTo scriptCode nIn mode)) := by
  have length : (changedInputs scriptCode txTo nIn mode).length = txTo.vin.length := length_changedInputs mode
  cases pays : mode.fAnyoneCanPay with
  | true =>
    have single : originalInputs scriptCode txTo nIn mode = [(changedInputs scriptCode txTo nIn mode).getD nIn {}] := by
      rw [originalInputs, if_pos pays]
      cases changed : changedInputs scriptCode txTo nIn mode with
      | nil =>
        rw [changed, List.length_nil] at length
        omega
      | cons first rest => rfl
    rw [single, serializeVector, List.flatMap_singleton,
      serialize_changedInputs strips mode inRange (fun _ => rfl) 0 (by simp [pays])]
    simp
  | false =>
    have written : ∀ i < (changedInputs scriptCode txTo nIn mode).length,
        CTxIn.serialize ((changedInputs scriptCode txTo nIn mode).getD i {}) =
          serializeInput txTo scriptCode nIn mode i := by
      intro i inside
      exact serialize_changedInputs strips _ (length ▸ inside) (by simp [pays]) i fun _ => rfl
    simp [originalInputs, pays, serializeVector, flatMap_eq_range _ written, length]

theorem serialize_outputs (mode : HashMode) (exists_own : mode.fHashSingle = true → nIn < txTo.vout.length) :
    serializeVector CTxOut.serialize (originalOutputs txTo nIn mode) = (let nOutputs :=
        if mode.fHashNone then 0 else if mode.fHashSingle then nIn + 1 else txTo.vout.length
      writeCompactSize nOutputs ++ (List.range nOutputs).flatMap (serializeOutput txTo nIn mode)) := by
  have length : (originalOutputs txTo nIn mode).length =
      if mode.fHashNone then 0 else if mode.fHashSingle then nIn + 1 else txTo.vout.length := by
    unfold originalOutputs
    split
    · rfl
    split
    · next single =>
        have own := exists_own single
        simp only [List.length_mapIdx, List.length_take]
        omega
    · rfl
  have written : ∀ i < (originalOutputs txTo nIn mode).length,
      CTxOut.serialize ((originalOutputs txTo nIn mode).getD i {}) = serializeOutput txTo nIn mode i := by
    intro i inside
    rw [length] at inside
    unfold originalOutputs serializeOutput
    split at inside
    · cases inside
    next some =>
      rw [if_neg some]
      split at inside
      · next single =>
          have own := exists_own single
          have kept : i < (txTo.vout.take (nIn + 1)).length := by
            rw [List.length_take]
            omega
          rw [if_pos single, List.getD_eq_getElem _ _ (by rwa [List.length_mapIdx]),
            List.getElem_mapIdx, List.getElem_take]
          by_cases before : i < nIn
          · rw [if_pos before, if_pos ⟨single, by omega⟩]
          · rw [if_neg before, if_neg (fun other => other.2 (by omega)),
              List.getD_eq_getElem _ _ (by omega)]
      · next single => rw [if_neg single, if_neg (fun other => single other.1)]
  rw [serializeVector, flatMap_eq_range _ written, length]

theorem serialize_originalCopy (strips : scriptCode.Strips kept) (inRange : nIn < txTo.vin.length) :
    (originalCopy scriptCode txTo nIn nHashType).map (·.serialize false) =
      if (hashMode nHashType).fHashSingle ∧ txTo.vout.length ≤ nIn then none
      else some (serializeForSignature txTo scriptCode nIn (hashMode nHashType)) := by
  unfold originalCopy
  dsimp only
  split
  · rfl
  next some =>
    have own : (hashMode nHashType).fHashSingle = true → nIn < txTo.vout.length :=
      fun single => not_le.mp fun outside => some ⟨single, outside⟩
    rw [Option.map_some, serializeForSignature, ← serialize_inputs strips inRange, ← serialize_outputs _ own]
    simp [CTransaction.serialize]

/-- The bytes hashed are the serialization of the copy the original algorithm changes, with the
hash type behind it; nothing is hashed only for an input without an output of its own. -/
theorem signatureHash_eq_original {cache : Option SigHashCache}
    (reached : CacheReached sha256 txTo nIn amount .base cache) (inRange : nIn < txTo.vin.length)
    (parses : scriptCode.Parses) (nHashType : UInt32) :
    scriptCode.Strips (scriptCode.findAndDelete [OP_CODESEPARATOR]).2 ∧
      (signatureMessage sha256 txTo nIn amount .base scriptCode nHashType cache).1 =
        (originalCopy scriptCode txTo nIn nHashType).map (fun txTmp =>
          txTmp.serialize false ++ leBytes 4 nHashType.toNat) ∧
      signatureHash sha256 txTo nIn amount .base scriptCode nHashType cache =
        signatureHashOld scriptCode txTo nIn nHashType sha256 ∧
      ((signatureMessage sha256 txTo nIn amount .base scriptCode nHashType cache).1 = none ↔
        nHashType &&& 0x1f = SIGHASH_SINGLE.toUInt32 ∧ txTo.vout.length ≤ nIn) := by
  obtain ⟨kept, strips⟩ := parses.strips
  have message := (signatureMessage_of_right scriptCode nHashType reached.right).1
  have original : (originalCopy scriptCode txTo nIn nHashType).map (fun txTmp =>
      txTmp.serialize false ++ leBytes 4 nHashType.toNat) =
        ((originalCopy scriptCode txTo nIn nHashType).map (·.serialize false)).map
          (· ++ leBytes 4 nHashType.toNat) := by
    rw [Option.map_map]
    rfl
  have same : (signatureMessage sha256 txTo nIn amount .base scriptCode nHashType cache).1 =
      (originalCopy scriptCode txTo nIn nHashType).map (fun txTmp =>
        txTmp.serialize false ++ leBytes 4 nHashType.toNat) := by
    rw [message, original, serialize_originalCopy strips inRange]
    split
    · next outside => rw [if_pos outside.2, Option.map_none]
    · next own =>
        rw [if_neg (fun outside => own ⟨by decide, outside⟩), Option.map_some]
        rfl
  refine ⟨?_, same, ?_, ?_⟩
  · rwa [CScript.findAndDelete_separator strips]
  · rw [signatureHash, signatureHashOld, if_neg (by omega), same]
  rw [message]
  split
  · next outside => exact iff_of_true rfl ⟨beq_iff_eq.mp outside.2.1, outside.2.2⟩
  · next own =>
      exact iff_of_false (Option.some_ne_none _) fun outside => own ⟨by decide, beq_iff_eq.mpr outside.1, outside.2⟩

/-- A separator behind a push, with only the signed input kept. -/
theorem signatureHash_eq_original_separated :
    signatureHash Sha256.digest { vin := [{}, {}], vout := [{}] } 0 0 .base [OP_1, OP_CODESEPARATOR] 0x81
        (some fun _ => none) =
      signatureHashOld [OP_1, OP_CODESEPARATOR] { vin := [{}, {}], vout := [{}] } 0 0x81 Sha256.digest :=
  (signatureHash_eq_original .empty (by decide) (.op rfl (.op rfl .nil)) 0x81).2.2.1

end Agreement

end Sharecoin
