import Sharecoin.Lib.FirstWins
import Sharecoin.Primitives.Transaction

/-! Partially signed transactions: the fields of the global, input and output maps, the records
their serialization writes, the transaction they describe, and how several of them are merged
into one. -/

set_option autoImplicit false

namespace Sharecoin

open Lib
open Std (ExtTreeMap ExtTreeSet)

/-! ## Keys of the maps -/

instance : Ord Uint256 := ⟨compareOn Uint256.data⟩

instance : Std.TransOrd Uint256 := inferInstanceAs (Std.TransCmp (compareOn Uint256.data))

instance : Std.LawfulEqOrd Uint256 := lawfulEqCmp_compareOn fun _ _ => Uint256.ext

structure Uint160 where
  data : Bytes
  size_eq : data.length = 20
deriving DecidableEq

instance : Ord Uint160 := ⟨compareOn Uint160.data⟩

instance : Std.TransOrd Uint160 := inferInstanceAs (Std.TransCmp (compareOn Uint160.data))

instance : Std.LawfulEqOrd Uint160 := lawfulEqCmp_compareOn fun left right same => by
  cases left; cases right; cases same; rfl

def CPubKey.getLen (header : UInt8) : Nat :=
  if header == 2 || header == 3 then 33
  else if header == 4 || header == 6 || header == 7 then 65
  else 0

/-- A valid public key: a PSBT with another one cannot be serialized. -/
structure CPubKey where
  vch : Bytes
  valid : 0 < vch.length ∧ vch.head?.map CPubKey.getLen = some vch.length
deriving DecidableEq

instance : Ord CPubKey := ⟨compareOn CPubKey.vch⟩

instance : Std.TransOrd CPubKey := inferInstanceAs (Std.TransCmp (compareOn CPubKey.vch))

instance : Std.LawfulEqOrd CPubKey := lawfulEqCmp_compareOn fun left right same => by
  cases left; cases right; cases same; rfl

abbrev XOnlyPubKey := Uint256

/-- Four bytes: a fingerprint or a version of an extended key. -/
abbrev FourBytes := { bytes : Bytes // bytes.length = 4 }

structure KeyOriginInfo where
  fingerprint : FourBytes
  path : List UInt32
deriving DecidableEq

namespace KeyOriginInfo

/-- `operator<`: by fingerprint, then shorter paths first. -/
abbrev cmp : KeyOriginInfo → KeyOriginInfo → Ordering :=
  compareLex (compareOn fun origin => origin.fingerprint.val)
    (compareLex (compareOn fun origin => origin.path.length) (compareOn path))

instance : Std.TransCmp cmp := inferInstance

instance : Std.LawfulEqCmp cmp where
  compare_self := by simp [compareLex, compareOn]
  eq_of_compare {left right} same := by
    simp only [cmp, compareLex, compareOn, Ordering.then_eq_eq] at same
    have fingerprints := Subtype.ext (Std.LawfulEqCmp.eq_of_compare same.1)
    have paths := Std.LawfulEqCmp.eq_of_compare same.2.2
    cases left; cases right; cases fingerprints; cases paths; rfl

def serialize (origin : KeyOriginInfo) : Bytes :=
  origin.fingerprint.val ++ origin.path.flatMap fun index => leBytes 4 index.toNat

end KeyOriginInfo

structure CExtPubKey where
  version : FourBytes
  nDepth : UInt8
  vchFingerprint : FourBytes
  nChild : UInt32
  chaincode : Uint256
  pubkey : CPubKey
deriving DecidableEq

abbrev shortestVectorFirst : Bytes → Bytes → Ordering :=
  compareLex (compareOn List.length) compare

instance : Std.TransCmp shortestVectorFirst := inferInstance

instance : Std.LawfulEqCmp shortestVectorFirst where
  compare_self := by simp [compareLex, compareOn]
  eq_of_compare same := by
    simp only [shortestVectorFirst, compareLex, Ordering.then_eq_eq] at same
    exact Std.LawfulEqCmp.eq_of_compare same.2

/-! The orders of the keys that are pairs, found once. -/

instance : Std.TransCmp (comparePair (α := XOnlyPubKey) (β := Uint256)) := inferInstance

instance : Std.TransCmp (comparePair (α := Bytes) (β := Int)) := inferInstance

instance : Std.TransCmp (comparePair (α := CPubKey) (β := Uint256)) := inferInstance

/-! ## Fields of an input and of an output

A set of keyed entries (`std::set<PSBTProprietary>`, `std::set<CExtPubKey>`) is a map from what
its order compares. The version an input or an output keeps is that of its PSBT. -/

structure PSBTInput where
  nonWitnessUtxo : Option CTransaction := none
  witnessUtxo : CTxOut := {}
  redeemScript : CScript := []
  witnessScript : CScript := []
  finalScriptSig : CScript := []
  finalScriptWitness : List Bytes := []
  hdKeypaths : ExtTreeMap CPubKey KeyOriginInfo := ∅
  partialSigs : ExtTreeMap Uint160 (CPubKey × Bytes) := ∅
  ripemd160Preimages : ExtTreeMap Uint160 Bytes := ∅
  sha256Preimages : ExtTreeMap Uint256 Bytes := ∅
  hash160Preimages : ExtTreeMap Uint160 Bytes := ∅
  hash256Preimages : ExtTreeMap Uint256 Bytes := ∅
  prevTxid : Uint256
  prevOut : UInt32
  sequence : Option UInt32 := none
  timeLocktime : Option UInt32 := none
  heightLocktime : Option UInt32 := none
  tapKeySig : Bytes := []
  tapScriptSigs : ExtTreeMap (XOnlyPubKey × Uint256) Bytes comparePair := ∅
  tapScripts : ExtTreeMap (Bytes × Int) (ExtTreeSet Bytes shortestVectorFirst) comparePair := ∅
  tapBip32Paths : ExtTreeMap XOnlyPubKey (ExtTreeSet Uint256 × KeyOriginInfo) := ∅
  tapInternalKey : XOnlyPubKey := .zero
  tapMerkleRoot : Uint256 := .zero
  musig2Participants : ExtTreeMap CPubKey (List CPubKey) := ∅
  musig2Pubnonces : ExtTreeMap (CPubKey × Uint256) (ExtTreeMap CPubKey Bytes) comparePair := ∅
  musig2PartialSigs : ExtTreeMap (CPubKey × Uint256) (ExtTreeMap CPubKey Uint256) comparePair := ∅
  unknown : ExtTreeMap Bytes Bytes := ∅
  proprietary : ExtTreeMap Bytes Bytes := ∅
  sighashType : Option Int := none

structure PSBTOutput where
  redeemScript : CScript := []
  witnessScript : CScript := []
  hdKeypaths : ExtTreeMap CPubKey KeyOriginInfo := ∅
  tapInternalKey : XOnlyPubKey := .zero
  tapTree : List (UInt8 × UInt8 × Bytes) := []
  tapBip32Paths : ExtTreeMap XOnlyPubKey (ExtTreeSet Uint256 × KeyOriginInfo) := ∅
  musig2Participants : ExtTreeMap CPubKey (List CPubKey) := ∅
  unknown : ExtTreeMap Bytes Bytes := ∅
  proprietary : ExtTreeMap Bytes Bytes := ∅
  amount : Int
  script : CScript

structure PartiallySignedTransaction where
  version : Option UInt32 := none
  xpubs : ExtTreeMap KeyOriginInfo (ExtTreeMap (CPubKey × Uint256) CExtPubKey comparePair)
    KeyOriginInfo.cmp := ∅
  txModifiable : Option (BitVec 8) := none
  inputs : List PSBTInput := []
  outputs : List PSBTOutput := []
  unknown : ExtTreeMap Bytes Bytes := ∅
  proprietary : ExtTreeMap Bytes Bytes := ∅
  txVersion : UInt32
  fallbackLocktime : Option UInt32 := none

/-! ## Merging -/

/-- `if (this is missing && other is not) this = other`. -/
def fillMissing {α : Type} (missing : α → Bool) (this other : α) : α :=
  if missing this && !missing other then other else this

namespace PSBTInput

/-- `PSBTInput::Merge`. The sighash type is not among the fields it looks at. -/
def merge (this input : PSBTInput) : PSBTInput :=
  { this with
    nonWitnessUtxo := fillMissing Option.isNone this.nonWitnessUtxo input.nonWitnessUtxo
    witnessUtxo := fillMissing CTxOut.isNull this.witnessUtxo input.witnessUtxo
    partialSigs := keepFirst this.partialSigs input.partialSigs
    ripemd160Preimages := keepFirst this.ripemd160Preimages input.ripemd160Preimages
    sha256Preimages := keepFirst this.sha256Preimages input.sha256Preimages
    hash160Preimages := keepFirst this.hash160Preimages input.hash160Preimages
    hash256Preimages := keepFirst this.hash256Preimages input.hash256Preimages
    hdKeypaths := keepFirst this.hdKeypaths input.hdKeypaths
    proprietary := keepFirst this.proprietary input.proprietary
    unknown := keepFirst this.unknown input.unknown
    tapScriptSigs := keepFirst this.tapScriptSigs input.tapScriptSigs
    -- the control blocks of a leaf that is already there are not joined
    tapScripts := keepFirst this.tapScripts input.tapScripts
    tapBip32Paths := keepFirst this.tapBip32Paths input.tapBip32Paths
    redeemScript := fillMissing List.isEmpty this.redeemScript input.redeemScript
    witnessScript := fillMissing List.isEmpty this.witnessScript input.witnessScript
    finalScriptSig := fillMissing List.isEmpty this.finalScriptSig input.finalScriptSig
    finalScriptWitness := fillMissing List.isEmpty this.finalScriptWitness input.finalScriptWitness
    tapKeySig := fillMissing List.isEmpty this.tapKeySig input.tapKeySig
    tapInternalKey := fillMissing Uint256.isNull this.tapInternalKey input.tapInternalKey
    tapMerkleRoot := fillMissing Uint256.isNull this.tapMerkleRoot input.tapMerkleRoot
    musig2Participants := keepFirst this.musig2Participants input.musig2Participants
    musig2Pubnonces := mergeNested this.musig2Pubnonces input.musig2Pubnonces
    musig2PartialSigs := mergeNested this.musig2PartialSigs input.musig2PartialSigs
    sequence := fillMissing Option.isNone this.sequence input.sequence
    timeLocktime := fillMissing Option.isNone this.timeLocktime input.timeLocktime
    heightLocktime := fillMissing Option.isNone this.heightLocktime input.heightLocktime }

/-- Whether the fields that make up a signature are left out of the serialization. -/
def isFinal (input : PSBTInput) : Bool :=
  !(input.finalScriptSig.isEmpty && input.finalScriptWitness.isEmpty)

end PSBTInput

def PSBTOutput.merge (this output : PSBTOutput) : PSBTOutput :=
  { this with
    hdKeypaths := keepFirst this.hdKeypaths output.hdKeypaths
    proprietary := keepFirst this.proprietary output.proprietary
    unknown := keepFirst this.unknown output.unknown
    tapBip32Paths := keepFirst this.tapBip32Paths output.tapBip32Paths
    redeemScript := fillMissing List.isEmpty this.redeemScript output.redeemScript
    witnessScript := fillMissing List.isEmpty this.witnessScript output.witnessScript
    tapInternalKey := fillMissing Uint256.isNull this.tapInternalKey output.tapInternalKey
    tapTree := fillMissing List.isEmpty this.tapTree output.tapTree
    musig2Participants := keepFirst this.musig2Participants output.musig2Participants }

/-- The modifiable flags of two PSBTs: all but bit 2 must be set in both. -/
def mergeModifiable (this other : BitVec 8) : BitVec 8 :=
  (this &&& other &&& ~~~4#8) ||| ((this ||| other) &&& 4#8)

def mergeTxModifiable (this other : Option (BitVec 8)) : Option (BitVec 8) :=
  if this.isSome || other.isSome then some (mergeModifiable (this.getD 0) (other.getD 0)) else none

namespace PartiallySignedTransaction

def getVersion (psbt : PartiallySignedTransaction) : UInt32 := psbt.version.getD 0

/-! ## The transaction -/

/-- The lock times an input of the list still allows: by time and by height. -/
structure OpenLocks where
  time : Option UInt32
  height : Option UInt32

/-- One round of the loop of `ComputeTimeLock`; `none` is its early return. -/
def OpenLocks.require (locks : OpenLocks) (input : PSBTInput) : Option OpenLocks := do
  let locks ← if input.timeLocktime.isSome && !input.heightLocktime.isSome then
      if locks.time.isSome then some { locks with height := none } else none
    else if !input.timeLocktime.isSome && input.heightLocktime.isSome then
      if locks.height.isSome then some { locks with time := none } else none
    else some locks
  some {
    time := do some (max (← locks.time) (input.timeLocktime.getD 0))
    height := do some (max (← locks.height) (input.heightLocktime.getD 0)) }

def computeTimeLock (psbt : PartiallySignedTransaction) : Option UInt32 :=
  if psbt.getVersion ≥ 2 then do
    let locks ← psbt.inputs.foldlM OpenLocks.require ⟨some 0, some 0⟩
    if 0 < locks.height.getD 0 then locks.height
    else if 0 < locks.time.getD 0 then locks.time
    else some (psbt.fallbackLocktime.getD 0)
  else some (psbt.fallbackLocktime.getD 0)

def getUnsignedTx (psbt : PartiallySignedTransaction) : Option CTransaction := do
  let locktime ← psbt.computeTimeLock
  some {
    version := psbt.txVersion
    vin := psbt.inputs.map fun input => {
      prevout := ⟨input.prevTxid, input.prevOut⟩
      nSequence := input.sequence.getD CTxIn.SEQUENCE_FINAL }
    vout := psbt.outputs.map fun output => ⟨output.amount, output.script⟩
    nLockTime := locktime }

variable (sha256d : Bytes → Uint256)

def getUniqueID (psbt : PartiallySignedTransaction) : Option Uint256 := do
  let mtx ← psbt.getUnsignedTx
  let mtx :=
    if psbt.getVersion ≥ 2 then
      { mtx with vin := mtx.vin.map fun txin => { txin with nSequence := 0 } }
    else mtx
  some (mtx.getHash sha256d)

/-! ## Combining -/

/-- What `Merge` does to the fields once both PSBTs describe the same transaction, and so have
the same numbers of inputs and of outputs. -/
def mergeFields (this psbt : PartiallySignedTransaction) : PartiallySignedTransaction :=
  { this with
    inputs := mergeEach PSBTInput.merge this.inputs psbt.inputs
    outputs := mergeEach PSBTOutput.merge this.outputs psbt.outputs
    xpubs := mergeNested this.xpubs psbt.xpubs
    fallbackLocktime := fillMissing Option.isNone this.fallbackLocktime psbt.fallbackLocktime
    txModifiable := mergeTxModifiable this.txModifiable psbt.txModifiable
    proprietary := keepFirst this.proprietary psbt.proprietary
    unknown := keepFirst this.unknown psbt.unknown }

/-- `PartiallySignedTransaction::Merge`; `none` where it returns false. -/
def merge (this psbt : PartiallySignedTransaction) : Option PartiallySignedTransaction :=
  let thisId := this.getUniqueID sha256d
  let psbtId := psbt.getUniqueID sha256d
  if thisId.isNone || psbtId.isNone || thisId != psbtId then none
  else if this.getVersion != psbt.getVersion then none
  else some (this.mergeFields psbt)

/-- `CombinePSBTs`. The source reads the first element of an empty list, which its callers
exclude. -/
def combinePSBTs : List PartiallySignedTransaction → Option PartiallySignedTransaction
  | [] => none
  | first :: rest => rest.foldlM (merge sha256d) first

end PartiallySignedTransaction

end Sharecoin
