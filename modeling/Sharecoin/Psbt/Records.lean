import Sharecoin.Psbt.UniqueId

/-! The key-value records of the three kinds of maps, in the order the serialization of a PSBT
writes them. A slot is a place of a map that merging treats as one thing: mostly the key of a
record, but a leaf script with all its control blocks, and the ID of a key with a signature. -/

set_option autoImplicit false

namespace Sharecoin

open Lib
open Std (ExtTreeMap ExtTreeSet)

/-- A field that is written unless it is empty. -/
def present {α : Type} (missing : α → Bool) (value : α) : Option α :=
  if missing value then none else some value

def serializeOriginWithLeaves (leaves : ExtTreeSet Uint256) (origin : KeyOriginInfo) : Bytes :=
  serializeVector Uint256.data leaves.toList ++ origin.serialize

/-! ## Inputs -/

inductive InputKey where
  | nonWitnessUtxo
  | witnessUtxo
  | partialSig (pubkey : CPubKey)
  | sighash
  | redeemScript
  | witnessScript
  | bip32Derivation (pubkey : CPubKey)
  | ripemd160 (hash : Uint160)
  | sha256 (hash : Uint256)
  | hash160 (hash : Uint160)
  | hash256 (hash : Uint256)
  | tapKeySig
  | tapScriptSig (xonly : XOnlyPubKey) (leafHash : Uint256)
  | tapLeafScript (controlBlock : Bytes)
  | tapBip32Derivation (xonly : XOnlyPubKey)
  | tapInternalKey
  | tapMerkleRoot
  | musig2ParticipantPubkeys (aggregate : CPubKey)
  | musig2PubNonce (participant aggregate : CPubKey) (leafHash : Uint256)
  | musig2PartialSig (participant aggregate : CPubKey) (leafHash : Uint256)
  | scriptSig
  | scriptWitness
  | previousTxid
  | outputIndex
  | sequence
  | requiredTimeLocktime
  | requiredHeightLocktime
  | proprietary (key : Bytes)
  | unknown (key : Bytes)
deriving DecidableEq

inductive InputSlot where
  | nonWitnessUtxo
  | witnessUtxo
  | partialSig (id : Uint160)
  | sighash
  | redeemScript
  | witnessScript
  | bip32Derivation (pubkey : CPubKey)
  | ripemd160 (hash : Uint160)
  | sha256 (hash : Uint256)
  | hash160 (hash : Uint160)
  | hash256 (hash : Uint256)
  | tapKeySig
  | tapScriptSig (pubkeyLeaf : XOnlyPubKey × Uint256)
  | tapLeafScript (leaf : Bytes × Int)
  | tapBip32Derivation (xonly : XOnlyPubKey)
  | tapInternalKey
  | tapMerkleRoot
  | musig2ParticipantPubkeys (aggregate : CPubKey)
  | musig2PubNonce (aggregateLeaf : CPubKey × Uint256) (participant : CPubKey)
  | musig2PartialSig (aggregateLeaf : CPubKey × Uint256) (participant : CPubKey)
  | scriptSig
  | scriptWitness
  | previousTxid
  | outputIndex
  | sequence
  | requiredTimeLocktime
  | requiredHeightLocktime
  | proprietary (key : Bytes)
  | unknown (key : Bytes)

namespace InputSlot

/-- What is left out once the input is final. -/
def signing : InputSlot → Bool
  | nonWitnessUtxo | witnessUtxo | scriptSig | scriptWitness | previousTxid | outputIndex
  | sequence | requiredTimeLocktime | requiredHeightLocktime | proprietary _ | unknown _ => false
  | _ => true

def versionTwo : InputSlot → Bool
  | previousTxid | outputIndex | sequence | requiredTimeLocktime | requiredHeightLocktime => true
  | _ => false

end InputSlot

namespace PSBTInput

def content (input : PSBTInput) : InputSlot → Option (List (InputKey × Bytes))
  | .nonWitnessUtxo => input.nonWitnessUtxo.map fun tx => [(.nonWitnessUtxo, tx.serialize false)]
  | .witnessUtxo =>
    (present CTxOut.isNull input.witnessUtxo).map fun txout => [(.witnessUtxo, txout.serialize)]
  | .partialSig id => input.partialSigs[id]?.map fun pair => [(.partialSig pair.1, pair.2)]
  | .sighash =>
    input.sighashType.map fun type => [(.sighash, leBytes 4 (type % 2 ^ 32).toNat)]
  | .redeemScript =>
    (present List.isEmpty input.redeemScript).map fun script => [(.redeemScript, script)]
  | .witnessScript =>
    (present List.isEmpty input.witnessScript).map fun script => [(.witnessScript, script)]
  | .bip32Derivation pubkey =>
    input.hdKeypaths[pubkey]?.map fun origin => [(.bip32Derivation pubkey, origin.serialize)]
  | .ripemd160 hash =>
    input.ripemd160Preimages[hash]?.map fun preimage => [(.ripemd160 hash, preimage)]
  | .sha256 hash => input.sha256Preimages[hash]?.map fun preimage => [(.sha256 hash, preimage)]
  | .hash160 hash => input.hash160Preimages[hash]?.map fun preimage => [(.hash160 hash, preimage)]
  | .hash256 hash => input.hash256Preimages[hash]?.map fun preimage => [(.hash256 hash, preimage)]
  | .tapKeySig => (present List.isEmpty input.tapKeySig).map fun sig => [(.tapKeySig, sig)]
  | .tapScriptSig pubkeyLeaf =>
    input.tapScriptSigs[pubkeyLeaf]?.map fun sig =>
      [(.tapScriptSig pubkeyLeaf.1 pubkeyLeaf.2, sig)]
  | .tapLeafScript leaf =>
    input.tapScripts[leaf]?.map fun controlBlocks =>
      controlBlocks.toList.map fun controlBlock =>
        (.tapLeafScript controlBlock, leaf.1 ++ [UInt8.ofInt leaf.2])
  | .tapBip32Derivation xonly =>
    input.tapBip32Paths[xonly]?.map fun leafOrigin =>
      [(.tapBip32Derivation xonly, serializeOriginWithLeaves leafOrigin.1 leafOrigin.2)]
  | .tapInternalKey =>
    (present Uint256.isNull input.tapInternalKey).map fun key => [(.tapInternalKey, key.data)]
  | .tapMerkleRoot =>
    (present Uint256.isNull input.tapMerkleRoot).map fun root => [(.tapMerkleRoot, root.data)]
  | .musig2ParticipantPubkeys aggregate =>
    input.musig2Participants[aggregate]?.map fun participants =>
      [(.musig2ParticipantPubkeys aggregate, participants.flatMap CPubKey.vch)]
  | .musig2PubNonce aggregateLeaf participant =>
    (lookupNested input.musig2Pubnonces aggregateLeaf participant).map fun pubnonce =>
      [(.musig2PubNonce participant aggregateLeaf.1 aggregateLeaf.2, pubnonce)]
  | .musig2PartialSig aggregateLeaf participant =>
    (lookupNested input.musig2PartialSigs aggregateLeaf participant).map fun psig =>
      [(.musig2PartialSig participant aggregateLeaf.1 aggregateLeaf.2, psig.data)]
  | .scriptSig => (present List.isEmpty input.finalScriptSig).map fun script => [(.scriptSig, script)]
  | .scriptWitness =>
    (present List.isEmpty input.finalScriptWitness).map fun stack =>
      [(.scriptWitness, serializeVector serializeBytes stack)]
  | .previousTxid => some [(.previousTxid, input.prevTxid.data)]
  | .outputIndex => some [(.outputIndex, leBytes 4 input.prevOut.toNat)]
  | .sequence => input.sequence.map fun sequence => [(.sequence, leBytes 4 sequence.toNat)]
  | .requiredTimeLocktime =>
    input.timeLocktime.map fun lock => [(.requiredTimeLocktime, leBytes 4 lock.toNat)]
  | .requiredHeightLocktime =>
    input.heightLocktime.map fun lock => [(.requiredHeightLocktime, leBytes 4 lock.toNat)]
  | .proprietary key => input.proprietary[key]?.map fun value => [(.proprietary key, value)]
  | .unknown key => input.unknown[key]?.map fun value => [(.unknown key, value)]

/-- The slots of the fields that make up a signature. -/
def signingSlots (input : PSBTInput) : List InputSlot :=
  List.flatten [ input.partialSigs.keys.map InputSlot.partialSig, [.sighash, .redeemScript, .witnessScript],
    input.hdKeypaths.keys.map InputSlot.bip32Derivation,
    input.ripemd160Preimages.keys.map InputSlot.ripemd160,
    input.sha256Preimages.keys.map InputSlot.sha256,
    input.hash160Preimages.keys.map InputSlot.hash160,
    input.hash256Preimages.keys.map InputSlot.hash256,
    [.tapKeySig],
    input.tapScriptSigs.keys.map InputSlot.tapScriptSig,
    input.tapScripts.keys.map InputSlot.tapLeafScript,
    input.tapBip32Paths.keys.map InputSlot.tapBip32Derivation,
    [.tapInternalKey, .tapMerkleRoot],
    input.musig2Participants.keys.map InputSlot.musig2ParticipantPubkeys,
    input.musig2Pubnonces.toList.flatMap fun entry =>
      entry.2.keys.map (InputSlot.musig2PubNonce entry.1),
    input.musig2PartialSigs.toList.flatMap fun entry =>
      entry.2.keys.map (InputSlot.musig2PartialSig entry.1)]

/-- The slots in the order `Serialize` goes through them. -/
def slots (version : UInt32) (input : PSBTInput) : List InputSlot :=
  List.flatten [ [.nonWitnessUtxo, .witnessUtxo], if input.isFinal then [] else input.signingSlots,
    [.scriptSig, .scriptWitness],
    if version ≥ 2 then [.previousTxid, .outputIndex, .sequence, .requiredTimeLocktime,
      .requiredHeightLocktime] else [],
    input.proprietary.keys.map InputSlot.proprietary,
    input.unknown.keys.map InputSlot.unknown]

def records (version : UInt32) (input : PSBTInput) : List (InputKey × Bytes) :=
  (input.slots version).flatMap fun slot => (input.content slot).getD []

end PSBTInput

/-! ## Outputs -/

/-- The keys of an output are its slots: no field of it is merged otherwise. -/
inductive OutputKey where
  | redeemScript
  | witnessScript
  | bip32Derivation (pubkey : CPubKey)
  | amount
  | script
  | tapInternalKey
  | tapTree
  | tapBip32Derivation (xonly : XOnlyPubKey)
  | musig2ParticipantPubkeys (aggregate : CPubKey)
  | proprietary (key : Bytes)
  | unknown (key : Bytes)
deriving DecidableEq

def OutputKey.versionTwo : OutputKey → Bool
  | amount | script => true
  | _ => false

namespace PSBTOutput

def content (output : PSBTOutput) : OutputKey → Option Bytes
  | .redeemScript => present List.isEmpty output.redeemScript
  | .witnessScript => present List.isEmpty output.witnessScript
  | .bip32Derivation pubkey => output.hdKeypaths[pubkey]?.map KeyOriginInfo.serialize
  | .amount => some (leBytes 8 (output.amount % 2 ^ 64).toNat)
  | .script => some output.script
  | .tapInternalKey => (present Uint256.isNull output.tapInternalKey).map Uint256.data
  | .tapTree =>
    (present List.isEmpty output.tapTree).map fun leaves =>
      leaves.flatMap fun leaf => [leaf.1, leaf.2.1] ++ serializeBytes leaf.2.2
  | .tapBip32Derivation xonly =>
    output.tapBip32Paths[xonly]?.map fun leafOrigin =>
      serializeOriginWithLeaves leafOrigin.1 leafOrigin.2
  | .musig2ParticipantPubkeys aggregate =>
    output.musig2Participants[aggregate]?.map fun participants =>
      participants.flatMap CPubKey.vch
  | .proprietary key => output.proprietary[key]?
  | .unknown key => output.unknown[key]?

def slots (version : UInt32) (output : PSBTOutput) : List OutputKey :=
  List.flatten [ [.redeemScript, .witnessScript], output.hdKeypaths.keys.map OutputKey.bip32Derivation,
    if version ≥ 2 then [.amount, .script] else [],
    output.proprietary.keys.map OutputKey.proprietary,
    [.tapInternalKey, .tapTree],
    output.tapBip32Paths.keys.map OutputKey.tapBip32Derivation,
    output.musig2Participants.keys.map OutputKey.musig2ParticipantPubkeys,
    output.unknown.keys.map OutputKey.unknown]

def records (version : UInt32) (output : PSBTOutput) : List (OutputKey × Bytes) :=
  (output.slots version).flatMap fun key => ((output.content key).map (key, ·)).toList

end PSBTOutput

/-! ## The global map -/

inductive GlobalKey where
  | unsignedTx
  | xpub (extended : CExtPubKey)
  | txVersion
  | fallbackLocktime
  | inputCount
  | outputCount
  | txModifiable
  | version
  | proprietary (key : Bytes)
  | unknown (key : Bytes)
deriving DecidableEq

inductive GlobalSlot where
  | unsignedTx
  | xpub (origin : KeyOriginInfo) (rank : CPubKey × Uint256)
  | txVersion
  | fallbackLocktime
  | inputCount
  | outputCount
  | txModifiable
  | version
  | proprietary (key : Bytes)
  | unknown (key : Bytes)

def GlobalSlot.versionTwo : GlobalSlot → Bool
  | txVersion | fallbackLocktime | inputCount | outputCount | txModifiable => true
  | _ => false

namespace PartiallySignedTransaction

def content (psbt : PartiallySignedTransaction) : GlobalSlot → Option (GlobalKey × Bytes)
  | .unsignedTx => psbt.getUnsignedTx.map fun tx => (.unsignedTx, tx.serialize false)
  | .xpub origin rank =>
    (lookupNested psbt.xpubs origin rank).map fun xpub => (.xpub xpub, origin.serialize)
  | .txVersion => some (.txVersion, leBytes 4 psbt.txVersion.toNat)
  | .fallbackLocktime =>
    psbt.fallbackLocktime.map fun lock => (.fallbackLocktime, leBytes 4 lock.toNat)
  | .inputCount => some (.inputCount, writeCompactSize psbt.inputs.length)
  | .outputCount => some (.outputCount, writeCompactSize psbt.outputs.length)
  | .txModifiable => psbt.txModifiable.map fun flags => (.txModifiable, leBytes 1 flags.toNat)
  | .version =>
    if psbt.getVersion > 0 then some (.version, leBytes 4 psbt.getVersion.toNat) else none
  | .proprietary key => psbt.proprietary[key]?.map fun value => (.proprietary key, value)
  | .unknown key => psbt.unknown[key]?.map fun value => (.unknown key, value)

/-- The slots of the global map in the order `Serialize` goes through them. -/
def slots (psbt : PartiallySignedTransaction) : List GlobalSlot :=
  List.flatten [ if psbt.getVersion < 2 then [.unsignedTx] else [],
    psbt.xpubs.toList.flatMap fun entry => entry.2.keys.map (GlobalSlot.xpub entry.1),
    if psbt.getVersion ≥ 2 then
      [.txVersion, .fallbackLocktime, .inputCount, .outputCount, .txModifiable] else [],
    [.version],
    psbt.proprietary.keys.map GlobalSlot.proprietary,
    psbt.unknown.keys.map GlobalSlot.unknown]

def records (psbt : PartiallySignedTransaction) : List (GlobalKey × Bytes) :=
  psbt.slots.filterMap psbt.content

end PartiallySignedTransaction

end Sharecoin
