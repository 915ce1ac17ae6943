import Sharecoin.Lib.VarInt
import Sharecoin.Lib.Machine
import Sharecoin.Primitives.Block

/-! Reading transactions back from their serialization, with and without witness data. What
is read is what was written, up to the witnesses where they are left out, so a
serialization fixes the transaction. -/

set_option autoImplicit false

namespace Sharecoin

open Lib

/-! ## Reading -/

def MAX_SIZE : Nat := 0x02000000

/-- A wider length, which has to be too large for the narrower ones. -/
def readCanonical (width least : Nat) : Reader Nat := do
  let size ← readLe width
  readGuard (decide (least ≤ size))
  pure size

def readCompactSize : Reader Nat := do
  let chSize ← readLe 1
  let nSizeRet ← if chSize < 253 then pure chSize
    else if chSize = 253 then readCanonical 2 253
    else if chSize = 254 then readCanonical 4 0x10000
    else readCanonical 8 0x100000000
  readGuard (decide (nSizeRet ≤ MAX_SIZE))
  pure nSizeRet

def readVector {α : Type} (item : Reader α) : Reader (List α) := do
  let size ← readCompactSize
  readMany item size

def readByteVector : Reader Bytes := do
  let size ← readCompactSize
  readBytes size

def readUInt32 : Reader UInt32 := do
  let number ← readLe 4
  pure (UInt32.ofNat number)

def readInt64 : Reader Int := do
  let number ← readLe 8
  pure (wrap64 number)

def COutPoint.read : Reader COutPoint := do
  let hash ← Uint256.read
  let n ← readUInt32
  pure ⟨hash, n⟩

def CTxIn.read : Reader CTxIn := do
  let prevout ← COutPoint.read
  let scriptSig ← readByteVector
  let nSequence ← readUInt32
  pure { prevout, scriptSig, nSequence }

def CTxOut.read : Reader CTxOut := do
  let nValue ← readInt64
  let scriptPubKey ← readByteVector
  pure { nValue, scriptPubKey }

/-- One witness for every input. -/
def readWitnesses : List CTxIn → Reader (List CTxIn)
  | [] => pure []
  | txin :: vin => do
    let scriptWitness ← readVector readByteVector
    let rest ← readWitnesses vin
    pure ({ txin with scriptWitness } :: rest)

/-- `UnserializeTransaction`. An empty input vector announces the flags. -/
def CTransaction.deserialize (allowWitness : Bool) : Reader CTransaction := do
  let version ← readUInt32
  let vin ← readVector CTxIn.read
  if vin.isEmpty && allowWitness then
    let flags ← readLe 1
    if flags ≠ 0 then
      let vin ← readVector CTxIn.read
      let vout ← readVector CTxOut.read
      readGuard (flags == 1)
      let vin ← readWitnesses vin
      readGuard (CTransaction.hasWitness { version, vin, vout })
      let nLockTime ← readUInt32
      pure { version, vin, vout, nLockTime }
    else
      let nLockTime ← readUInt32
      pure { version, vin := [], vout := [], nLockTime }
  else
    let vout ← readVector CTxOut.read
    let nLockTime ← readUInt32
    pure { version, vin, vout, nLockTime }

/-! ## Round trips -/

section RoundTrips

variable {α β : Type} {input rest : Bytes} {size : Nat}

theorem reads_readCanonical {width least number : Nat} (fits : number < 256 ^ width)
    (wide : least ≤ number) : Reads (readCanonical width least) (leBytes width number) number :=
  Reads.andThen (reads_readLe fits) (Reads.guard (decide_eq_true wide) (Reads.pure number))

theorem reads_mark (byte : UInt8) : Reads (readLe 1) [byte] byte.toNat := by
  have fits : byte.toNat < 256 ^ 1 := byte.toNat_lt
  simpa [leBytes] using reads_readLe fits

theorem reads_readCompactSize (fits : size ≤ MAX_SIZE) :
    Reads readCompactSize (writeCompactSize size) size := by
  have finish : Reads (do readGuard (decide (size ≤ MAX_SIZE)); pure size) [] size :=
    Reads.guard (decide_eq_true fits) (Reads.pure size)
  have bounded : size ≤ 0x02000000 := fits
  unfold writeCompactSize
  split
  · next small =>
      have fits : size < 256 ^ 1 := by omega
      refine Reads.andThen (reads_readLe fits) ?_
      rw [if_pos small]
      exact finish
  · split
    · next wide narrow =>
        have fits : size < 256 ^ 2 := by omega
        have wide : 253 ≤ size := by omega
        exact Reads.bind (reads_mark 253) (Reads.andThen (reads_readCanonical fits wide) finish)
    next wide =>
      have fits : size < 256 ^ 4 := by omega
      have wide : 0x10000 ≤ size := by omega
      rw [if_pos (by omega)]
      exact Reads.bind (reads_mark 254) (Reads.andThen (reads_readCanonical fits wide) finish)

theorem readCanonical_eq_some {width least : Nat} (read : readCanonical width least input = some (size, rest)) :
    least ≤ size ∧ size < 256 ^ width ∧ input = leBytes width size ++ rest := by
  obtain ⟨number, middle, stored, read⟩ := bind_eq_some read
  obtain ⟨wide, read⟩ := guard_eq_some read
  cases read
  exact ⟨of_decide_eq_true wide, readLe_eq_some stored⟩

theorem readCompactSize_eq_some (read : readCompactSize input = some (size, rest)) :
    size ≤ MAX_SIZE ∧ input = writeCompactSize size ++ rest := by
  obtain ⟨chSize, middle, mark, branch⟩ := bind_eq_some read
  obtain ⟨_, rfl⟩ := readLe_eq_some mark
  have checked : ∀ {reader : Reader Nat}, (do
      let nSizeRet ← reader
      readGuard (decide (nSizeRet ≤ MAX_SIZE))
      pure nSizeRet) middle = some (size, rest) → size ≤ 0x02000000 ∧ reader middle = some (size, rest) := by
    intro reader read
    obtain ⟨nSizeRet, after, sized, read⟩ := bind_eq_some read
    obtain ⟨bounded, read⟩ := guard_eq_some read
    cases read
    exact ⟨of_decide_eq_true bounded, sized⟩
  unfold writeCompactSize
  dsimp only at branch
  split at branch
  next small =>
    obtain ⟨bounded, sized⟩ := checked branch
    cases sized
    exact ⟨bounded, by rw [if_pos small]⟩
  next =>
    split at branch
    next second =>
      obtain ⟨bounded, sized⟩ := checked branch
      obtain ⟨wide, fits, rfl⟩ := readCanonical_eq_some sized
      refine ⟨bounded, ?_⟩
      rw [if_neg (not_lt.mpr wide), if_pos (by omega), second]
      rfl
    next =>
      split at branch
      next third =>
        obtain ⟨bounded, sized⟩ := checked branch
        obtain ⟨wide, fits, rfl⟩ := readCanonical_eq_some sized
        refine ⟨bounded, ?_⟩
        rw [if_neg (by omega), if_neg (by omega), if_pos (by omega), third]
        rfl
      next =>
        obtain ⟨bounded, sized⟩ := checked branch
        obtain ⟨wide, _⟩ := readCanonical_eq_some sized
        omega

/-- Both integer codes have one encoding for every value: what was written is read back and
nothing behind it, and whatever is read was written for the value it gives. -/
theorem integer_encodings_canonical :
    (∀ number < 2 ^ 64, Reads (readVarInt (2 ^ 64 - 1)) (writeVarInt number) number) ∧
    (∀ size ≤ MAX_SIZE, Reads readCompactSize (writeCompactSize size) size) ∧
    (∀ input number rest, readVarInt (2 ^ 64 - 1) input = some (number, rest) →
      number < 2 ^ 64 ∧ input = writeVarInt number ++ rest) ∧
    (∀ input size rest, readCompactSize input = some (size, rest) →
      size ≤ MAX_SIZE ∧ input = writeCompactSize size ++ rest) := by
  refine ⟨fun number small => reads_readVarInt small (Nat.le_sub_one_of_lt small),
    fun size fits => reads_readCompactSize fits, fun input number rest read => ?_,
    fun input size rest read => readCompactSize_eq_some read⟩
  obtain ⟨fits, whole⟩ := readVarInt_eq_some (by decide) (by decide) read
  exact ⟨by omega, whole⟩

theorem reads_readVector {item : Reader β} {write : α → Bytes} {convert : α → β} {items : List α}
    (fits : items.length ≤ MAX_SIZE) (decoded : ∀ value ∈ items, Reads item (write value) (convert value)) :
    Reads (readVector item) (serializeVector write items) (items.map convert) :=
  Reads.bind (reads_readCompactSize fits) (reads_readMany decoded)

theorem reads_readByteVector {bytes : Bytes} (fits : bytes.length ≤ MAX_SIZE) :
    Reads readByteVector (serializeBytes bytes) bytes :=
  Reads.bind (reads_readCompactSize fits) (reads_readBytes bytes)

theorem reads_readUInt32 (value : UInt32) : Reads readUInt32 (leBytes 4 value.toNat) value := by
  have fits : value.toNat < 256 ^ 4 := value.toNat_lt
  refine Reads.andThen (reads_readLe fits) ?_
  rw [UInt32.ofNat_toNat]
  exact Reads.pure value

theorem reads_readInt64 {value : Int} (low : -2 ^ 63 ≤ value) (high : value < 2 ^ 63) :
    Reads readInt64 (leBytes 8 (value % 2 ^ 64).toNat) value := by
  have fits : (value % 2 ^ 64).toNat < 256 ^ 8 := by omega
  have back : wrap64 ((value % 2 ^ 64).toNat : Int) = value := by
    rw [Int.toNat_of_nonneg (Int.emod_nonneg _ (by decide)), wrap64, Int.bmod_def]
    omega
  refine Reads.andThen (reads_readLe fits) ?_
  rw [back]
  exact Reads.pure value

theorem COutPoint.reads_read (outpoint : COutPoint) : Reads read outpoint.serialize outpoint :=
  Reads.bind outpoint.hash.reads_read (Reads.andThen (reads_readUInt32 outpoint.n) (Reads.pure _))

end RoundTrips

/-! ## Transactions -/

def CTxIn.withoutWitness (txin : CTxIn) : CTxIn := { txin with scriptWitness := [] }

/-- The data the identifier of a transaction is hashed from. -/
def CTransaction.withoutWitness (tx : CTransaction) : CTransaction :=
  { tx with vin := tx.vin.map CTxIn.withoutWitness }

/-- Lengths that can be read back, and amounts of the type they have. -/
structure CTransaction.Encodable (tx : CTransaction) : Prop where
  vin : tx.vin.length ≤ MAX_SIZE
  vout : tx.vout.length ≤ MAX_SIZE
  scriptSig : ∀ txin ∈ tx.vin, txin.scriptSig.length ≤ MAX_SIZE
  scriptPubKey : ∀ txout ∈ tx.vout, txout.scriptPubKey.length ≤ MAX_SIZE
  amounts : ∀ txout ∈ tx.vout, -2 ^ 63 ≤ txout.nValue ∧ txout.nValue < 2 ^ 63

structure CTransaction.WitnessEncodable (tx : CTransaction) : Prop where
  stack : ∀ txin ∈ tx.vin, txin.scriptWitness.length ≤ MAX_SIZE
  items : ∀ txin ∈ tx.vin, ∀ item ∈ txin.scriptWitness, item.length ≤ MAX_SIZE

theorem CTxIn.reads_read {txin : CTxIn} (fits : txin.scriptSig.length ≤ MAX_SIZE) :
    Reads read txin.serialize txin.withoutWitness := by
  rw [serialize, List.append_assoc]
  refine Reads.bind txin.prevout.reads_read (Reads.bind (reads_readByteVector fits) ?_)
  exact Reads.andThen (reads_readUInt32 txin.nSequence) (Reads.pure _)

theorem CTxOut.reads_read {txout : CTxOut} (fits : txout.scriptPubKey.length ≤ MAX_SIZE)
    (amount : -2 ^ 63 ≤ txout.nValue ∧ txout.nValue < 2 ^ 63) : Reads read txout.serialize txout :=
  Reads.bind (reads_readInt64 amount.1 amount.2) (Reads.andThen (reads_readByteVector fits) (Reads.pure _))

theorem reads_readWitnesses {vin : List CTxIn} (stack : ∀ txin ∈ vin, txin.scriptWitness.length ≤ MAX_SIZE)
    (items : ∀ txin ∈ vin, ∀ item ∈ txin.scriptWitness, item.length ≤ MAX_SIZE) :
    Reads (readWitnesses (vin.map CTxIn.withoutWitness))
      (vin.flatMap fun txin => serializeVector serializeBytes txin.scriptWitness) vin := by
  induction vin with
  | nil => exact Reads.pure []
  | cons txin vin ih =>
    rw [List.flatMap_cons]
    have own : Reads (readVector readByteVector) (serializeVector serializeBytes txin.scriptWitness)
        txin.scriptWitness := by
      have read := reads_readVector (stack txin (.head _))
        fun item member => reads_readByteVector (items txin (.head _) item member)
      rwa [List.map_id''] at read
      exact fun _ => rfl
    have rest := ih (List.forall_mem_cons.mp stack).2
      (List.forall_mem_cons.mp items).2
    exact Reads.bind own (Reads.andThen rest (Reads.pure _))

theorem withoutWitness_of_bare {tx : CTransaction} (bare : tx.hasWitness = false) : tx.withoutWitness = tx := by
  have same : tx.vin.map CTxIn.withoutWitness = tx.vin := by
    conv_rhs => rw [← List.map_id tx.vin]
    apply List.map_congr_left
    intro txin member
    have empty : txin.scriptWitness = [] := by
      have checked := List.any_eq_false.mp bare txin member
      simpa using checked
    rw [CTxIn.withoutWitness, ← empty, id]
  rw [CTransaction.withoutWitness, same]

namespace CTransaction.Encodable

variable {tx : CTransaction} (encodable : tx.Encodable)

include encodable

theorem reads_vin : Reads (readVector CTxIn.read) (serializeVector CTxIn.serialize tx.vin)
    (tx.vin.map CTxIn.withoutWitness) :=
  reads_readVector encodable.vin fun txin member => CTxIn.reads_read (encodable.scriptSig txin member)

theorem reads_vout : Reads (readVector CTxOut.read) (serializeVector CTxOut.serialize tx.vout)
    tx.vout := by
  have read := reads_readVector encodable.vout fun txout member =>
    CTxOut.reads_read (encodable.scriptPubKey txout member) (encodable.amounts txout member)
  rwa [List.map_id''] at read
  exact fun _ => rfl

theorem reads_stripped : Reads (CTransaction.deserialize false) (tx.serialize false)
    tx.withoutWitness := by
  have written : tx.serialize false = leBytes 4 tx.version.toNat ++ (serializeVector CTxIn.serialize tx.vin ++
        (serializeVector CTxOut.serialize tx.vout ++ leBytes 4 tx.nLockTime.toNat)) := by
    simp [CTransaction.serialize]
  rw [written]
  refine Reads.bind (reads_readUInt32 tx.version) (Reads.bind encodable.reads_vin ?_)
  rw [Bool.and_false, if_neg Bool.false_ne_true]
  refine Reads.bind encodable.reads_vout ?_
  exact Reads.andThen (reads_readUInt32 tx.nLockTime) (Reads.pure _)

theorem reads_full (witness : tx.WitnessEncodable) (inputs : tx.vin ≠ []) :
    Reads (CTransaction.deserialize true) (tx.serialize true) tx := by
  have some : (tx.vin.map CTxIn.withoutWitness).isEmpty = false := by
    simpa using inputs
  cases extended : tx.hasWitness with
  | false =>
    have written : tx.serialize true = leBytes 4 tx.version.toNat ++ (serializeVector CTxIn.serialize tx.vin ++
          (serializeVector CTxOut.serialize tx.vout ++ leBytes 4 tx.nLockTime.toNat)) := by
      simp [CTransaction.serialize, extended]
    have bare := withoutWitness_of_bare extended
    rw [written]
    refine Reads.bind (reads_readUInt32 tx.version) (Reads.bind encodable.reads_vin ?_)
    rw [some, Bool.false_and, if_neg Bool.false_ne_true]
    refine Reads.bind encodable.reads_vout ?_
    refine Reads.andThen (reads_readUInt32 tx.nLockTime) ?_
    have finished : Reads (pure tx.withoutWitness) [] tx := by
      rw [bare]
      exact Reads.pure tx
    exact finished
  | true =>
    have written : tx.serialize true = leBytes 4 tx.version.toNat ++
        (serializeVector CTxIn.serialize [] ++ ([1] ++ (serializeVector CTxIn.serialize tx.vin ++
            (serializeVector CTxOut.serialize tx.vout ++
              ((tx.vin.flatMap fun txin => serializeVector serializeBytes txin.scriptWitness) ++
                leBytes 4 tx.nLockTime.toNat))))) := by
      simp [CTransaction.serialize, extended, serializeVector]
    have dummy : Reads (readVector CTxIn.read) (serializeVector CTxIn.serialize []) [] :=
      Reads.bind (reads_readCompactSize (Nat.zero_le _)) (Reads.pure [])
    rw [written]
    refine Reads.bind (reads_readUInt32 tx.version) (Reads.bind dummy ?_)
    rw [List.isEmpty_nil, Bool.true_and, if_pos rfl]
    refine Reads.bind (reads_mark 1) ?_
    rw [if_pos (by decide)]
    refine Reads.bind encodable.reads_vin (Reads.bind encodable.reads_vout ?_)
    refine Reads.guard rfl (Reads.bind (reads_readWitnesses witness.stack witness.items) ?_)
    refine Reads.guard extended ?_
    exact Reads.andThen (reads_readUInt32 tx.nLockTime) (Reads.pure _)

end CTransaction.Encodable

/-! ## Serializations fix transactions -/

section Lengths

variable {α : Type} {write : α → Bytes} {items : List α}

theorem length_le_flatMap {item : α} (member : item ∈ items) : (write item).length ≤ (items.flatMap write).length := by
  obtain ⟨before, after, rfl⟩ := List.append_of_mem member
  rw [List.flatMap_append, List.flatMap_cons, List.length_append, List.length_append]
  omega

theorem count_le_flatMap (written : ∀ item ∈ items, 0 < (write item).length) :
    items.length ≤ (items.flatMap write).length := by
  induction items with
  | nil => exact Nat.zero_le _
  | cons item items ih =>
    have own := written item (.head _)
    have rest := ih (List.forall_mem_cons.mp written).2
    rw [List.flatMap_cons, List.length_append, List.length_cons]
    omega

theorem flatMap_le_serializeVector : (items.flatMap write).length ≤ (serializeVector write items).length := by
  rw [serializeVector, List.length_append]
  omega

theorem length_le_serializeBytes (bytes : Bytes) : bytes.length ≤ (serializeBytes bytes).length := by
  rw [serializeBytes, List.length_append]
  omega

theorem serializeBytes_pos (bytes : Bytes) : 0 < (serializeBytes bytes).length := by
  have marked : 0 < (writeCompactSize bytes.length).length := by
    unfold writeCompactSize
    split <;> [skip; split <;> [skip; split]] <;> simp
  rw [serializeBytes, List.length_append]
  omega

end Lengths

namespace CTransaction

variable {tx other : CTransaction}

theorem encodable_of_length (fits : (tx.serialize false).length ≤ MAX_SIZE)
    (amounts : ∀ txout ∈ tx.vout, -2 ^ 63 ≤ txout.nValue ∧ txout.nValue < 2 ^ 63) : tx.Encodable := by
  have total : (serializeVector CTxIn.serialize tx.vin).length +
      (serializeVector CTxOut.serialize tx.vout).length ≤ MAX_SIZE := by
    simp only [serialize, Bool.false_and, Bool.false_eq_true, if_false, List.length_append] at fits
    omega
  have inputs := @flatMap_le_serializeVector _ CTxIn.serialize tx.vin
  have outputs := @flatMap_le_serializeVector _ CTxOut.serialize tx.vout
  have input : ∀ txin : CTxIn, txin.scriptSig.length < txin.serialize.length := by
    intro txin
    have script := length_le_serializeBytes txin.scriptSig
    rw [CTxIn.serialize, List.length_append, List.length_append, leBytes_length]
    omega
  have output : ∀ txout : CTxOut, txout.scriptPubKey.length < txout.serialize.length := by
    intro txout
    have script := length_le_serializeBytes txout.scriptPubKey
    rw [CTxOut.serialize, List.length_append, leBytes_length]
    omega
  refine ⟨?_, ?_, ?_, ?_, amounts⟩
  · have counted := count_le_flatMap fun (txin : CTxIn) (_ : txin ∈ tx.vin) =>
      Nat.lt_of_le_of_lt (Nat.zero_le _) (input txin)
    omega
  · have counted := count_le_flatMap fun (txout : CTxOut) (_ : txout ∈ tx.vout) =>
      Nat.lt_of_le_of_lt (Nat.zero_le _) (output txout)
    omega
  · intro txin member
    have own := @length_le_flatMap _ CTxIn.serialize _ _ member
    have script := input txin
    omega
  · intro txout member
    have own := @length_le_flatMap _ CTxOut.serialize _ _ member
    have script := output txout
    omega

theorem witnessEncodable_of_length (fits : (tx.serialize true).length ≤ MAX_SIZE) : tx.WitnessEncodable := by
  cases extended : tx.hasWitness with
  | false =>
    have empty : ∀ txin ∈ tx.vin, txin.scriptWitness = [] := by
      intro txin member
      simpa using List.any_eq_false.mp extended txin member
    constructor
    · intro txin member
      rw [empty txin member]
      exact Nat.zero_le _
    · intro txin member item listed
      rw [empty txin member] at listed
      cases listed
  | true =>
    have total : (tx.vin.flatMap fun txin =>
        serializeVector serializeBytes txin.scriptWitness).length ≤ MAX_SIZE := by
      simp only [serialize, extended, Bool.true_and, if_true, List.length_append] at fits
      omega
    have own : ∀ txin ∈ tx.vin, (txin.scriptWitness.flatMap serializeBytes).length ≤ MAX_SIZE := by
      intro txin member
      have one := @length_le_flatMap _
        (fun txin : CTxIn => serializeVector serializeBytes txin.scriptWitness) _ _ member
      have inner := @flatMap_le_serializeVector _ serializeBytes txin.scriptWitness
      omega
    constructor
    · intro txin member
      have counted := count_le_flatMap fun (item : Bytes) (_ : item ∈ txin.scriptWitness) =>
        serializeBytes_pos item
      have bound := own txin member
      omega
    · intro txin member item listed
      have one := @length_le_flatMap _ serializeBytes _ _ listed
      have inner := length_le_serializeBytes item
      have bound := own txin member
      omega

theorem serialize_eq_iff : tx.serialize true = tx.serialize false ↔ tx.hasWitness = false := by
  refine ⟨fun same => ?_, fun bare => by simp [serialize, bare]⟩
  by_contra witnessed
  have lengths := congrArg List.length same
  simp [serialize, Bool.not_eq_false _ ▸ witnessed] at lengths
  omega

theorem serialize_le (tx : CTransaction) : (tx.serialize false).length ≤ (tx.serialize true).length := by
  simp only [serialize, Bool.false_and, Bool.false_eq_true, if_false, List.length_append, List.length_nil]
  omega

theorem getWitnessHash_eq (sha256d : Bytes → Uint256) (tx : CTransaction) :
    tx.getWitnessHash sha256d = sha256d (tx.serialize true) := by
  unfold getWitnessHash
  split
  · rfl
  · next bare => rw [getHash, serialize_eq_iff.mpr (Bool.eq_false_iff.mpr bare)]

theorem withoutWitness_eq (encodable : tx.Encodable) (encodable' : other.Encodable)
    (same : tx.serialize false = other.serialize false) : tx.withoutWitness = other.withoutWitness :=
  Reads.unique encodable.reads_stripped encodable'.reads_stripped same

theorem eq_of_serialize (encodable : tx.Encodable) (encodable' : other.Encodable)
    (witness : tx.WitnessEncodable) (witness' : other.WitnessEncodable) (inputs : tx.vin ≠ [])
    (inputs' : other.vin ≠ []) (same : tx.serialize true = other.serialize true) : tx = other :=
  Reads.unique (encodable.reads_full witness inputs) (encodable'.reads_full witness' inputs') same

/-- A transaction of a size that can be read comes back from its serialization, whatever
follows it. The extended format is written if it has a witness; in the other one it comes back without. -/
theorem deserialize_serialize (fits : (tx.serialize true).length ≤ MAX_SIZE) (inputs : tx.vin ≠ [])
    (amounts : ∀ txout ∈ tx.vout, -2 ^ 63 ≤ txout.nValue ∧ txout.nValue < 2 ^ 63) :
    Reads (deserialize true) (tx.serialize true) tx ∧
      (tx.serialize true = tx.serialize false ↔ tx.hasWitness = false) ∧
      Reads (deserialize false) (tx.serialize false) tx.withoutWitness := by
  have encodable := encodable_of_length (tx.serialize_le.trans fits) amounts
  exact ⟨encodable.reads_full (witnessEncodable_of_length fits) inputs, serialize_eq_iff, encodable.reads_stripped⟩

def witnessedTx : CTransaction :=
  { vin := [{ prevout := .null, scriptWitness := [[1, 2]] }], vout := [{ nValue := 5 }] }

theorem deserialize_serialize_witnessed : witnessedTx.serialize true ≠ witnessedTx.serialize false ∧
      Reads (deserialize true) (witnessedTx.serialize true) witnessedTx ∧
      Reads (deserialize false) (witnessedTx.serialize false) witnessedTx.withoutWitness :=
  have ⟨full, format, stripped⟩ := deserialize_serialize (by decide) (by decide) (by decide)
  ⟨fun same => absurd (format.mp same) (by decide), full, stripped⟩

end CTransaction

end Sharecoin
