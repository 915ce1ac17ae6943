import Sharecoin.Script.Script

/-! Amounts and transactions: outpoints, inputs, outputs, their serialization with and without
witness, and the identifiers hashed from it. -/

set_option autoImplicit false

namespace Sharecoin

open Lib

/-! ## Amounts -/

def COIN : Int := 100000000

def MAX_MONEY : Int := 21000000 * COIN

def moneyRange (nValue : Int) : Bool := 0 ≤ nValue && nValue ≤ MAX_MONEY

theorem moneyRange_iff {nValue : Int} : moneyRange nValue = true ↔ 0 ≤ nValue ∧ nValue ≤ MAX_MONEY := by
  simp [moneyRange]

/-! ## Limits -/

def MAX_BLOCK_WEIGHT : Nat := 4000000
def MAX_BLOCK_SIGOPS_COST : Nat := 80000
def COINBASE_MATURITY : Int := 100
def WITNESS_SCALE_FACTOR : Nat := 4

/-! ## Serialized vectors -/

def writeCompactSize (nSize : Nat) : Bytes :=
  if nSize < 253 then leBytes 1 nSize
  else if nSize ≤ 0xffff then 253 :: leBytes 2 nSize
  else if nSize ≤ 0xffffffff then 254 :: leBytes 4 nSize
  else 255 :: leBytes 8 nSize

def serializeVector {α : Type} (write : α → Bytes) (items : List α) : Bytes :=
  writeCompactSize items.length ++ items.flatMap write

def serializeBytes (bytes : Bytes) : Bytes := writeCompactSize bytes.length ++ bytes

/-! ## Parts of a transaction -/

structure COutPoint where
  hash : Uint256
  n : UInt32
deriving DecidableEq

namespace COutPoint

def NULL_INDEX : UInt32 := 0xffffffff

def null : COutPoint := ⟨.zero, NULL_INDEX⟩

def isNull (outpoint : COutPoint) : Bool := outpoint.hash.isNull && outpoint.n == NULL_INDEX

def serialize (outpoint : COutPoint) : Bytes := outpoint.hash.data ++ leBytes 4 outpoint.n.toNat

end COutPoint

structure CTxIn where
  prevout : COutPoint := .null
  scriptSig : CScript := []
  nSequence : UInt32 := 0xffffffff
  scriptWitness : List Bytes := []
deriving DecidableEq

namespace CTxIn

def SEQUENCE_FINAL : UInt32 := 0xffffffff
def MAX_SEQUENCE_NONFINAL : UInt32 := SEQUENCE_FINAL - 1

def serialize (txin : CTxIn) : Bytes :=
  txin.prevout.serialize ++ serializeBytes txin.scriptSig ++ leBytes 4 txin.nSequence.toNat

end CTxIn

structure CTxOut where
  nValue : Int := -1
  scriptPubKey : CScript := []
deriving DecidableEq

namespace CTxOut

def isNull (txout : CTxOut) : Bool := txout.nValue == -1

def serialize (txout : CTxOut) : Bytes :=
  leBytes 8 (txout.nValue % 2 ^ 64).toNat ++ serializeBytes txout.scriptPubKey

end CTxOut

/-! ## Transactions -/

structure CTransaction where
  version : UInt32 := 2
  vin : List CTxIn := []
  vout : List CTxOut := []
  nLockTime : UInt32 := 0
deriving DecidableEq

namespace CTransaction

def hasWitness (tx : CTransaction) : Bool := tx.vin.any fun txin => !txin.scriptWitness.isEmpty

/-- `SerializeTransaction`. A witness is announced by an empty input vector and a
flag byte, and follows the outputs. -/
def serialize (allowWitness : Bool) (tx : CTransaction) : Bytes :=
  let extended := allowWitness && tx.hasWitness
  leBytes 4 tx.version.toNat ++ (if extended then writeCompactSize 0 ++ [1] else []) ++
    serializeVector CTxIn.serialize tx.vin ++ serializeVector CTxOut.serialize tx.vout ++
    (if extended then tx.vin.flatMap fun txin => serializeVector serializeBytes txin.scriptWitness
      else []) ++
    leBytes 4 tx.nLockTime.toNat

variable (sha256d : Bytes → Uint256)

def getHash (tx : CTransaction) : Uint256 := sha256d (tx.serialize false)

def getWitnessHash (tx : CTransaction) : Uint256 :=
  if tx.hasWitness then sha256d (tx.serialize true) else tx.getHash sha256d

def isCoinBase (tx : CTransaction) : Bool :=
  match tx.vin with
  | [txin] => txin.prevout.isNull
  | _ => false

/-- `GetValueOut`; `none` where it throws. -/
def getValueOut (tx : CTransaction) : Option Int :=
  tx.vout.foldlM (fun nValueOut txout =>
      if !moneyRange txout.nValue || !moneyRange (nValueOut + txout.nValue) then none
      else some (nValueOut + txout.nValue))
    0

end CTransaction

end Sharecoin
