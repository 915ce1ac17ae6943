import Sharecoin.Uint256

/-! Scripts as byte strings: the pushes a node composes itself, the scripts of
payment destinations, and which scripts can never be spent. -/

set_option autoImplicit false

namespace Sharecoin

open Lib

abbrev CScript := Bytes

def OP_0 : UInt8 := 0x00
def OP_PUSHDATA1 : UInt8 := 0x4c
def OP_PUSHDATA2 : UInt8 := 0x4d
def OP_PUSHDATA4 : UInt8 := 0x4e
def OP_1 : UInt8 := 0x51
def OP_RETURN : UInt8 := 0x6a
def OP_DUP : UInt8 := 0x76
def OP_EQUAL : UInt8 := 0x87
def OP_EQUALVERIFY : UInt8 := 0x88
def OP_HASH160 : UInt8 := 0xa9
def OP_CHECKSIG : UInt8 := 0xac

def MAX_SCRIPT_SIZE : Nat := 10000

/-- Lock times below it are heights, the others are times. -/
def LOCKTIME_THRESHOLD : UInt32 := 500000000

namespace CScript

def isUnspendable (script : CScript) : Bool :=
  script.head? == some OP_RETURN || script.length > MAX_SCRIPT_SIZE

/-! ## Pushes -/

def appendDataSize (script : CScript) (size : Nat) : CScript :=
  if size < OP_PUSHDATA1.toNat then script ++ leBytes 1 size
  else if size ≤ 0xff then script ++ OP_PUSHDATA1 :: leBytes 1 size
  else if size ≤ 0xffff then script ++ OP_PUSHDATA2 :: leBytes 2 size
  else script ++ OP_PUSHDATA4 :: leBytes 4 size

def pushData (script : CScript) (data : Bytes) : CScript :=
  appendDataSize script data.length ++ data

def pushOp (script : CScript) (opcode : UInt8) : CScript := script ++ [opcode]

/-- The base 256 digits of a number of at most `digits` bytes, lowest first and
without leading zeros. -/
def magnitude : Nat → Nat → Bytes
  | 0, _ => []
  | digits + 1, absvalue =>
    if absvalue = 0 then [] else UInt8.ofNat absvalue :: magnitude digits (absvalue / 256)

/-- `CScriptNum::serialize`: digits of the absolute value, with the sign in the
highest bit of the last byte. -/
def scriptNum (value : Int) : Bytes :=
  let result := magnitude 8 value.natAbs
  match result.getLast? with
  | none => []
  | some last =>
    if last &&& 0x80 ≠ 0 then result ++ [if value < 0 then 0x80 else 0]
    else if value < 0 then result.dropLast ++ [last ||| 0x80]
    else result

def pushInt64 (script : CScript) (n : Int) : CScript :=
  if n = -1 ∨ 1 ≤ n ∧ n ≤ 16 then script ++ [UInt8.ofNat (n + (OP_1.toNat - 1)).toNat]
  else if n = 0 then script ++ [OP_0]
  else pushData script (scriptNum n)

def encodeOpN (n : Fin 17) : UInt8 :=
  if n = 0 then OP_0 else UInt8.ofNat (OP_1.toNat + n - 1)

end CScript

/-! ## Destinations -/

/-- `CTxDestination`. Hashes and keys are the bytes their types hold; the witness
version of an unknown program is one `EncodeOP_N` accepts. -/
inductive CTxDestination where
  | noDestination (script : CScript)
  | pubKey (pubkey : Bytes)
  | pkHash (hash : BitVec 160)
  | scriptHash (hash : BitVec 160)
  | witnessV0ScriptHash (hash : Uint256)
  | witnessV0KeyHash (hash : BitVec 160)
  | witnessV1Taproot (key : Uint256)
  | payToAnchor
  | witnessUnknown (version : Fin 17) (program : Bytes)
deriving DecidableEq

def ANCHOR_BYTES : Bytes := [0x4e, 0x73]

def uint160Bytes (hash : BitVec 160) : Bytes := leBytes 20 hash.toNat

open CScript in
def getScriptForDestination : CTxDestination → CScript
  | .noDestination script => script
  | .pubKey pubkey => pushOp (pushData [] pubkey) OP_CHECKSIG
  | .pkHash hash =>
    pushOp (pushOp (pushData [OP_DUP, OP_HASH160] (uint160Bytes hash)) OP_EQUALVERIFY) OP_CHECKSIG
  | .scriptHash hash => pushOp (pushData [OP_HASH160] (uint160Bytes hash)) OP_EQUAL
  | .witnessV0ScriptHash hash => pushData [OP_0] hash.data
  | .witnessV0KeyHash hash => pushData [OP_0] (uint160Bytes hash)
  | .witnessV1Taproot key => pushData [OP_1] key.data
  | .payToAnchor => pushData [encodeOpN 1] ANCHOR_BYTES
  | .witnessUnknown version program => pushData [encodeOpN version] program

def isValidDestination : CTxDestination → Bool
  | .noDestination _ => false
  | .pubKey _ => false
  | _ => true

end Sharecoin
