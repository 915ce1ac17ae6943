import Sharecoin.Script.Script

/-! Reading a script operation by operation, and counting the signature checks it
may ask for. The loops run on a count of turns; every turn consumes at least the
opcode, so the length of the script is turns enough. -/

set_option autoImplicit false

namespace Sharecoin

open Lib

def OP_16 : UInt8 := 0x60
def OP_CHECKSIGVERIFY : UInt8 := 0xad
def OP_CHECKMULTISIG : UInt8 := 0xae
def OP_CHECKMULTISIGVERIFY : UInt8 := 0xaf
def OP_INVALIDOPCODE : UInt8 := 0xff

def MAX_PUBKEYS_PER_MULTISIG : Nat := 20
def WITNESS_V0_KEYHASH_SIZE : Nat := 20
def WITNESS_V0_SCRIPTHASH_SIZE : Nat := 32

/-- The flags of `GetBlockScriptFlags` that counting reads. No rule set has witness
programs without pay-to-script-hash. -/
structure ScriptFlags where
  p2sh : Bool
  witness : Bool
  p2sh_of_witness : witness = true → p2sh = true
deriving DecidableEq

namespace CScript

def sizeWidth (opcode : UInt8) : Nat :=
  if opcode < OP_PUSHDATA1 then 0
  else if opcode = OP_PUSHDATA1 then 1
  else if opcode = OP_PUSHDATA2 then 2
  else 4

def pushSize (opcode : UInt8) (rest : Bytes) : Nat :=
  if opcode < OP_PUSHDATA1 then opcode.toNat else ofLeBytes (rest.take (sizeWidth opcode))

/-- `GetScriptOp`: the opcode, what it pushes and the rest of the script. `none`
where it returns false. -/
def getOp : CScript → Option (UInt8 × Bytes × CScript)
  | [] => none
  | opcode :: rest =>
    if opcode ≤ OP_PUSHDATA4 then
      let operand := rest.drop (sizeWidth opcode)
      let nSize := pushSize opcode rest
      if rest.length < sizeWidth opcode ∨ operand.length < nSize then none
      else some (opcode, operand.take nSize, operand.drop nSize)
    else some (opcode, [], rest)

variable {script data rest : CScript}

theorem getOp_eq_some {opcode : UInt8} (read : getOp script = some (opcode, data, rest)) :
    ∃ operand, script = opcode :: (operand ++ rest) := by
  unfold getOp at read
  split at read
  · cases read
  next first tail =>
    split at read
    · dsimp only at read
      split at read
      · cases read
      · cases read
        refine ⟨tail.take (sizeWidth opcode + pushSize opcode tail), ?_⟩
        rw [List.drop_drop, List.take_append_drop]
    · cases read
      exact ⟨[], rfl⟩

theorem getOp_length {opcode : UInt8}
    (read : getOp script = some (opcode, data, rest)) : rest.length < script.length := by
  obtain ⟨operand, rfl⟩ := getOp_eq_some read
  rw [List.length_cons, List.length_append]
  omega

def decodeOpN (opcode : UInt8) : Nat := if opcode = OP_0 then 0 else opcode.toNat - (OP_1.toNat - 1)

def sigOpsOf (fAccurate : Bool) (lastOpcode opcode : UInt8) : Nat :=
  if opcode = OP_CHECKSIG ∨ opcode = OP_CHECKSIGVERIFY then 1
  else if opcode = OP_CHECKMULTISIG ∨ opcode = OP_CHECKMULTISIGVERIFY then
    if fAccurate ∧ OP_1 ≤ lastOpcode ∧ lastOpcode ≤ OP_16 then decodeOpN lastOpcode
    else MAX_PUBKEYS_PER_MULTISIG
  else 0

def sigOpLoop (fAccurate : Bool) : Nat → CScript → UInt8 → Nat → Nat
  | 0, _, _, n => n
  | turns + 1, script, lastOpcode, n =>
    match getOp script with
    | none => n
    | some (opcode, _, rest) =>
      sigOpLoop fAccurate turns rest opcode (n + sigOpsOf fAccurate lastOpcode opcode)

def getSigOpCount (fAccurate : Bool) (script : CScript) : Nat :=
  sigOpLoop fAccurate script.length script OP_INVALIDOPCODE 0

/-- What the last operation of a script pushes; `none` where an operation cannot be
read or does more than push. -/
def lastPush : Nat → CScript → Bytes → Option Bytes
  | 0, _, data => some data
  | _ + 1, [], data => some data
  | turns + 1, script, _ =>
    match getOp script with
    | none => none
    | some (opcode, data, rest) => if opcode > OP_16 then none else lastPush turns rest data

def isPushOnly (script : CScript) : Bool := (lastPush script.length script []).isSome

def isPayToScriptHash (script : CScript) : Bool :=
  script.length == 23 && script[0]? == some OP_HASH160 && script[1]? == some 0x14 && script[22]? == some OP_EQUAL

def getRedeemSigOpCount (script scriptSig : CScript) : Nat :=
  if isPayToScriptHash script then
    match lastPush scriptSig.length scriptSig [] with
    | none => 0
    | some subscript => getSigOpCount true subscript
  else getSigOpCount true script

def isWitnessProgram (script : CScript) : Option (Nat × Bytes) :=
  match script with
  | opcode :: size :: program =>
    if script.length < 4 ∨ script.length > 42 then none
    else if opcode ≠ OP_0 ∧ (opcode < OP_1 ∨ opcode > OP_16) then none
    else if size.toNat + 2 = script.length then some (decodeOpN opcode, program)
    else none
  | _ => none

end CScript

def witnessSigOps (witversion : Nat) (witprogram : Bytes) (witness : List Bytes) : Nat :=
  if witversion = 0 then
    if witprogram.length = WITNESS_V0_KEYHASH_SIZE then 1
    else if witprogram.length = WITNESS_V0_SCRIPTHASH_SIZE then
      match witness.getLast? with
      | some subscript => CScript.getSigOpCount true subscript
      | none => 0
    else 0
  else 0

def countWitnessSigOps (flags : ScriptFlags) (scriptSig scriptPubKey : CScript) (witness : List Bytes) : Nat :=
  if !flags.witness then 0
  else
    match CScript.isWitnessProgram scriptPubKey with
    | some (witnessversion, witnessprogram) => witnessSigOps witnessversion witnessprogram witness
    | none =>
      if CScript.isPayToScriptHash scriptPubKey && CScript.isPushOnly scriptSig then
        match (CScript.lastPush scriptSig.length scriptSig []).bind CScript.isWitnessProgram with
        | some (witnessversion, witnessprogram) =>
          witnessSigOps witnessversion witnessprogram witness
        | none => 0
      else 0

end Sharecoin
