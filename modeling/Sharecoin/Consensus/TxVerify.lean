import Sharecoin.Chain.BlockIndex
import Sharecoin.Coins.ViewProgram
import Sharecoin.Script.SigOps

/-! The consensus checks on one transaction: those on the transaction alone, its
relative lock times, its signature operations, and its inputs against a coins view. -/

set_option autoImplicit false

namespace Sharecoin

open Lib Program

inductive TxValidationResult where
  | txConsensus
  | txMissingInputs
  | txPrematureSpend
deriving DecidableEq

structure TxReject where
  result : TxValidationResult
  rejectReason : String
  debugMessage : String := ""
deriving DecidableEq

/-! ## The transaction alone -/

def txCheck (holds : Bool) (rejectReason : String) : Except TxReject Unit :=
  if holds then .ok () else .error ⟨.txConsensus, rejectReason, ""⟩

def checkOutputValues : List CTxOut → Int → Except TxReject Unit
  | [], _ => .ok ()
  | txout :: vout, nValueOut => do
    txCheck (0 ≤ txout.nValue) "bad-txns-vout-negative"
    txCheck (txout.nValue ≤ MAX_MONEY) "bad-txns-vout-toolarge"
    txCheck (moneyRange (wrap64 (nValueOut + txout.nValue))) "bad-txns-txouttotal-toolarge"
    checkOutputValues vout (wrap64 (nValueOut + txout.nValue))

def checkInputKinds (tx : CTransaction) : Except TxReject Unit :=
  if tx.isCoinBase then
    let size := (tx.vin.headD {}).scriptSig.length
    txCheck (2 ≤ size && size ≤ 100) "bad-cb-length"
  else txCheck (tx.vin.all fun txin => !txin.prevout.isNull) "bad-txns-prevout-null"

def checkTransaction (tx : CTransaction) : Except TxReject Unit := do
  txCheck (!tx.vin.isEmpty) "bad-txns-vin-empty"
  txCheck (!tx.vout.isEmpty) "bad-txns-vout-empty"
  txCheck ((tx.serialize false).length * WITNESS_SCALE_FACTOR ≤ MAX_BLOCK_WEIGHT) "bad-txns-oversize"
  checkOutputValues tx.vout 0
  txCheck (decide (tx.vin.map CTxIn.prevout).Nodup) "bad-txns-inputs-duplicate"
  checkInputKinds tx

/-! ## Relative lock times -/

namespace CTxIn

def SEQUENCE_LOCKTIME_DISABLE_FLAG : UInt32 := 0x80000000
def SEQUENCE_LOCKTIME_TYPE_FLAG : UInt32 := 0x00400000
def SEQUENCE_LOCKTIME_MASK : UInt32 := 0x0000ffff
def SEQUENCE_LOCKTIME_GRANULARITY : Nat := 9

end CTxIn

structure LockPair where
  nMinHeight : Int := -1
  nMinTime : Int := -1
deriving DecidableEq

section SequenceLocks

variable (blocks : BlockMap) (block : Uint256)

/-- One input spending a coin of height `nCoinHeight`. `none` is the failed assertion
on a missing ancestor. -/
def lockInput (txin : CTxIn) (nCoinHeight : Int) (locks : LockPair) : Option LockPair :=
  let masked : Nat := (txin.nSequence &&& CTxIn.SEQUENCE_LOCKTIME_MASK).toNat
  if txin.nSequence &&& CTxIn.SEQUENCE_LOCKTIME_DISABLE_FLAG ≠ 0 then some locks
  else if txin.nSequence &&& CTxIn.SEQUENCE_LOCKTIME_TYPE_FLAG ≠ 0 then do
    let ancestor ← getAncestor blocks block (max (nCoinHeight - 1) 0)
    let nCoinTime := getMedianTimePast blocks ancestor
    let relative : Nat := (masked <<< CTxIn.SEQUENCE_LOCKTIME_GRANULARITY) % 2 ^ 32
    some { locks with nMinTime := max locks.nMinTime (wrap64 (nCoinTime + relative - 1)) }
  else some { locks with nMinHeight := max locks.nMinHeight (wrap32 (nCoinHeight + masked - 1)) }

def lockInputs : List (CTxIn × Int) → LockPair → Option LockPair
  | [], locks => some locks
  | (txin, nCoinHeight) :: inputs, locks => do
    let locks ← lockInput blocks block txin nCoinHeight locks
    lockInputs inputs locks

/-- `CalculateSequenceLocks` at the block `block`, without the heights it blanks for
its other callers. -/
def calculateSequenceLocks (tx : CTransaction) (verifySequence : Bool) (prevHeights : List Int) : Option LockPair :=
  if tx.version ≥ 2 ∧ verifySequence then lockInputs blocks block (tx.vin.zip prevHeights) {}
  else some {}

def evaluateSequenceLocks (locks : LockPair) : Option Bool := do
  let entry ← blocks.lookup block
  let pprev ← entry.pprev
  some (!(decide (locks.nMinHeight ≥ entry.nHeight) || decide (locks.nMinTime ≥ getMedianTimePast blocks pprev)))

def sequenceLocks (tx : CTransaction) (verifySequence : Bool) (prevHeights : List Int) : Option Bool := do
  let locks ← calculateSequenceLocks blocks block tx verifySequence prevHeights
  evaluateSequenceLocks blocks block locks

end SequenceLocks

/-! ## Signature operations -/

def getLegacySigOpCount (tx : CTransaction) : Nat :=
  (tx.vin.map fun txin => CScript.getSigOpCount false txin.scriptSig).sum +
    (tx.vout.map fun txout => CScript.getSigOpCount false txout.scriptPubKey).sum

def redeemSigOps (txin : CTxIn) (prevout : CTxOut) : Nat :=
  if CScript.isPayToScriptHash prevout.scriptPubKey then
    CScript.getRedeemSigOpCount prevout.scriptPubKey txin.scriptSig
  else 0

variable {φ : Type}

def getP2SHSigOpCount (tx : CTransaction) : ViewM φ Nat :=
  if tx.isCoinBase then pure 0
  else do
    let prevouts ← ViewM.spentOutputs tx.vin
    pure (List.zipWith redeemSigOps tx.vin prevouts).sum

def getTransactionSigOpCost (flags : ScriptFlags) (tx : CTransaction) : ViewM φ Nat :=
  let nSigOps := getLegacySigOpCount tx * WITNESS_SCALE_FACTOR
  if tx.isCoinBase then pure nSigOps
  else do
    let redeemed ← (if flags.p2sh then getP2SHSigOpCount tx else pure 0)
    let prevouts ← ViewM.spentOutputs tx.vin
    let witnessed := List.zipWith (fun txin prevout =>
        countWitnessSigOps flags txin.scriptSig prevout.scriptPubKey txin.scriptWitness)
      tx.vin prevouts
    pure (nSigOps + redeemed * WITNESS_SCALE_FACTOR + witnessed.sum)

/-! ## Inputs -/

def formatMoney (n : Int) : String :=
  let padded := (toString (n.tmod COIN).natAbs).toList.leftpad 8 '0'
  -- trailing zeros go, except the two after the decimal point
  let kept := padded.take 2 ++ ((padded.drop 2).reverse.dropWhile (· == '0')).reverse
  (if n < 0 then "-" else "") ++ toString (n.tdiv COIN).natAbs ++ "." ++ String.ofList kept

def sumInputs (nSpendHeight : Int) : List CTxIn → Int → ViewM TxReject Int
  | [], nValueIn => pure nValueIn
  | txin :: vin, nValueIn => do
    let coin ← ViewM.accessCoin txin.prevout
    insist (!coin.isSpent) (.assertion "!coin.IsSpent()")
    let depth := nSpendHeight - coin.nHeight.toNat
    require (!(coin.fCoinBase && decide (depth < COINBASE_MATURITY)))
      ⟨.txPrematureSpend, "bad-txns-premature-spend-of-coinbase", "tried to spend coinbase at depth " ++ toString depth⟩
    let nValueIn := wrap64 (nValueIn + coin.out.nValue)
    require (moneyRange coin.out.nValue && moneyRange nValueIn) ⟨.txConsensus, "bad-txns-inputvalues-outofrange", ""⟩
    sumInputs nSpendHeight vin nValueIn

/-- `Consensus::CheckTxInputs`; returns the fee. -/
def checkTxInputs (tx : CTransaction) (nSpendHeight : Int) : ViewM TxReject Int := do
  let available ← ViewM.haveInputs tx
  require available ⟨.txMissingInputs, "bad-txns-inputs-missingorspent", "CheckTxInputs: inputs missing/spent"⟩
  let nValueIn ← sumInputs nSpendHeight tx.vin 0
  match tx.getValueOut with
  | none => abort (.exception "GetValueOut: value out of range")
  | some valueOut => do
    require (valueOut ≤ nValueIn) ⟨.txConsensus, "bad-txns-in-belowout",
        "value in (" ++ formatMoney nValueIn ++ ") < value out (" ++ formatMoney valueOut ++ ")"⟩
    let txfeeAux := wrap64 (nValueIn - valueOut)
    require (moneyRange txfeeAux) ⟨.txConsensus, "bad-txns-fee-outofrange", ""⟩
    pure txfeeAux

end Sharecoin
