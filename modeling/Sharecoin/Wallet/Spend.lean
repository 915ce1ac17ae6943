import Sharecoin.Policy.FeeRate

/-! How the wallet pays for a transaction: the sizes it expects of inputs and of the finished
transaction, the change it takes out of a selection of coins, and the fee it leaves.

Coin selection, fee estimation, address reservation and randomness are answers of the
environment, and so are the descriptors that the wallet infers for scripts. The model ends where
the fee is settled, before the transaction is signed. -/

set_option autoImplicit false

namespace Sharecoin.Wallet

open Lib

/-! ## Sizes -/

def getSizeOfCompactSize (nSize : Nat) : Int :=
  if nSize < 253 then 1
  else if nSize ≤ 0xffff then 1 + 2
  else if nSize ≤ 0xffffffff then 1 + 4
  else 1 + 8

def getSigOpsAdjustedWeight (weight sigopCost bytesPerSigop : Int) : Int :=
  max weight (sigopCost * bytesPerSigop)

def getVirtualTransactionSize (nWeight nSigOpCost bytesPerSigop : Int) : Int :=
  (getSigOpsAdjustedWeight nWeight nSigOpCost bytesPerSigop + WITNESS_SCALE_FACTOR - 1).tdiv WITNESS_SCALE_FACTOR

inductive OutputType where
  | LEGACY | P2SH_SEGWIT | BECH32 | BECH32M | UNKNOWN
deriving DecidableEq

/-- What the wallet asks a descriptor. -/
structure Descriptor where
  getOutputType : Option OutputType
  maxSatisfactionWeight : (useMaxSig : Bool) → Option Int
  maxSatisfactionElems : Option Nat

structure PreselectedInput where
  txout : Option CTxOut := none
  weight : Option Int := none
  sequence : Option UInt32 := none
  scriptSig : Option CScript := none
  scriptWitness : Option (List Bytes) := none
  pos : Option Nat := none

structure CCoinControl where
  selected : List (COutPoint × PreselectedInput) := []
  selectionPos : Nat := 0
  version : UInt32 := 2
  locktime : Option UInt32 := none
  signalBip125Rbf : Option Bool := none
  maxTxWeight : Option Int := none
  feerate : Option CFeeRate := none

namespace CCoinControl

variable (coinControl : CCoinControl)

def hasSelected : Bool := !coinControl.selected.isEmpty

def hasSelectedOrder : Bool := 0 < coinControl.selectionPos

def find (outpoint : COutPoint) : Option PreselectedInput := coinControl.selected.lookup outpoint

def isExternalSelected (outpoint : COutPoint) : Bool :=
  (coinControl.find outpoint).any fun input => input.txout.isSome

def getExternalOutput (outpoint : COutPoint) : Option CTxOut :=
  (coinControl.find outpoint).bind (·.txout)

def getInputWeight (outpoint : COutPoint) : Option Int :=
  (coinControl.find outpoint).bind (·.weight)

def getSequence (outpoint : COutPoint) : Option UInt32 :=
  (coinControl.find outpoint).bind (·.sequence)

def getSelectionPos (outpoint : COutPoint) : Option Nat :=
  (coinControl.find outpoint).bind (·.pos)

end CCoinControl

def isSegwit (desc : Descriptor) : Bool := desc.getOutputType.any (· ≠ .LEGACY)

def useMaxSig (txin : Option CTxIn) (coinControl : Option CCoinControl) : Bool :=
  coinControl.any fun coinControl => txin.any fun txin => coinControl.isExternalSelected txin.prevout

def maxInputWeight (desc : Descriptor) (txin : Option CTxIn) (coinControl : Option CCoinControl)
    (txIsSegwit canGrindR : Bool) : Option Int := do
  let satWeight ← desc.maxSatisfactionWeight (!canGrindR || useMaxSig txin coinControl)
  let elemsCount ← desc.maxSatisfactionElems
  let scriptsigLen :=
    if isSegwit desc then 1
    else getSizeOfCompactSize (satWeight.tdiv WITNESS_SCALE_FACTOR).toNat
  let witstackLen := if isSegwit desc then getSizeOfCompactSize elemsCount else if txIsSegwit then 1 else 0
  some ((32 + 4 + 4 + scriptsigLen) * WITNESS_SCALE_FACTOR + witstackLen + satWeight)

/-! ## Coins and selections -/

/-- A coin. The optional fields are there once a fee rate is known. -/
structure COutput where
  outpoint : COutPoint
  txout : CTxOut
  inputBytes : Int
  fee : Option Int := none
  effectiveValue : Option Int := none
  ancestorBumpFees : Int := 0

namespace COutput

def withFeerate (outpoint : COutPoint) (txout : CTxOut) (inputBytes : Int) (feerate : CFeeRate) :
    COutput :=
  let fee := if inputBytes < 0 then 0 else feerate.getFee inputBytes
  { outpoint, txout, inputBytes, fee := some fee, effectiveValue := some (txout.nValue - fee) }

/-- `ApplyBumpFee`, for a bump fee that is not negative and a coin that has a fee. -/
def applyBumpFee (coin : COutput) (bumpFee : Nat) : COutput :=
  let fee := coin.fee.getD 0 + bumpFee
  { coin with
    ancestorBumpFees := bumpFee
    fee := some fee
    effectiveValue := some (coin.txout.nValue - fee) }

/-- `GetEffectiveValue`, which asserts that there is one. -/
def getEffectiveValue (coin : COutput) : Int := coin.effectiveValue.getD 0

end COutput

structure SelectionResult where
  selectedInputs : List COutput
  target : Int
  useEffective : Bool
  bumpFeeGroupDiscount : Int := 0

namespace SelectionResult

variable (result : SelectionResult)

def getSelectedValue : Int := (result.selectedInputs.map (·.txout.nValue)).sum

def getSelectedEffectiveValue : Int :=
  (result.selectedInputs.map (·.getEffectiveValue)).sum + result.bumpFeeGroupDiscount

def getTotalBumpFees : Int :=
  (result.selectedInputs.map (·.ancestorBumpFees)).sum - result.bumpFeeGroupDiscount

def getChange (minViableChange changeFee : Int) : Int :=
  let change :=
    if result.useEffective then result.getSelectedEffectiveValue - result.target - changeFee
    else result.getSelectedValue - result.target
  if change < minViableChange then 0 else change

end SelectionResult

/-! ## The wallet -/

inductive FeeReason where
  | NONE | HALF_ESTIMATE | FULL_ESTIMATE | DOUBLE_ESTIMATE | CONSERVATIVE | MEMPOOL_MIN | FALLBACK
  | REQUIRED
deriving DecidableEq

/-- A recipient, whose destination is given by its script. -/
structure CRecipient where
  script : CScript
  nAmount : Int
  fSubtractFeeFromAmount : Bool := false

def CRecipient.txout (recipient : CRecipient) : CTxOut := ⟨recipient.nAmount, recipient.script⟩

structure CoinSelectionParams where
  txNoinputsSize : Int
  recipientsSum : Int
  outputsToSubtractFeeFrom : Nat
  changeOutputSize : Int := 0
  changeFee : Int := 0
  minViableChange : Int := 0
deriving DecidableEq

def CoinSelectionParams.subtractFeeOutputs (params : CoinSelectionParams) : Bool :=
  0 < params.outputsToSubtractFeeFrom

/-- What `CreateTransactionInternal` learns from the wallet, its chain and the random source. -/
structure CWallet where
  mapWallet : Uint256 → Option CTransaction := fun _ => none
  /-- `InferDescriptor` with the wallet's solving provider for the script. -/
  inferDescriptor : CScript → Option Descriptor
  /-- `GetDescriptor`, which also knows the external provider of the coin control. -/
  getDescriptor : CScript → Option Descriptor
  canGrindR : Bool := true
  relayDustFee : CFeeRate
  discardFeerate : CFeeRate
  /-- `GetMinimumFeeRate` and the reason it gives. -/
  effectiveFeerate : CFeeRate
  feeReason : FeeReason := .NONE
  allowFallbackFee : Bool := false
  signalRbf : Bool := true
  /-- The script change goes to; empty if no address could be reserved. -/
  scriptChange : CScript
  /-- `SelectCoins` for a target; `none` where it gives no error text of its own. -/
  selectCoins : CoinSelectionParams → Int → Except (Option String) SelectionResult
  randrange : (bound : Nat) → Fin (bound + 1)
  shuffle : List COutput → List COutput
  shuffle_perm : ∀ coins, (shuffle coins).Perm coins
  /-- The lock time `DiscourageFeeSniping` sets. -/
  antiFeeSnipingLockTime : UInt32 := 0

inductive CreateError where
  | weightOutOfRange
  | amountTooSmall
  | feerateTooLow (required : Bool)
  | fallbackFeeDisabled
  | nothingToPay
  | selection (text : Option String)
  | changeIndexOutOfRange
  | missingSolvingData
  | feePaidNegative
  | changeAdjustment
  | amountTooSmallForFee
  | amountTooSmallAfterFee
  | subtractedFee
  | feeNeededExceedsPaid
deriving DecidableEq

/-- The errors that are reported as bugs of the wallet. -/
def CreateError.isInternalBug : CreateError → Bool
  | feePaidNegative | changeAdjustment | subtractedFee | feeNeededExceedsPaid => true
  | _ => false

def refuseIf (condition : Prop) [Decidable condition] (error : CreateError) : Except CreateError Unit :=
  if condition then .error error else .ok ()

@[simp] theorem refuseIf_eq_ok_iff {condition : Prop} [Decidable condition] {error : CreateError}
    {value : Unit} : refuseIf condition error = .ok value ↔ ¬ condition := by
  unfold refuseIf
  split <;> simp_all

def DUMMY_NESTED_P2WPKH_INPUT_SIZE : Int := 91
def MAX_BIP125_RBF_SEQUENCE : UInt32 := 0xfffffffd

namespace CWallet

variable (wallet : CWallet) (coinControl : CCoinControl)

def calculateMaximumSignedInputSize (txout : CTxOut) (outpoint : COutPoint) (coinControl : Option CCoinControl) : Int :=
  match wallet.inferDescriptor txout.scriptPubKey with
  | none => -1
  | some desc =>
    match maxInputWeight desc (some { prevout := outpoint }) coinControl true wallet.canGrindR with
    | none => -1
    | some weight => wrap32 (getVirtualTransactionSize weight 0 0)

def getSignedTxinWeight (txin : CTxIn) (txo : CTxOut) (txIsSegwit : Bool) : Option Int :=
  match coinControl.getInputWeight txin.prevout with
  | some weight => some weight
  | none => do
    let desc ← wallet.getDescriptor txo.scriptPubKey
    maxInputWeight desc (some txin) (some coinControl) txIsSegwit wallet.canGrindR

/-- The output an input spends, from the wallet or the coin control. -/
def findOutput (input : CTxIn) : Option CTxOut :=
  match wallet.mapWallet input.prevout.hash with
  | some tx => tx.vout[input.prevout.n.toNat]?
  | none => coinControl.getExternalOutput input.prevout

/-- Whether one of the outputs is known to be a witness program. -/
def spendsSegwit (txouts : List CTxOut) : Bool :=
  txouts.any fun txo => (wallet.getDescriptor txo.scriptPubKey).any isSegwit

structure TxSize where
  vsize : Int
  weight : Int
deriving DecidableEq

def fixedWeight (tx : CTransaction) (txIsSegwit : Bool) : Int :=
  (4 + 4 + getSizeOfCompactSize tx.vin.length + getSizeOfCompactSize tx.vout.length) * WITNESS_SCALE_FACTOR +
    (if txIsSegwit then 2 else 0) +
    (tx.vout.map fun txo => (txo.getSerializeSize : Int) * WITNESS_SCALE_FACTOR).sum

def inputWeights (tx : CTransaction) : Option (Bool × List Int) := do
  let txouts ← tx.vin.mapM (wallet.findOutput coinControl)
  let txIsSegwit := wallet.spendsSegwit txouts
  let weights ← (tx.vin.zip txouts).mapM fun spent =>
    wallet.getSignedTxinWeight coinControl spent.1 spent.2 txIsSegwit
  some (txIsSegwit, weights)

def calculateMaximumSignedTxSize (tx : CTransaction) : TxSize :=
  match wallet.inputWeights coinControl tx with
  | none => ⟨-1, -1⟩
  | some (txIsSegwit, weights) =>
    let weight := fixedWeight tx txIsSegwit + weights.sum
    ⟨getVirtualTransactionSize weight 0 0, weight⟩

/-! ## Creating a transaction -/

def addRecipient (params : CoinSelectionParams) (recipient : CRecipient) : Except CreateError CoinSelectionParams :=
  if isDust recipient.txout wallet.relayDustFee then .error .amountTooSmall
  else .ok { params with
    txNoinputsSize := wrap32 (params.txNoinputsSize + recipient.txout.getSerializeSize)
    recipientsSum := params.recipientsSum + recipient.nAmount
    outputsToSubtractFeeFrom := params.outputsToSubtractFeeFrom + if recipient.fSubtractFeeFromAmount then 1 else 0 }

/-- The parameters of the selection: the recipients, then the change. -/
def coinSelectionParams (vecSend : List CRecipient) : Except CreateError CoinSelectionParams := do
  let maxTxWeight := coinControl.maxTxWeight.getD MAX_STANDARD_TX_WEIGHT
  refuseIf (maxTxWeight < MIN_STANDARD_TX_NONWITNESS_SIZE * WITNESS_SCALE_FACTOR ∨
    maxTxWeight > MAX_STANDARD_TX_WEIGHT) .weightOutOfRange
  let params ← vecSend.foldlM wallet.addRecipient {
    txNoinputsSize := 10 + getSizeOfCompactSize vecSend.length
    recipientsSum := 0
    outputsToSubtractFeeFrom := 0 }
  let changePrototype : CTxOut := ⟨0, wallet.scriptChange⟩
  let changeOutputSize := wrap32 changePrototype.getSerializeSize
  let signedSize := wallet.calculateMaximumSignedInputSize changePrototype .null none
  let changeSpendSize := if signedSize = -1 then DUMMY_NESTED_P2WPKH_INPUT_SIZE else signedSize
  refuseIf (coinControl.feerate.any fun feerate =>
      wallet.effectiveFeerate.feerate.compareByRatio feerate.feerate = .gt)
    (.feerateTooLow (wallet.feeReason = .REQUIRED))
  refuseIf (wallet.feeReason = .FALLBACK ∧ wallet.allowFallbackFee = false) .fallbackFeeDisabled
  .ok { params with
    changeOutputSize
    changeFee := wallet.effectiveFeerate.getFee changeOutputSize
    minViableChange := max (wallet.discardFeerate.getFee changeSpendSize + 1)
      (getDustThreshold changePrototype wallet.discardFeerate) }

/-- The recipients' amounts, and the fees of all but the inputs and the change. -/
def selectionTarget (params : CoinSelectionParams) : Int :=
  params.recipientsSum + wallet.effectiveFeerate.getFee (if params.subtractFeeOutputs then 0 else params.txNoinputsSize)

/-- The order of inputs: those with a position first, by position. -/
def orderInputs (coins : List COutput) : List COutput :=
  if coinControl.hasSelected ∧ coinControl.hasSelectedOrder then
    coins.mergeSort fun a b =>
      -- `b` is not to stand before `a`
      match coinControl.getSelectionPos b.outpoint, coinControl.getSelectionPos a.outpoint with
      | some bPos, some aPos => !(bPos < aPos : Bool)
      | some _, none => false
      | none, _ => true
  else coins

def makeInput (coin : COutput) : CTxIn :=
  let defaultSequence :=
    if coinControl.signalBip125Rbf.getD wallet.signalRbf then MAX_BIP125_RBF_SEQUENCE
    else CTxIn.MAX_SEQUENCE_NONFINAL
  let preset := coinControl.find coin.outpoint
  { prevout := coin.outpoint
    scriptSig := (preset.bind (·.scriptSig)).getD []
    nSequence := (coinControl.getSequence coin.outpoint).getD defaultSequence
    scriptWitness := (preset.bind (·.scriptWitness)).getD [] }

def makeLockTime (coins : List COutput) : UInt32 :=
  match coinControl.locktime with
  | some locktime => locktime
  | none =>
    if coins.any fun coin => (coinControl.getSequence coin.outpoint).isSome then 0
    else wallet.antiFeeSnipingLockTime

/-- The outputs, and the position of the change among them. -/
def makeOutputs (vecSend : List CRecipient) (changePos : Option Nat) (changeAmount : Int) :
    Except CreateError (List CTxOut × Option Nat) :=
  let vout := vecSend.map CRecipient.txout
  if changeAmount > 0 then
    let change : CTxOut := ⟨changeAmount, wallet.scriptChange⟩
    match changePos with
    | none =>
      let pos := (wallet.randrange vout.length).val
      .ok (vout.insertIdx pos change, some pos)
    | some pos =>
      if pos > vout.length then .error .changeIndexOutOfRange
      else .ok (vout.insertIdx pos change, some pos)
  else .ok (vout, none)

/-- The transaction for a selection, before its fee is settled. -/
def buildTransaction (vecSend : List CRecipient) (changePos : Option Nat)
    (params : CoinSelectionParams) (result : SelectionResult) :
    Except CreateError (CTransaction × Option Nat) := do
  let outputs ← wallet.makeOutputs vecSend changePos (result.getChange params.minViableChange params.changeFee)
  let coins := orderInputs coinControl (wallet.shuffle result.selectedInputs)
  .ok ({ version := coinControl.version
         vin := coins.map (wallet.makeInput coinControl)
         vout := outputs.1
         nLockTime := wallet.makeLockTime coinControl coins }, outputs.2)

def outputValue (vout : List CTxOut) : Int := (vout.map (·.nValue)).sum

/-- The loop that takes the fee off the outputs of recipients that pay it. -/
def subtractFee (toReduce : Int) (count : Nat) (changePos : Option Nat) :
    List CRecipient → (i : Nat) → (fFirst : Bool) → List CTxOut → Except CreateError (List CTxOut)
  | [], _, _, vout => .ok vout
  | recipient :: vecSend, i, fFirst, vout =>
    let i := if changePos = some i then i + 1 else i
    if recipient.fSubtractFeeFromAmount then
      let txout := vout.getD i {}
      let txout := { txout with
        nValue := txout.nValue - toReduce.tdiv count - if fFirst then toReduce.tmod count else 0 }
      if isDust txout wallet.relayDustFee then
        .error (if txout.nValue < 0 then .amountTooSmallForFee else .amountTooSmallAfterFee)
      else subtractFee toReduce count changePos vecSend (i + 1) false (vout.set i txout)
    else subtractFee toReduce count changePos vecSend (i + 1) fFirst vout

structure CreatedTransaction where
  tx : CTransaction
  fee : Int
  changePos : Option Nat
deriving DecidableEq

/-- The change output takes what is paid above the fee that is needed. -/
def adjustChange (vout : List CTxOut) (changePos : Option Nat) (feeNeeded currentFee : Int) : List CTxOut :=
  match changePos with
  | some pos =>
    if feeNeeded < currentFee then
      vout.modify pos fun change => { change with nValue := change.nValue + (currentFee - feeNeeded) }
    else vout
  | none => vout

/-- From the fee of the built transaction to the end of the checks on it. -/
def settleFee (vecSend : List CRecipient) (params : CoinSelectionParams) (result : SelectionResult)
    (tx : CTransaction) (changePos : Option Nat) : Except CreateError CreatedTransaction := do
  let nBytes := wrap32 (wallet.calculateMaximumSignedTxSize coinControl tx).vsize
  refuseIf (nBytes = -1) .missingSolvingData
  let feeNeeded := wallet.effectiveFeerate.getFee nBytes + result.getTotalBumpFees
  let currentFee := result.getSelectedValue - outputValue tx.vout
  refuseIf (currentFee < 0) .feePaidNegative
  let vout := adjustChange tx.vout changePos feeNeeded currentFee
  let adjustedFee := result.getSelectedValue - outputValue vout
  refuseIf (changePos.isSome ∧ feeNeeded < currentFee ∧ feeNeeded ≠ adjustedFee) .changeAdjustment
  let vout ← if params.subtractFeeOutputs then
      wallet.subtractFee (feeNeeded - adjustedFee) params.outputsToSubtractFeeFrom changePos vecSend 0 true vout
    else .ok vout
  let currentFee := result.getSelectedValue - outputValue vout
  refuseIf (params.subtractFeeOutputs ∧ feeNeeded ≠ currentFee) .subtractedFee
  refuseIf (feeNeeded > currentFee) .feeNeededExceedsPaid
  .ok ⟨{ tx with vout }, currentFee, changePos⟩

/-- `CreateTransactionInternal`, up to its checks of the fee. -/
def createTransactionInternal (vecSend : List CRecipient) (changePos : Option Nat) :
    Except CreateError CreatedTransaction := do
  let params ← wallet.coinSelectionParams coinControl vecSend
  let target := wallet.selectionTarget params
  refuseIf (target = 0 ∧ coinControl.hasSelected = false) .nothingToPay
  let result ← (wallet.selectCoins params target).mapError .selection
  let built ← wallet.buildTransaction coinControl vecSend changePos params result
  wallet.settleFee coinControl vecSend params result built.1 built.2

end CWallet

end Sharecoin.Wallet
