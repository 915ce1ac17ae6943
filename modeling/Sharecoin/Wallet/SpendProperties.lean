import Sharecoin.Lib.Program
import Sharecoin.Wallet.Spend
import Mathlib.Algebra.BigOperators.Ring.List

/-! What the fee of a created transaction covers. The fee is paid piece by piece, for the
recipients, each input and the change, and then compared with the fee of the whole. -/

set_option autoImplicit false

namespace Sharecoin.Wallet

open Lib CFeeRate

/-! ## Values -/

variable {pos : Nat} {vout : List CTxOut}

theorem outputValue_insertIdx (inRange : pos ≤ vout.length) (change : CTxOut) :
    CWallet.outputValue (vout.insertIdx pos change) = CWallet.outputValue vout + change.nValue := by
  have perm := (List.perm_insertIdx change vout inRange).map (·.nValue)
  rw [CWallet.outputValue, perm.sum_eq, List.map_cons, List.sum_cons, CWallet.outputValue]
  ring

theorem outputValue_modify (inRange : pos < vout.length) (more : Int) : CWallet.outputValue
        (vout.modify pos fun change => { change with nValue := change.nValue + more }) =
      CWallet.outputValue vout + more := by
  induction vout generalizing pos with
  | nil => simp at inRange
  | cons txout vout ih =>
    cases pos with
    | zero =>
      simp only [CWallet.outputValue, List.modify_zero_cons, List.map_cons, List.sum_cons]
      ring
    | succ pos =>
      have later := ih (Nat.lt_of_succ_lt_succ inRange)
      simp only [CWallet.outputValue, List.modify_succ_cons, List.map_cons, List.sum_cons] at later ⊢
      rw [later]
      ring

theorem getSerializeSize_eq (txout : CTxOut) (nValue : Int) :
    CTxOut.getSerializeSize { txout with nValue } = txout.getSerializeSize := by
  simp [CTxOut.getSerializeSize, CTxOut.serialize]

variable {weight : Int} {coins : List COutput}

namespace CWallet

variable {wallet : CWallet} {coinControl : CCoinControl} {vecSend : List CRecipient}
  {params : CoinSelectionParams} {result : SelectionResult} {tx : CTransaction}
  {givenPos changePos : Option Nat} {coin : COutput}

/-! ## The recipients -/

theorem foldlM_addRecipient {start : CoinSelectionParams}
    (added : vecSend.foldlM wallet.addRecipient start = .ok params) :
    params.recipientsSum = start.recipientsSum + (vecSend.map (·.nAmount)).sum ∧
      params.outputsToSubtractFeeFrom =
        start.outputsToSubtractFeeFrom + vecSend.countP (·.fSubtractFeeFromAmount) ∧
      params.txNoinputsSize = vecSend.foldl (fun size recipient =>
        wrap32 (size + recipient.txout.getSerializeSize)) start.txNoinputsSize := by
  induction vecSend generalizing start with
  | nil =>
    cases added
    simp
  | cons recipient vecSend ih =>
    rw [List.foldlM_cons] at added
    obtain ⟨next, step, added⟩ := bind_eq_ok_iff.mp added
    obtain ⟨sum, count, size⟩ := ih added
    unfold addRecipient at step
    split at step
    · cases step
    cases step
    refine ⟨?_, ?_, size⟩
    · rw [sum, List.map_cons, List.sum_cons]
      ring
    · rw [count, List.countP_cons]
      ring

theorem coinSelectionParams_inv (prepared : wallet.coinSelectionParams coinControl vecSend = .ok params) :
    params.recipientsSum = (vecSend.map (·.nAmount)).sum ∧
      params.outputsToSubtractFeeFrom = vecSend.countP (·.fSubtractFeeFromAmount) ∧
      params.txNoinputsSize = vecSend.foldl (fun size recipient =>
        wrap32 (size + recipient.txout.getSerializeSize))
        (10 + getSizeOfCompactSize vecSend.length) ∧
      params.changeOutputSize = wrap32 (CTxOut.getSerializeSize ⟨0, wallet.scriptChange⟩) ∧
      params.changeFee = wallet.effectiveFeerate.getFee params.changeOutputSize := by
  simp only [coinSelectionParams, bind_eq_ok_iff, refuseIf_eq_ok_iff] at prepared
  obtain ⟨-, -, loop, added, -, -, -, -, prepared⟩ := prepared
  cases prepared
  obtain ⟨sum, count, size⟩ := foldlM_addRecipient added
  refine ⟨sum.trans (zero_add _), count.trans (Nat.zero_add _), size, ?_, ?_⟩ <;> dsimp only

/-! ## The outputs -/

/-- The outputs with change have its amount more, at a position within them. -/
theorem makeOutputs_inv {changeAmount : Int} {outputs : List CTxOut × Option Nat}
    (made : wallet.makeOutputs vecSend givenPos changeAmount = .ok outputs) :
    if changeAmount > 0 then
      ∃ pos ≤ vecSend.length, outputs.2 = some pos ∧ outputs.1 =
        (vecSend.map CRecipient.txout).insertIdx pos ⟨changeAmount, wallet.scriptChange⟩
    else outputs = (vecSend.map CRecipient.txout, none) := by
  unfold makeOutputs at made
  dsimp only at made
  split
  next positive =>
    rw [if_pos positive] at made
    cases givenPos with
    | none =>
      cases made
      refine ⟨_, ?_, rfl, rfl⟩
      have := (wallet.randrange (vecSend.map CRecipient.txout).length).isLt
      rw [List.length_map] at this ⊢
      omega
    | some pos =>
      dsimp only at made
      split at made
      · cases made
      next inRange =>
        cases made
        rw [List.length_map] at inRange
        exact ⟨pos, by omega, rfl, rfl⟩
  next none =>
    rw [if_neg none] at made
    cases made
    rfl

theorem outputValue_recipients : outputValue (vecSend.map CRecipient.txout) = (vecSend.map (·.nAmount)).sum := by
  simp [outputValue, CRecipient.txout, Function.comp_def]

/-! ## The inputs -/

theorem orderInputs_perm (coinControl : CCoinControl) (coins : List COutput) :
    (orderInputs coinControl coins).Perm coins := by
  unfold orderInputs
  split
  · exact List.mergeSort_perm _ _
  · exact List.Perm.refl _

def inputFee (wallet : CWallet) (coin : COutput) : Int :=
  if coin.inputBytes < 0 then 0 else wallet.effectiveFeerate.getFee coin.inputBytes

/-- The coin was made with the fee rate of the transaction, and bumped once. -/
def Priced (wallet : CWallet) (coin : COutput) : Prop :=
  ∃ bumpFee, coin = (COutput.withFeerate coin.outpoint coin.txout coin.inputBytes
      wallet.effectiveFeerate).applyBumpFee bumpFee

theorem getEffectiveValue_of_priced (priced : wallet.Priced coin) :
    coin.getEffectiveValue = coin.txout.nValue - wallet.inputFee coin - coin.ancestorBumpFees := by
  obtain ⟨bumpFee, shape⟩ := priced
  rw [shape]
  simp only [COutput.getEffectiveValue, COutput.applyBumpFee, COutput.withFeerate, Option.getD_some, inputFee]
  omega

theorem getSelectedValue_eq (priced : ∀ coin ∈ result.selectedInputs, wallet.Priced coin) :
    result.getSelectedValue = result.getSelectedEffectiveValue +
      (result.selectedInputs.map wallet.inputFee).sum + result.getTotalBumpFees := by
  have each : ∀ coins : List COutput, (∀ coin ∈ coins, wallet.Priced coin) →
      (coins.map (·.txout.nValue)).sum = (coins.map (·.getEffectiveValue)).sum +
        (coins.map wallet.inputFee).sum + (coins.map (·.ancestorBumpFees)).sum := by
    intro coins priced
    induction coins with
    | nil => rfl
    | cons coin coins ih =>
      have own := getEffectiveValue_of_priced (priced coin (.head _))
      have rest := ih (List.forall_mem_cons.mp priced).2
      simp only [List.map_cons, List.sum_cons, rest, own]
      ring
  rw [SelectionResult.getSelectedValue, each _ priced, SelectionResult.getSelectedEffectiveValue,
    SelectionResult.getTotalBumpFees]
  ring

/-! ## The fee of a funded transaction -/

/-- A call that pays no fee from the recipients' amounts, for which coins worth the target were
selected and a transaction of known size was built. -/
structure Funded (wallet : CWallet) (coinControl : CCoinControl) (vecSend : List CRecipient)
    (givenPos : Option Nat) (params : CoinSelectionParams) (result : SelectionResult)
    (tx : CTransaction) (changePos : Option Nat) : Prop where
  noSubtract : ∀ recipient ∈ vecSend, recipient.fSubtractFeeFromAmount = false
  prepared : wallet.coinSelectionParams coinControl vecSend = .ok params
  needsCoins : ¬ (wallet.selectionTarget params = 0 ∧ coinControl.hasSelected = false)
  selected : wallet.selectCoins params (wallet.selectionTarget params) = .ok result
  target : result.target = wallet.selectionTarget params
  useEffective : result.useEffective = true
  priced : ∀ coin ∈ result.selectedInputs, wallet.Priced coin
  enough : wallet.selectionTarget params ≤ result.getSelectedEffectiveValue
  built : wallet.buildTransaction coinControl vecSend givenPos params result = .ok (tx, changePos)
  sized : wrap32 (wallet.calculateMaximumSignedTxSize coinControl tx).vsize ≠ -1

/-- The fee that is paid piece by piece: for the recipients, the inputs and their ancestors, and
then for the change, or else what the coins are worth above the target. -/
def paidFee (wallet : CWallet) (params : CoinSelectionParams) (result : SelectionResult) (hasChange : Bool) : Int :=
  wallet.effectiveFeerate.getFee params.txNoinputsSize +
    (result.selectedInputs.map wallet.inputFee).sum + result.getTotalBumpFees +
    if hasChange then params.changeFee
    else result.getSelectedEffectiveValue - wallet.selectionTarget params

def neededFee (wallet : CWallet) (coinControl : CCoinControl) (result : SelectionResult) (tx : CTransaction) : Int :=
  wallet.effectiveFeerate.getFee
    (wrap32 (wallet.calculateMaximumSignedTxSize coinControl tx).vsize) + result.getTotalBumpFees

/-! ## The sizes -/

theorem map_modify_of_same {α β : Type} {size : α → β} {change : α → α}
    (same : ∀ item, size (change item) = size item) (items : List α) (pos : Nat) :
    (items.modify pos change).map size = items.map size := by
  apply List.ext_getElem?
  intro index
  rw [List.getElem?_map, List.getElem?_map, List.getElem?_modify]
  cases items[index]? with
  | none => rfl
  | some item => by_cases here : pos = index <;> simp [here, same]

theorem map_size_adjustChange (vout : List CTxOut) (feeNeeded currentFee : Int) :
    (adjustChange vout changePos feeNeeded currentFee).map CTxOut.getSerializeSize =
      vout.map CTxOut.getSerializeSize := by
  unfold adjustChange
  split
  next pos =>
    split
    · exact map_modify_of_same (fun txout => getSerializeSize_eq txout _) _ _
    · rfl
  next => rfl

theorem neededFee_congr (sizes : vout.map CTxOut.getSerializeSize = tx.vout.map CTxOut.getSerializeSize) :
    wallet.neededFee coinControl result { tx with vout } = wallet.neededFee coinControl result tx := by
  have count := congrArg List.length sizes
  rw [List.length_map, List.length_map] at count
  have weights := congrArg (List.map fun size : Nat => (size : Int) * WITNESS_SCALE_FACTOR) sizes
  rw [List.map_map, List.map_map] at weights
  simp only [Function.comp_def] at weights
  simp only [neededFee, calculateMaximumSignedTxSize, inputWeights, fixedWeight, count, weights]

theorem getVirtualTransactionSize_le_iff (nonneg : 0 ≤ weight) (bytes : Int) :
    getVirtualTransactionSize weight 0 0 ≤ bytes ↔ weight ≤ 4 * bytes := by
  rw [getVirtualTransactionSize, getSigOpsAdjustedWeight, WITNESS_SCALE_FACTOR, mul_zero,
    max_eq_left nonneg, Int.tdiv_eq_ediv_of_nonneg (by omega)]
  omega

theorem getVirtualTransactionSize_nonneg (nonneg : 0 ≤ weight) : 0 ≤ getVirtualTransactionSize weight 0 0 := by
  have negative := getVirtualTransactionSize_le_iff nonneg (-1)
  omega

theorem paidFee_eq : wallet.paidFee params result changePos.isSome =
      wallet.effectiveFeerate.getFee params.txNoinputsSize + (result.selectedInputs.map wallet.inputFee).sum +
        (if changePos.isSome then params.changeFee else 0) + result.getTotalBumpFees +
        if changePos.isSome then 0
        else result.getSelectedEffectiveValue - wallet.selectionTarget params := by
  unfold paidFee
  split <;> ring

def paidSize (params : CoinSelectionParams) (result : SelectionResult) (hasChange : Bool) : Int :=
  params.txNoinputsSize + (result.selectedInputs.map (·.inputBytes)).sum +
    if hasChange then params.changeOutputSize else 0

def Covered (wallet : CWallet) (coinControl : CCoinControl) (params : CoinSelectionParams)
    (result : SelectionResult) (tx : CTransaction) (hasChange : Bool) : Prop :=
  (wallet.calculateMaximumSignedTxSize coinControl tx).weight ≤ 4 * paidSize params result hasChange

/-- No size is negative or leaves its type, and no fee of one does. -/
structure SizesFit (wallet : CWallet) (coinControl : CCoinControl) (params : CoinSelectionParams)
    (result : SelectionResult) (tx : CTransaction) (hasChange : Bool) : Prop where
  noinputs : 0 ≤ params.txNoinputsSize
  change : 0 ≤ params.changeOutputSize
  inputs : ∀ coin ∈ result.selectedInputs, 0 ≤ coin.inputBytes
  weight : 0 ≤ (wallet.calculateMaximumSignedTxSize coinControl tx).weight
  bumpFees : 0 ≤ result.getTotalBumpFees
  paid : wallet.effectiveFeerate.Fits (paidSize params result hasChange)
  needed : wallet.effectiveFeerate.Fits (wallet.calculateMaximumSignedTxSize coinControl tx).vsize

theorem sum_inputBytes_nonneg (inputs : ∀ coin ∈ coins, 0 ≤ coin.inputBytes) : 0 ≤ (coins.map (·.inputBytes)).sum :=
  List.sum_nonneg fun size listed => by
    obtain ⟨coin, among, rfl⟩ := List.mem_map.mp listed
    exact inputs coin among

theorem sum_inputFee {bytes : Int} (inputs : ∀ coin ∈ coins, 0 ≤ coin.inputBytes)
    (fits : wallet.effectiveFeerate.Fits bytes) (le : (coins.map (·.inputBytes)).sum ≤ bytes) :
    wallet.effectiveFeerate.PaysFor (coins.map wallet.inputFee).sum (coins.map (·.inputBytes)).sum := by
  induction coins with
  | nil => exact .zero
  | cons coin coins ih =>
    obtain ⟨own, others⟩ := List.forall_mem_cons.mp inputs
    have rest := sum_inputBytes_nonneg others
    simp only [List.map_cons, List.sum_cons] at le ⊢
    have fee : wallet.inputFee coin = wallet.effectiveFeerate.getFee coin.inputBytes := if_neg own.not_gt
    rw [fee]
    exact (PaysFor.getFee (fits.mono (by omega)) own).add (ih others (by omega))

/-! ## Where the pieces cover the weight -/

/-- The coin is known as it is, without a weight of its own, and its size is the one the wallet
expects. -/
structure SizedByWallet (wallet : CWallet) (coinControl : CCoinControl) (coin : COutput) : Prop where
  found : wallet.findOutput coinControl (wallet.makeInput coinControl coin) = some coin.txout
  unweighted : coinControl.getInputWeight coin.outpoint = none
  known : wallet.getDescriptor coin.txout.scriptPubKey = wallet.inferDescriptor coin.txout.scriptPubKey
  size : coin.inputBytes = wallet.calculateMaximumSignedInputSize coin.txout coin.outpoint (some coinControl)
  inRange : ∀ desc weight, wallet.inferDescriptor coin.txout.scriptPubKey = some desc →
    maxInputWeight desc (some { prevout := coin.outpoint }) (some coinControl) true
      wallet.canGrindR = some weight → 0 ≤ weight ∧ weight ≤ 4 * (2 ^ 31 - 1)

theorem maxInputWeight_mono {desc : Descriptor} {txin : Option CTxIn} {canGrindR txIsSegwit : Bool}
    (known : maxInputWeight desc txin (some coinControl) txIsSegwit canGrindR = some weight) :
    ∃ most, maxInputWeight desc txin (some coinControl) true canGrindR = some most ∧ weight ≤ most := by
  simp only [maxInputWeight, Option.bind_eq_bind, Option.bind_eq_some_iff, Option.some.injEq] at known ⊢
  obtain ⟨satWeight, satisfied, elemsCount, counted, rfl⟩ := known
  refine ⟨_, ⟨satWeight, satisfied, elemsCount, counted, rfl⟩, ?_⟩
  cases isSegwit desc <;> cases txIsSegwit <;> simp

theorem getSignedTxinWeight_le (sized : wallet.SizedByWallet coinControl coin) {txIsSegwit : Bool}
    (known : wallet.getSignedTxinWeight coinControl (wallet.makeInput coinControl coin) coin.txout
      txIsSegwit = some weight) : weight ≤ 4 * coin.inputBytes := by
  have prevout : (wallet.makeInput coinControl coin).prevout = coin.outpoint := rfl
  rw [getSignedTxinWeight, prevout, sized.unweighted] at known
  obtain ⟨desc, inferred, known⟩ := Option.bind_eq_some_iff.mp known
  obtain ⟨most, signed, le⟩ := maxInputWeight_mono known
  rw [sized.known] at inferred
  -- only the outpoint of an input counts for its weight
  have same : maxInputWeight desc (some { prevout := coin.outpoint }) (some coinControl) true
      wallet.canGrindR = some most := signed
  obtain ⟨low, high⟩ := sized.inRange desc most inferred same
  have covers := (getVirtualTransactionSize_le_iff low _).mp le_rfl
  have small := (getVirtualTransactionSize_le_iff low (2 ^ 31 - 1)).mpr high
  have nonneg := getVirtualTransactionSize_nonneg low
  rw [sized.size, calculateMaximumSignedInputSize, inferred]
  dsimp only
  rw [same]
  dsimp only
  rw [wrap32_eq_self (by omega) (by omega)]
  omega

/-- A relation between what a pass over coins returns and the sums of its results. -/
theorem sum_mapM_le {weigh : CTxIn × CTxOut → Option Int} {input : COutput → CTxIn × CTxOut}
    {weights : List Int} (each : ∀ coin ∈ coins, ∀ weight, weigh (input coin) = some weight →
      weight ≤ 4 * coin.inputBytes) (weighed : (coins.map input).mapM weigh = some weights) :
    weights.sum ≤ 4 * (coins.map (·.inputBytes)).sum := by
  induction coins generalizing weights with
  | nil =>
    cases weighed
    simp
  | cons coin coins ih =>
    simp only [List.map_cons, List.mapM_cons, Option.bind_eq_bind, Option.bind_eq_some_iff] at weighed
    obtain ⟨weight, own, others, rest, same⟩ := weighed
    cases same
    have first := each coin (.head _) weight own
    have later := ih (List.forall_mem_cons.mp each).2 rest
    simp only [List.sum_cons, List.map_cons]
    omega

theorem mapM_findOutput (sized : ∀ coin ∈ coins, wallet.SizedByWallet coinControl coin) :
    (coins.map (wallet.makeInput coinControl)).mapM (wallet.findOutput coinControl) = some (coins.map (·.txout)) := by
  induction coins with
  | nil => rfl
  | cons coin coins ih =>
    rw [List.map_cons, List.mapM_cons, (sized coin (.head _)).found,
      ih (List.forall_mem_cons.mp sized).2]
    rfl

theorem foldl_size {start : Int} (nonneg : 0 ≤ start)
    (small : start + (vecSend.map fun recipient => (recipient.txout.getSerializeSize : Int)).sum <
      2 ^ 31) :
    vecSend.foldl (fun size recipient => wrap32 (size + recipient.txout.getSerializeSize)) start =
      start + (vecSend.map fun recipient => (recipient.txout.getSerializeSize : Int)).sum := by
  induction vecSend generalizing start with
  | nil => simp
  | cons recipient vecSend ih =>
    have rest : 0 ≤ (vecSend.map fun recipient =>
        (recipient.txout.getSerializeSize : Int)).sum := List.sum_nonneg (by simp)
    simp only [List.map_cons, List.sum_cons, List.foldl_cons] at small ⊢
    rw [wrap32_eq_self (by omega) (by omega), ih (by omega) (by omega)]
    ring

/-! ## What is paid -/

namespace Funded

variable (funded : Funded wallet coinControl vecSend givenPos params result tx changePos)

include funded

theorem subtractFeeOutputs : params.subtractFeeOutputs = false := by
  rw [CoinSelectionParams.subtractFeeOutputs, (coinSelectionParams_inv funded.prepared).2.1,
    List.countP_eq_zero.mpr fun recipient listed => Bool.eq_false_iff.mp (funded.noSubtract recipient listed)]
  rfl

theorem createTransactionInternal_eq : wallet.createTransactionInternal coinControl vecSend givenPos =
      wallet.settleFee coinControl vecSend params result tx changePos := by
  have nonzero : refuseIf (wallet.selectionTarget params = 0 ∧ coinControl.hasSelected = false)
      .nothingToPay = .ok () := refuseIf_eq_ok_iff.mpr funded.needsCoins
  simp only [createTransactionInternal, funded.prepared, funded.selected, Except.mapError, bind,
    Except.bind, nonzero, funded.built]

theorem outputs : (∃ pos change, changePos = some pos ∧ pos ≤ vecSend.length ∧
      change.scriptPubKey = wallet.scriptChange ∧
      change.nValue = result.getSelectedEffectiveValue - wallet.selectionTarget params - params.changeFee ∧
      tx.vout = (vecSend.map CRecipient.txout).insertIdx pos change) ∨
    changePos = none ∧ tx.vout = vecSend.map CRecipient.txout := by
  have built := funded.built
  simp only [buildTransaction, bind_eq_ok_iff, Except.ok.injEq, Prod.mk.injEq] at built
  obtain ⟨made, outputs, rfl, rfl⟩ := built
  have cases := makeOutputs_inv outputs
  split at cases
  next positive =>
    obtain ⟨pos, inRange, atPos, vout⟩ := cases
    refine .inl ⟨pos, _, atPos, inRange, rfl, ?_, vout⟩
    simp only [SelectionResult.getChange, funded.useEffective, if_true, funded.target] at positive ⊢
    split at positive
    · exact absurd positive (lt_irrefl 0)
    next viable => rw [if_neg viable]
  next => exact .inr ⟨by rw [cases], by rw [cases]⟩

theorem pos_lt (atPos : changePos = some pos) : pos < tx.vout.length := by
  rcases funded.outputs with ⟨other, change, here, inRange, -, -, vout⟩ | ⟨none, -⟩
  · cases atPos.symm.trans here
    rw [vout, List.length_insertIdx_of_le_length (by simpa using inRange), List.length_map]
    omega
  · cases atPos.symm.trans none

theorem selectionTarget_eq : wallet.selectionTarget params =
      params.recipientsSum + wallet.effectiveFeerate.getFee params.txNoinputsSize := by
  simp [selectionTarget, funded.subtractFeeOutputs]

theorem currentFee_eq : result.getSelectedValue - outputValue tx.vout =
      wallet.paidFee params result changePos.isSome := by
  have target := funded.selectionTarget_eq
  obtain ⟨sum, -⟩ := coinSelectionParams_inv funded.prepared
  rw [getSelectedValue_eq funded.priced, paidFee]
  rcases funded.outputs with ⟨pos, change, rfl, inRange, -, amount, vout⟩ | ⟨rfl, vout⟩
  · rw [vout, outputValue_insertIdx (by simpa using inRange), outputValue_recipients, amount]
    simp only [Option.isSome_some, if_true]
    omega
  · rw [vout, outputValue_recipients]
    simp only [Option.isSome_none, Bool.false_eq_true, if_false]
    omega

theorem adjustedFee_eq (feeNeeded : Int) :
    result.getSelectedValue - outputValue (adjustChange tx.vout changePos feeNeeded
        (wallet.paidFee params result changePos.isSome)) =
      if changePos.isSome ∧ feeNeeded < wallet.paidFee params result changePos.isSome then feeNeeded
      else wallet.paidFee params result changePos.isSome := by
  have current := funded.currentFee_eq
  cases here : changePos with
  | none =>
    rw [here] at current
    simpa [adjustChange] using current
  | some pos =>
    rw [here] at current
    unfold adjustChange
    dsimp only
    by_cases above : feeNeeded < wallet.paidFee params result (some pos).isSome
    · rw [if_pos above, if_pos ⟨rfl, above⟩, outputValue_modify (funded.pos_lt here)]
      omega
    · rw [if_neg above, if_neg (fun both => above both.2), current]

theorem settleFee_eq : wallet.settleFee coinControl vecSend params result tx changePos =
      let paid := wallet.paidFee params result changePos.isSome
      let needed := wallet.neededFee coinControl result tx
      if paid < 0 then .error .feePaidNegative
      else if paid < needed then .error .feeNeededExceedsPaid
      else .ok ⟨{ tx with vout := adjustChange tx.vout changePos needed paid },
        if changePos.isSome then needed else paid, changePos⟩ := by
  have current := funded.currentFee_eq
  have adjusted := funded.adjustedFee_eq (wallet.neededFee coinControl result tx)
  have sized := funded.sized
  simp only [settleFee, funded.subtractFeeOutputs, Bool.false_eq_true, if_false, false_and, current,
    ← neededFee.eq_def, adjusted, refuseIf, sized, bind, Except.bind]
  generalize wallet.neededFee coinControl result tx = needed at adjusted ⊢
  generalize wallet.paidFee params result changePos.isSome = paid at adjusted ⊢
  by_cases negative : paid < 0
  · simp only [negative, if_true]
  rcases lt_trichotomy paid needed with short | same | above
  · simp only [negative, short.le.not_gt, and_false, false_and, if_false, short, if_true]
  · subst same
    simp only [negative, lt_irrefl, and_false, false_and, if_false, ite_self]
  have := above.le.not_gt
  cases changePos with
  | none => simp [negative, this]
  | some pos => simp [negative, this, above]

theorem vsize_eq : (wallet.calculateMaximumSignedTxSize coinControl tx).vsize = getVirtualTransactionSize
      (wallet.calculateMaximumSignedTxSize coinControl tx).weight 0 0 := by
  have sized := funded.sized
  unfold calculateMaximumSignedTxSize at sized ⊢
  split at sized
  · exact absurd rfl sized
  · rfl

theorem changeFee_eq : params.changeFee = wallet.effectiveFeerate.getFee params.changeOutputSize :=
  (coinSelectionParams_inv funded.prepared).2.2.2.2

section

variable (fits : SizesFit wallet coinControl params result tx changePos.isSome)

include fits

theorem vsize_nonneg : 0 ≤ (wallet.calculateMaximumSignedTxSize coinControl tx).vsize := by
  rw [funded.vsize_eq]
  exact getVirtualTransactionSize_nonneg fits.weight

theorem neededFee_eq : wallet.neededFee coinControl result tx = wallet.effectiveFeerate.getFee
      (wallet.calculateMaximumSignedTxSize coinControl tx).vsize + result.getTotalBumpFees := by
  have nonneg := funded.vsize_nonneg fits
  rw [neededFee, wrap32_eq_self (by omega) fits.needed.bytesLt]

/-- The pieces, priced one by one, pay the rate for their sizes. -/
theorem pieces : wallet.effectiveFeerate.PaysFor (wallet.effectiveFeerate.getFee params.txNoinputsSize +
      (result.selectedInputs.map wallet.inputFee).sum + if changePos.isSome then params.changeFee else 0)
    (paidSize params result changePos.isSome) := by
  have noinputs := fits.noinputs
  have change := fits.change
  have inputs := sum_inputBytes_nonneg fits.inputs
  have paid := fits.paid
  unfold paidSize at paid ⊢
  have changeNonneg : 0 ≤ if changePos.isSome then params.changeOutputSize else 0 := by
    split <;> omega
  refine ((PaysFor.getFee (paid.mono (by omega)) noinputs).add (sum_inputFee fits.inputs paid (by omega))).add ?_
  cases changePos with
  | none => exact .zero
  | some pos =>
    simp only [Option.isSome_some, if_true] at paid ⊢
    rw [funded.changeFee_eq]
    exact .getFee (paid.mono (by omega)) change

theorem covered_iff : Covered wallet coinControl params result tx changePos.isSome ↔
      (wallet.calculateMaximumSignedTxSize coinControl tx).vsize ≤ paidSize params result changePos.isSome := by
  rw [funded.vsize_eq, getVirtualTransactionSize_le_iff fits.weight, Covered]

theorem pays_of_covered (covered : Covered wallet coinControl params result tx changePos.isSome) :
    0 ≤ wallet.paidFee params result changePos.isSome ∧
      wallet.neededFee coinControl result tx ≤ wallet.paidFee params result changePos.isSome := by
  obtain ⟨pays, nonneg, -⟩ := funded.pieces fits
  have enough := funded.enough
  have bumpFees := fits.bumpFees
  have size := (funded.covered_iff fits).mp covered
  have whole := (getFee_le_iff fits.needed (funded.vsize_nonneg fits) _).mpr
    ((mul_le_mul_of_nonneg_left size fits.needed.feeNonneg).trans pays)
  have above : 0 ≤ if changePos.isSome then 0
      else result.getSelectedEffectiveValue - wallet.selectionTarget params := by
    split <;> omega
  rw [paidFee_eq, funded.neededFee_eq fits]
  omega

/-- At a whole rate, and with nothing above the target, only such pieces pay. -/
theorem covered_of_pays {each : Int} (positive : 0 < each)
    (whole : wallet.effectiveFeerate.feerate.fee = each * wallet.effectiveFeerate.feerate.size)
    (tight : changePos.isSome = true ∨ result.getSelectedEffectiveValue = wallet.selectionTarget params)
    (pays : wallet.neededFee coinControl result tx ≤ wallet.paidFee params result changePos.isSome) :
    Covered wallet coinControl params result tx changePos.isSome := by
  obtain ⟨-, -, exact⟩ := funded.pieces fits
  have nothing : (if changePos.isSome then 0
      else result.getSelectedEffectiveValue - wallet.selectionTarget params) = 0 := by
    split
    · rfl
    next noChange => rw [tight.resolve_left noChange, sub_self]
  rw [paidFee_eq, nothing, funded.neededFee_eq fits, exact each whole,
    getFee_of_whole fits.needed (funded.vsize_nonneg fits) whole] at pays
  rw [funded.covered_iff fits]
  exact le_of_mul_le_mul_left (by omega) positive

end

theorem sum_outputSize : (tx.vout.map fun txo => (txo.getSerializeSize : Int)).sum =
      (vecSend.map fun recipient => (recipient.txout.getSerializeSize : Int)).sum +
        if changePos.isSome then (CTxOut.getSerializeSize ⟨0, wallet.scriptChange⟩ : Int) else 0 := by
  rcases funded.outputs with ⟨pos, change, rfl, inRange, script, -, vout⟩ | ⟨rfl, vout⟩
  · have perm := (List.perm_insertIdx change (vecSend.map CRecipient.txout)
      (by simpa using inRange)).map fun txo => (txo.getSerializeSize : Int)
    have size : change.getSerializeSize = CTxOut.getSerializeSize ⟨0, wallet.scriptChange⟩ := by
      rw [← script]
      exact (getSerializeSize_eq change 0).symm
    rw [vout, perm.sum_eq, List.map_cons, List.sum_cons, size, List.map_map]
    simp [Function.comp_def, add_comm]
  · simp [vout, Function.comp_def]

theorem weight_le (sized : ∀ coin ∈ result.selectedInputs, wallet.SizedByWallet coinControl coin) :
    ∃ txIsSegwit weights, (wallet.calculateMaximumSignedTxSize coinControl tx).weight =
        fixedWeight tx txIsSegwit + List.sum weights ∧
      List.sum weights ≤ 4 * (result.selectedInputs.map (·.inputBytes)).sum := by
  have known := funded.sized
  have built := funded.built
  simp only [buildTransaction, bind_eq_ok_iff, Except.ok.injEq, Prod.mk.injEq] at built
  obtain ⟨made, -, shape, -⟩ := built
  have perm := (orderInputs_perm coinControl (wallet.shuffle result.selectedInputs)).trans
    (wallet.shuffle_perm result.selectedInputs)
  generalize orderInputs coinControl (wallet.shuffle result.selectedInputs) = coins at shape perm
  have vin : tx.vin = coins.map (wallet.makeInput coinControl) := by rw [← shape]
  have sizedCoins (coin : COutput) (listed : coin ∈ coins) := sized coin (perm.mem_iff.mp listed)
  unfold calculateMaximumSignedTxSize at known ⊢
  split at known
  · exact absurd rfl known
  next txIsSegwit weights found =>
    refine ⟨txIsSegwit, weights, rfl, ?_⟩
    simp only [inputWeights, vin, mapM_findOutput sizedCoins, List.zip_map', Option.bind_eq_bind,
      Option.bind_some, Option.bind_eq_some_iff, Option.some.injEq, Prod.mk.injEq] at found
    obtain ⟨_, weighed, -, rfl⟩ := found
    rw [← (perm.map (·.inputBytes)).sum_eq]
    exact sum_mapM_le (fun coin listed weight known =>
      getSignedTxinWeight_le (sizedCoins coin listed) known) weighed

/-- With at most 252 inputs, and as long a count of the outputs as of the recipients, the pieces
cover the weight. -/
theorem covered_of_counts (sized : ∀ coin ∈ result.selectedInputs, wallet.SizedByWallet coinControl coin)
    (small : 10 + getSizeOfCompactSize vecSend.length +
      (vecSend.map fun recipient => (recipient.txout.getSerializeSize : Int)).sum < 2 ^ 31)
    (changeSmall : (CTxOut.getSerializeSize ⟨0, wallet.scriptChange⟩ : Int) < 2 ^ 31)
    (inputCount : tx.vin.length < 253)
    (outputCount : getSizeOfCompactSize tx.vout.length = getSizeOfCompactSize vecSend.length) :
    Covered wallet coinControl params result tx changePos.isSome := by
  obtain ⟨-, -, noinputs, changeSize, -⟩ := coinSelectionParams_inv funded.prepared
  have countNonneg : 0 ≤ getSizeOfCompactSize vecSend.length := by
    unfold getSizeOfCompactSize
    split_ifs <;> decide
  rw [foldl_size (by omega) small] at noinputs
  rw [wrap32_eq_self (by omega) changeSmall] at changeSize
  obtain ⟨txIsSegwit, weights, weight, inputs⟩ := funded.weight_le sized
  have inputPrefix : getSizeOfCompactSize tx.vin.length = 1 := if_pos inputCount
  have scale (txo : CTxOut) : (txo.getSerializeSize : Int) * WITNESS_SCALE_FACTOR = 4 * txo.getSerializeSize := by
    rw [WITNESS_SCALE_FACTOR]
    ring
  have flag : (if txIsSegwit then 2 else 0 : Int) ≤ 2 := by split <;> decide
  rw [Covered, weight, fixedWeight, inputPrefix, outputCount, paidSize, noinputs, changeSize]
  simp only [scale, List.sum_map_mul_left, funded.sum_outputSize]
  rw [WITNESS_SCALE_FACTOR]
  omega

end Funded

/-! ## Paying for the whole -/

/-- No bug of the wallet is reported, and the fee of a created transaction, which is what its
inputs are worth above its outputs, covers its size and the ancestors, exactly so with change. -/
def PaysForItself (wallet : CWallet) (coinControl : CCoinControl) (vecSend : List CRecipient)
    (givenPos : Option Nat) (result : SelectionResult) : Prop :=
  (∀ error, wallet.createTransactionInternal coinControl vecSend givenPos = .error error →
    error.isInternalBug = false) ∧
  ∀ created, wallet.createTransactionInternal coinControl vecSend givenPos = .ok created →
    created.fee = result.getSelectedValue - outputValue created.tx.vout ∧
    wallet.neededFee coinControl result created.tx ≤ created.fee ∧
    (created.changePos.isSome = true → created.fee = wallet.neededFee coinControl result created.tx)

theorem Funded.paysForItself_iff (funded : Funded wallet coinControl vecSend givenPos params result tx changePos) :
    wallet.PaysForItself coinControl vecSend givenPos result ↔ 0 ≤ wallet.paidFee params result changePos.isSome ∧
        wallet.neededFee coinControl result tx ≤ wallet.paidFee params result changePos.isSome := by
  have outcome := funded.createTransactionInternal_eq.trans funded.settleFee_eq
  have adjusted := funded.adjustedFee_eq (wallet.neededFee coinControl result tx)
  dsimp only at outcome
  unfold PaysForItself
  rw [outcome]
  constructor
  · rintro ⟨noBug, -⟩
    by_contra fails
    split at noBug
    · cases noBug _ rfl
    next nonneg =>
      split at noBug
      · cases noBug _ rfl
      next covered => exact fails ⟨not_lt.mp nonneg, not_lt.mp covered⟩
  · rintro ⟨nonneg, covered⟩
    rw [if_neg nonneg.not_gt, if_neg covered.not_gt]
    refine ⟨nofun, fun created same => ?_⟩
    cases same
    dsimp only
    rw [neededFee_congr (map_size_adjustChange _ _ _), adjusted]
    cases changePos with
    | none => exact ⟨by simp, by simpa using covered, by simp⟩
    | some pos =>
      refine ⟨?_, by simp, by simp⟩
      by_cases above : wallet.neededFee coinControl result tx < wallet.paidFee params result (some pos).isSome
      · simp only [Option.isSome_some] at above
        simp [above]
      · have same := le_antisymm covered (not_lt.mp above)
        simp only [Option.isSome_some] at above same
        simp [same]

/-- A transaction with at most 252 inputs, and change that does not make the count of the outputs longer,
pays for itself. At a whole rate, with nothing above the target, it does exactly if the sizes of its pieces
cover its weight. -/
theorem createTransactionInternal_pays_of_counts
    (funded : Funded wallet coinControl vecSend givenPos params result tx changePos)
    (fits : SizesFit wallet coinControl params result tx changePos.isSome)
    (sized : ∀ coin ∈ result.selectedInputs, wallet.SizedByWallet coinControl coin)
    (small : 10 + getSizeOfCompactSize vecSend.length +
      (vecSend.map fun recipient => (recipient.txout.getSerializeSize : Int)).sum < 2 ^ 31)
    (changeSmall : (CTxOut.getSerializeSize ⟨0, wallet.scriptChange⟩ : Int) < 2 ^ 31) :
    (tx.vin.length < 253 → getSizeOfCompactSize tx.vout.length = getSizeOfCompactSize vecSend.length →
      wallet.PaysForItself coinControl vecSend givenPos result) ∧
    ∀ each > 0, wallet.effectiveFeerate.feerate.fee = each * wallet.effectiveFeerate.feerate.size →
      (changePos.isSome = true ∨ result.getSelectedEffectiveValue = wallet.selectionTarget params) →
      (wallet.PaysForItself coinControl vecSend givenPos result ↔
        Covered wallet coinControl params result tx changePos.isSome) := by
  have exact := funded.paysForItself_iff
  have sufficient (covered : Covered wallet coinControl params result tx changePos.isSome) :=
    exact.mpr (funded.pays_of_covered fits covered)
  refine ⟨fun inputCount outputCount => ?_, fun each positive whole tight => ⟨fun pays => ?_, sufficient⟩⟩
  · exact sufficient (funded.covered_of_counts sized small changeSmall inputCount outputCount)
  · exact funded.covered_of_pays fits positive whole tight (exact.mp pays).2

/-! ## A wallet with one coin -/

/-- The script of a witness key hash, and its descriptor. -/
def keyHashScript : CScript := OP_0 :: 20 :: List.replicate 20 0

def keyHashDescriptor : Descriptor where
  getOutputType := some .BECH32
  maxSatisfactionWeight useMaxSig := some (1 + (if useMaxSig then 72 else 71) + 1 + 33)
  maxSatisfactionElems := some 2

def spentCoin : COutput :=
  (COutput.withFeerate ⟨.ofNat 1, 0⟩ ⟨1000000, keyHashScript⟩ 68 (.perKvB 1000)).applyBumpFee 0

/-- A wallet that pays one satoshi for a byte and selects its only coin. -/
def oneCoinWallet : CWallet where
  mapWallet _ := some { vout := [spentCoin.txout] }
  inferDescriptor _ := some keyHashDescriptor
  getDescriptor _ := some keyHashDescriptor
  relayDustFee := .perKvB 3000
  discardFeerate := .perKvB 3000
  effectiveFeerate := .perKvB 1000
  scriptChange := keyHashScript
  selectCoins _ target := .ok { selectedInputs := [spentCoin], target, useEffective := true }
  randrange _ := 0
  shuffle coins := coins
  shuffle_perm coins := .refl coins

def payments (count : Nat) : List CRecipient := List.replicate count ⟨keyHashScript, 1000, false⟩

/-- With 252 recipients the change makes the count of the outputs two bytes longer, for which no
piece has paid: the wallet reports a bug of its own. -/
theorem payments_report_bug : spentCoin.inputBytes = oneCoinWallet.calculateMaximumSignedInputSize spentCoin.txout
        spentCoin.outpoint (some {}) ∧
      (oneCoinWallet.coinSelectionParams {} (payments 252)).toOption.any (fun params =>
        oneCoinWallet.selectionTarget params ≤ spentCoin.getEffectiveValue) ∧
      oneCoinWallet.createTransactionInternal {} (payments 252) none = .error .feeNeededExceedsPaid := by
  decide +kernel

theorem createTransactionInternal_pays_once : let result : SelectionResult := ⟨[spentCoin], 1042, true, 0⟩
    oneCoinWallet.PaysForItself {} (payments 1) none result ∧
      (oneCoinWallet.createTransactionInternal {} (payments 1) none).toOption.isSome = true := by
  intro result
  let params : CoinSelectionParams := ⟨42, 1000, 0, 31, 31, 294⟩
  let tx : CTransaction := {
    vin := [{ prevout := spentCoin.outpoint, nSequence := MAX_BIP125_RBF_SEQUENCE }]
    vout := [⟨998859, keyHashScript⟩, ⟨1000, keyHashScript⟩] }
  have funded : Funded oneCoinWallet {} (payments 1) none params result tx (some 0) := {
    noSubtract := by decide
    prepared := by decide +kernel
    needsCoins := by decide +kernel
    selected := rfl
    target := by decide +kernel
    useEffective := rfl
    priced := by
      intro coin listed
      cases List.mem_singleton.mp listed
      exact ⟨0, rfl⟩
    enough := by decide +kernel
    built := by decide +kernel
    sized := by decide +kernel }
  have fits : SizesFit oneCoinWallet {} params result tx true := {
    noinputs := by decide
    change := by decide
    inputs := by decide
    weight := by decide +kernel
    bumpFees := by decide +kernel
    paid := ⟨by decide, by decide, by decide, by decide +kernel, by decide +kernel⟩
    needed := ⟨by decide, by decide, by decide, by decide +kernel, by decide +kernel⟩ }
  have sized : ∀ coin ∈ result.selectedInputs, oneCoinWallet.SizedByWallet {} coin := by
    intro coin listed
    cases List.mem_singleton.mp listed
    refine ⟨by decide +kernel, rfl, rfl, by decide +kernel, ?_⟩
    rintro _ weight ⟨⟩ known
    cases known
    decide
  exact ⟨(createTransactionInternal_pays_of_counts funded fits sized (by decide +kernel) (by decide +kernel)).1
    (by decide) rfl, by decide +kernel⟩

end CWallet

end Sharecoin.Wallet
