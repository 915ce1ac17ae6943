import Sharecoin.Wallet.SpendProperties

/-! What recipients that pay the fee get. The fee is taken off their amounts as far as the coins do
not cover it already, so coins that cover more than the fee are handed to them. -/

set_option autoImplicit false

namespace Sharecoin.Wallet

open Lib

namespace CWallet

variable {wallet : CWallet} {coinControl : CCoinControl} {vecSend : List CRecipient} {givenPos changePos : Option Nat}
  {params : CoinSelectionParams} {result : SelectionResult} {tx : CTransaction} {created : CreatedTransaction}
  {vout after : List CTxOut} {toReduce : Int} {count : Nat}

/-- The outputs for the recipients. -/
def withoutChange (changePos : Option Nat) (vout : List CTxOut) : List CTxOut :=
  match changePos with
  | some pos => vout.eraseIdx pos
  | none => vout

/-- Every marked recipient is charged a share, and the first of them a remainder. -/
def charge (share : Int) : Int → List CRecipient → List CTxOut
  | _, [] => []
  | remainder, recipient :: vecSend =>
    if recipient.fSubtractFeeFromAmount then
      ⟨recipient.nAmount - share - remainder, recipient.script⟩ :: charge share 0 vecSend
    else recipient.txout :: charge share remainder vecSend

/-- What the recipients have to pay: the part of the fee that the coins do not cover beside the amounts
and the change. It is negative where they cover more, too little for change. -/
def shortfall (vecSend : List CRecipient) (params : CoinSelectionParams) (result : SelectionResult) (needed : Int) : Int :=
  let left := result.getSelectedValue - (vecSend.map (·.nAmount)).sum
  let change := result.getChange params.minViableChange params.changeFee
  if change > 0 then max 0 (needed - (left - change)) else needed - left

/-! ## The loop -/

/-- The place among all outputs of the output for a recipient. -/
def slot (changePos : Option Nat) (index : Nat) : Nat :=
  if changePos.any (· ≤ index) then index + 1 else index

theorem getElem?_slot (vout : List CTxOut) (index : Nat) :
    vout[slot changePos index]? = (withoutChange changePos vout)[index]? := by
  cases changePos with
  | none => rfl
  | some pos =>
    rw [withoutChange, List.getElem?_eraseIdx, slot, Option.any_some]
    by_cases below : index < pos
    · simp [below, Nat.not_le.mpr below]
    · simp [below, Nat.not_lt.mp below]

theorem withoutChange_set (vout : List CTxOut) (index : Nat) (txout : CTxOut) :
    withoutChange changePos (vout.set (slot changePos index) txout) = (withoutChange changePos vout).set index txout := by
  cases changePos with
  | none => rfl
  | some pos =>
    simp only [withoutChange, slot, Option.any_some, decide_eq_true_eq]
    split
    next above => exact List.eraseIdx_set_lt (Nat.lt_succ_of_le above)
    next below => exact List.eraseIdx_set_gt (Nat.not_le.mp below)

theorem slot_succ (index : Nat) : (if changePos = some (slot changePos index + 1) then slot changePos index + 1 + 1
    else slot changePos index + 1) = slot changePos (index + 1) := by
  cases changePos with
  | none => rfl
  | some pos =>
    simp only [slot, Option.any_some, decide_eq_true_eq, Option.some.injEq]
    split_ifs <;> omega

theorem map_size_set (vout : List CTxOut) (place : Nat) (nValue : Int) :
    (vout.set place { vout.getD place {} with nValue }).map CTxOut.getSerializeSize =
      vout.map CTxOut.getSerializeSize := by
  induction vout generalizing place with
  | nil => rfl
  | cons txout vout ih =>
    cases place with
    | zero => exact congrArg (· :: _) (getSerializeSize_eq txout nValue)
    | succ place => exact congrArg (_ :: ·) (ih place)

theorem subtractFee_spec {i : Nat} {fFirst : Bool} {front : List CTxOut}
    (place : (if changePos = some i then i + 1 else i) = slot changePos front.length)
    (left : withoutChange changePos vout = front ++ vecSend.map CRecipient.txout)
    (reduced : wallet.subtractFee toReduce count changePos vecSend i fFirst vout = .ok after) :
    withoutChange changePos after =
        front ++ charge (toReduce.tdiv count) (if fFirst then toReduce.tmod count else 0) vecSend ∧
      after.map CTxOut.getSerializeSize = vout.map CTxOut.getSerializeSize := by
  induction vecSend generalizing i fFirst front vout with
  | nil =>
    cases reduced
    exact ⟨left, rfl⟩
  | cons recipient vecSend ih =>
    rw [subtractFee] at reduced
    dsimp only at reduced
    rw [place] at reduced
    have own : vout.getD (slot changePos front.length) {} = recipient.txout := by
      rw [List.getD_eq_getElem?_getD, getElem?_slot, left, List.map_cons, List.getElem?_append_right le_rfl]
      simp
    have going (txout : CTxOut) : (if changePos = some (slot changePos front.length + 1)
        then slot changePos front.length + 1 + 1 else slot changePos front.length + 1) =
        slot changePos (front ++ [txout]).length := by
      rw [slot_succ, List.length_append, List.length_singleton]
    unfold charge
    split
    next marked =>
      rw [if_pos marked] at reduced
      generalize (if fFirst then toReduce.tmod count else 0) = remainder at reduced ⊢
      split at reduced
      · cases reduced
      have done (txout : CTxOut) : withoutChange changePos (vout.set (slot changePos front.length) txout) =
          front ++ [txout] ++ vecSend.map CRecipient.txout := by
        rw [withoutChange_set, left, List.map_cons, List.set_append_right _ _ le_rfl, Nat.sub_self, List.set_cons_zero,
          List.append_cons]
      obtain ⟨charged, sizes⟩ := ih (going _) (done _) reduced
      rw [own] at charged
      exact ⟨charged.trans (List.append_cons _ _ _).symm, sizes.trans (map_size_set _ _ _)⟩
    next unmarked =>
      rw [if_neg unmarked] at reduced
      obtain ⟨charged, sizes⟩ := ih (going _) (left.trans (List.append_cons _ _ _)) reduced
      exact ⟨charged.trans (List.append_cons _ _ _).symm, sizes⟩

/-! ## What is charged -/

/-- Nobody is paid more than asked for. -/
def NoneOverpaid : List CRecipient → List CTxOut → Prop :=
  List.Forall₂ fun recipient txout => txout.nValue ≤ recipient.nAmount

theorem noneOverpaid_charge {share remainder : Int} (nonneg : 0 ≤ share) (rest : 0 ≤ remainder) :
    NoneOverpaid vecSend (charge share remainder vecSend) := by
  induction vecSend generalizing remainder with
  | nil => exact .nil
  | cons recipient vecSend ih =>
    rw [charge]
    split
    · exact .cons (by dsimp only; omega) (ih le_rfl)
    · exact .cons le_rfl (ih rest)

theorem charge_of_none {share remainder : Int} (none : vecSend.countP (·.fSubtractFeeFromAmount) = 0) :
    charge share remainder vecSend = vecSend.map CRecipient.txout := by
  induction vecSend with
  | nil => rfl
  | cons recipient vecSend ih =>
    obtain ⟨unmarked, others⟩ := List.forall_mem_cons.mp (List.countP_eq_zero.mp none)
    rw [charge, if_neg unmarked, ih (List.countP_eq_zero.mpr others), List.map_cons]

/-! ## The transaction -/

theorem withoutChange_adjustChange (vout : List CTxOut) (feeNeeded currentFee : Int) :
    withoutChange changePos (adjustChange vout changePos feeNeeded currentFee) = withoutChange changePos vout := by
  unfold adjustChange
  split
  · split
    · exact List.eraseIdx_modify_of_eq _ _ _
    · rfl
  · rfl

theorem buildTransaction_inv
    (built : wallet.buildTransaction coinControl vecSend givenPos params result = .ok (tx, changePos)) :
    withoutChange changePos tx.vout = vecSend.map CRecipient.txout ∧
      let change := result.getChange params.minViableChange params.changeFee
      (changePos.isSome = true ↔ change > 0) ∧ outputValue tx.vout =
        (vecSend.map (·.nAmount)).sum + if change > 0 then change else 0 := by
  simp only [buildTransaction, bind_eq_ok_iff, Except.ok.injEq, Prod.mk.injEq] at built
  obtain ⟨outputs, made, rfl, rfl⟩ := built
  have cases := makeOutputs_inv made
  dsimp only
  split at cases
  next positive =>
    obtain ⟨pos, inRange, atPos, vout⟩ := cases
    rw [atPos, if_pos positive, vout, outputValue_insertIdx (by simpa using inRange), outputValue_recipients]
    exact ⟨List.eraseIdx_insertIdx_self _, iff_of_true rfl positive, rfl⟩
  next none =>
    rw [cases, if_neg none, outputValue_recipients, add_zero]
    exact ⟨rfl, iff_of_false Bool.false_ne_true none, rfl⟩

theorem settleFee_inv (built : wallet.buildTransaction coinControl vecSend givenPos params result = .ok (tx, changePos))
    (counted : params.outputsToSubtractFeeFrom = vecSend.countP (·.fSubtractFeeFromAmount))
    (settled : wallet.settleFee coinControl vecSend params result tx changePos = .ok created) :
    let needed := wallet.neededFee coinControl result tx
    let count := vecSend.countP (·.fSubtractFeeFromAmount)
    let toReduce := shortfall vecSend params result needed
    created.changePos = changePos ∧ wallet.neededFee coinControl result created.tx = needed ∧
      created.fee = result.getSelectedValue - outputValue created.tx.vout ∧
      withoutChange changePos created.tx.vout = charge (toReduce.tdiv count) (toReduce.tmod count) vecSend ∧
      (0 < count → created.fee = needed) ∧ (count = 0 → created.fee = needed - toReduce ∧ toReduce ≤ 0) := by
  intro needed count toReduce
  obtain ⟨recipients, hasChange, value⟩ := buildTransaction_inv built
  have whole : wallet.neededFee coinControl result tx = needed := rfl
  have sizes := @map_size_adjustChange changePos tx.vout needed (result.getSelectedValue - outputValue tx.vout)
  have left := @withoutChange_adjustChange changePos tx.vout needed (result.getSelectedValue - outputValue tx.vout)
  simp only [settleFee, ← neededFee.eq_def, whole, CoinSelectionParams.subtractFeeOutputs, counted, bind_eq_ok_iff,
    refuseIf_eq_ok_iff, decide_eq_true_eq] at settled
  obtain ⟨_, -, _, -, _, agrees, settled⟩ := settled
  have reduction : needed - (result.getSelectedValue - outputValue (adjustChange tx.vout changePos needed
      (result.getSelectedValue - outputValue tx.vout))) = toReduce := by
    change _ = shortfall vecSend params result needed
    unfold shortfall
    dsimp only
    cases changePos with
    | none =>
      have noChange := hasChange.not.mp Bool.false_ne_true
      rw [if_neg noChange, add_zero] at value
      rw [if_neg noChange, adjustChange, value]
    | some pos =>
      rw [if_pos (hasChange.mp rfl)] at value ⊢
      by_cases above : needed < result.getSelectedValue - outputValue tx.vout
      · have exact := not_not.mp fun other => agrees ⟨rfl, above, other⟩
        omega
      · rw [adjustChange, if_neg above]
        omega
  generalize adjustChange tx.vout changePos needed (result.getSelectedValue - outputValue tx.vout) = adjusted at *
  by_cases marked : 0 < count
  · simp only [show 0 < vecSend.countP (·.fSubtractFeeFromAmount) from marked, if_true, bind_eq_ok_iff,
      refuseIf_eq_ok_iff, true_and] at settled
    obtain ⟨vout, reduced, _, exact, _, -, ⟨⟩⟩ := settled
    have place : (if changePos = some 0 then 0 + 1 else 0) = slot changePos (List.length ([] : List CTxOut)) := by
      cases changePos <;> simp [slot]
    rw [reduction] at reduced
    obtain ⟨charged, kept⟩ := subtractFee_spec place (left.trans recipients) reduced
    exact ⟨rfl, neededFee_congr (kept.trans sizes), rfl, charged, fun _ => (not_not.mp exact).symm,
      fun none => absurd none marked.ne'⟩
  · have none := Nat.eq_zero_of_not_pos marked
    simp only [show ¬ 0 < vecSend.countP (·.fSubtractFeeFromAmount) from marked, if_false, bind_eq_ok_iff,
      refuseIf_eq_ok_iff, false_and, Except.ok.injEq] at settled
    obtain ⟨_, rfl, _, -, _, covers, rfl⟩ := settled
    exact ⟨rfl, neededFee_congr sizes, rfl, left.trans (recipients.trans (charge_of_none none).symm),
      fun some => absurd some marked, fun _ => by dsimp only; omega⟩

/-- The fee is what the coins are worth above the outputs. The part of it that is taken off the marked
recipients is shared evenly, its remainder going to the first of them. If there is change, or the coins
are worth no more than the amounts and the fee that is needed, then nobody is overpaid and that fee is
paid. What they are worth above that otherwise goes to the marked recipients or, without one, to the fee. -/
theorem createTransactionInternal_charges
    (prepared : wallet.coinSelectionParams coinControl vecSend = .ok params)
    (selected : wallet.selectCoins params (wallet.selectionTarget params) = .ok result)
    (done : wallet.createTransactionInternal coinControl vecSend givenPos = .ok created) :
    let needed := wallet.neededFee coinControl result created.tx
    let outputs := withoutChange created.changePos created.tx.vout
    let amounts := (vecSend.map (·.nAmount)).sum
    let count := vecSend.countP (·.fSubtractFeeFromAmount)
    let toReduce := shortfall vecSend params result needed
    let used := created.changePos.isSome = true ∨ result.getSelectedValue ≤ amounts + needed
    created.fee = result.getSelectedValue - outputValue created.tx.vout ∧
      outputs = charge (toReduce.tdiv count) (toReduce.tmod count) vecSend ∧
      (used → NoneOverpaid vecSend outputs) ∧ (used ∨ 0 < count → created.fee = needed) ∧
      (¬ used → let leftover := result.getSelectedValue - amounts - needed
        (0 < count → outputValue outputs = amounts + leftover) ∧ (count = 0 → created.fee = needed + leftover)) := by
  simp only [createTransactionInternal, prepared, bind_eq_ok_iff, Except.ok.injEq, exists_eq_left'] at done
  rw [selected] at done
  obtain ⟨_, -, _, ⟨⟩, ⟨tx, changePos⟩, built, settled⟩ := done
  obtain ⟨-, hasChange, -⟩ := buildTransaction_inv built
  obtain ⟨change, size, fee, outputs, marked, unmarked⟩ :=
    settleFee_inv built (coinSelectionParams_inv prepared).2.1 settled
  intro needed
  dsimp only
  have direction : 0 ≤ shortfall vecSend params result needed ↔
      changePos.isSome = true ∨ result.getSelectedValue ≤ (vecSend.map (·.nAmount)).sum + needed := by
    rw [hasChange, shortfall]
    split <;> omega
  have same : wallet.neededFee coinControl result tx = needed := size.symm
  rw [same] at outputs marked unmarked
  rw [change, outputs, ← direction]
  refine ⟨fee, rfl, fun nonneg => ?_, fun paid => ?_, fun unused => ⟨fun some => ?_, fun none => ?_⟩⟩
  · exact noneOverpaid_charge (Int.tdiv_nonneg nonneg (Int.natCast_nonneg _)) (Int.tmod_nonneg _ nonneg)
  · rcases Nat.eq_zero_or_pos (vecSend.countP (·.fSubtractFeeFromAmount)) with none | some
    · have paidFee := unmarked none
      omega
    · exact marked some
  · have noChange : changePos = none := by
      by_contra other
      exact unused (direction.mpr (.inl (Option.isSome_iff_ne_none.mpr other)))
    have paidFee := marked some
    rw [noChange] at outputs
    rw [← outputs, withoutChange]
    omega
  · have noChange : ¬ result.getChange params.minViableChange params.changeFee > 0 := fun positive =>
      unused (direction.mpr (.inl (hasChange.mpr positive)))
    have paidFee := unmarked none
    rw [shortfall, if_neg noChange] at paidFee
    omega

/-- The wallet of one coin, where recipients pay the fee. -/
def sharingWallet : CWallet :=
  { oneCoinWallet with
    selectCoins := fun _ target => .ok { selectedInputs := [spentCoin], target, useEffective := false } }

def payment (nAmount : Int) (fSubtractFeeFromAmount : Bool) : List CRecipient :=
  [⟨keyHashScript, nAmount, fSubtractFeeFromAmount⟩]

/-- The coin is worth 150 more than the amount, too little for change. The fee that is needed is 110:
a marked recipient gets the rest, and without one all of it is paid as the fee. -/
theorem payment_of_leftover :
    [true, false].map (fun fSubtractFeeFromAmount =>
      (sharingWallet.createTransactionInternal {} (payment 999850 fSubtractFeeFromAmount) none).toOption.map
        fun created => (created.fee, created.tx.vout)) =
      [some (110, [⟨999890, keyHashScript⟩]), some (150, [⟨999850, keyHashScript⟩])] := by
  decide +kernel

theorem payment_of_whole_coin : let created : CreatedTransaction := {
      tx := {
        vin := [{ prevout := spentCoin.outpoint, nSequence := MAX_BIP125_RBF_SEQUENCE }]
        vout := [⟨999890, keyHashScript⟩] }
      fee := 110
      changePos := none }
    NoneOverpaid (payment 1000000 true) created.tx.vout := by
  intro created
  have prepared : sharingWallet.coinSelectionParams {} (payment 1000000 true) =
      .ok ⟨42, 1000000, 1, 31, 31, 294⟩ := by
    decide +kernel
  have done : sharingWallet.createTransactionInternal {} (payment 1000000 true) none = .ok created := by
    decide +kernel
  exact (createTransactionInternal_charges prepared rfl done).2.2.1 (.inr (by decide +kernel))

end CWallet

end Sharecoin.Wallet
