import Sharecoin.Coins.ViewProgramProperties
import Sharecoin.Validation.BlockEffect

/-! What the checks on a transaction guarantee: inputs that differ, outputs that are
amounts, and a fee that is exactly what the inputs are worth above the outputs. The sums
are taken in 64 bits and never leave the range of amounts. -/

set_option autoImplicit false

namespace Sharecoin

open Lib Program

/-! ## Sums of amounts -/

theorem wrap64_of_moneyRange {left right : Int} (inLeft : moneyRange left = true)
    (inRight : moneyRange right = true) : wrap64 (left + right) = left + right := by
  rw [moneyRange_iff] at inLeft inRight
  have bound : MAX_MONEY < 2 ^ 62 := by decide
  exact wrap64_eq_self (by omega) (by omega)

theorem foldlM_valueOut {vout : List CTxOut} {nValueOut total : Int} (inRange : moneyRange nValueOut = true)
    (summed : vout.foldlM (fun nValueOut (txout : CTxOut) =>
        if !moneyRange txout.nValue || !moneyRange (nValueOut + txout.nValue) then none
        else some (nValueOut + txout.nValue)) nValueOut = some total) :
    total = nValueOut + outputsValue vout ∧ moneyRange total = true ∧ ∀ txout ∈ vout, 0 ≤ txout.nValue := by
  induction vout generalizing nValueOut with
  | nil =>
    cases summed
    exact ⟨by simp [outputsValue], inRange, List.forall_mem_nil _⟩
  | cons txout vout ih =>
    rw [List.foldlM_cons] at summed
    split at summed
    · cases summed
    next checked =>
      simp only [Bool.or_eq_true, Bool.not_eq_true', not_or, Bool.not_eq_false] at checked
      obtain ⟨sum, final, others⟩ := ih checked.2 summed
      refine ⟨?_, final, List.forall_mem_cons.mpr ⟨(moneyRange_iff.mp checked.1).1, others⟩⟩
      rw [sum]
      simp only [outputsValue, List.map_cons, List.sum_cons]
      omega

variable {tx : CTransaction}

theorem getValueOut_spec {valueOut : Int} (summed : tx.getValueOut = some valueOut) :
    valueOut = outputsValue tx.vout ∧ moneyRange valueOut = true ∧ ∀ txout ∈ tx.vout, 0 ≤ txout.nValue := by
  obtain ⟨sum, inRange, nonneg⟩ := foldlM_valueOut (by decide) summed
  exact ⟨by omega, inRange, nonneg⟩

/-! ## The transaction alone -/

theorem txCheck_eq_ok_iff {holds : Bool} {rejectReason : String} {done : Unit} :
    txCheck holds rejectReason = .ok done ↔ holds = true := by
  cases holds <;> simp [txCheck]

theorem vout_length_le (tx : CTransaction) : tx.vout.length ≤ (tx.serialize false).length := by
  have bytes : ∀ vout : List CTxOut, vout.length ≤ (vout.flatMap CTxOut.serialize).length := by
    intro vout
    induction vout with
    | nil => exact Nat.le_refl 0
    | cons txout vout ih =>
      have value : 8 ≤ (CTxOut.serialize txout).length := by
        simp [CTxOut.serialize]
      simp only [List.flatMap_cons, List.length_append, List.length_cons]
      omega
  have own := bytes tx.vout
  simp only [CTransaction.serialize, serializeVector, List.length_append]
  omega

structure Checked (tx : CTransaction) : Prop where
  inputsDiffer : (tx.vin.map CTxIn.prevout).Nodup
  outputsFit : tx.vout.length < 2 ^ 32

theorem checkTransaction_checked (passed : checkTransaction tx = .ok ()) : Checked tx := by
  simp only [checkTransaction, bind_eq_ok_iff, txCheck_eq_ok_iff] at passed
  obtain ⟨_, _, _, _, _, size, _, _, _, nodup, _⟩ := passed
  refine ⟨of_decide_eq_true nodup, ?_⟩
  have bounded := of_decide_eq_true size
  have outputs := vout_length_le tx
  simp only [WITNESS_SCALE_FACTOR, MAX_BLOCK_WEIGHT] at bounded
  omega

/-! ## Signature operations -/

section Cost

variable {φ : Type}

theorem getP2SHSigOpCount_readsOnly (tx : CTransaction) : ReadsOnly (getP2SHSigOpCount tx : ViewM φ Nat) := by
  unfold getP2SHSigOpCount
  split
  · exact .pure 0
  · exact .bind (.spentOutputs _) fun prevouts => .pure _

theorem getTransactionSigOpCost_readsOnly (flags : ScriptFlags) (tx : CTransaction) :
    ReadsOnly (getTransactionSigOpCost flags tx : ViewM φ Nat) := by
  unfold getTransactionSigOpCost
  dsimp only
  split
  · exact .pure _
  refine .bind ?_ fun redeemed => .bind (.spentOutputs _) fun prevouts => .pure _
  split
  · exact getP2SHSigOpCount_readsOnly tx
  · exact .pure 0

end Cost

/-! ## Inputs -/

section Inputs

variable {start below here : CoinMap} {deeper : List CoinMap} {view after : CCoinsView}

theorem Working.sumInputs {nSpendHeight : Int} {vin : List CTxIn} {nValueIn total : Int}
    (working : Working start below deeper view here) (inRange : moneyRange nValueIn = true)
    (ran : Returns (Sharecoin.sumInputs nSpendHeight vin nValueIn) view total after) :
    Working start below deeper after here ∧ total = nValueIn + inputsValue here vin ∧ moneyRange total = true := by
  induction vin generalizing view nValueIn with
  | nil =>
    obtain ⟨rfl, rfl⟩ := returns_pure_iff.mp ran
    exact ⟨working, by simp [inputsValue], inRange⟩
  | cons txin vin ih =>
    simp only [Sharecoin.sumInputs, returns_bind_iff, returns_insist_iff, returns_require_iff] at ran
    obtain ⟨coin, _, accessed, _, _, ⟨_, rfl⟩, _, _, ⟨_, rfl⟩, _, _, ⟨valued, rfl⟩, rest⟩ := ran
    obtain ⟨read, working⟩ := working.accessCoin accessed
    rw [Bool.and_eq_true] at valued
    obtain ⟨working, sum, final⟩ := ih working valued.2 rest
    refine ⟨working, ?_, final⟩
    rw [sum, wrap64_of_moneyRange inRange valued.1, read]
    simp only [inputsValue, List.map_cons, List.sum_cons]
    omega

/-- A transaction that pays a fee spends coins that exist, worth its outputs and the fee. -/
theorem Working.checkTxInputs {nSpendHeight txfee : Int} (working : Working start below deeper view here)
    (regular : tx.isCoinBase = false) (ran : Returns (Sharecoin.checkTxInputs tx nSpendHeight) view txfee after) :
    Working start below deeper after here ∧ (∀ txin ∈ tx.vin, here.lookup txin.prevout ≠ none) ∧
      inputsValue here tx.vin = outputsValue tx.vout + txfee ∧
      (∀ txout ∈ tx.vout, 0 ≤ txout.nValue) ∧ moneyRange txfee = true := by
  simp only [Sharecoin.checkTxInputs, ViewM.haveInputs, regular, Bool.false_eq_true, if_false,
    returns_bind_iff, returns_require_iff] at ran
  obtain ⟨available, _, looked, _, _, ⟨rfl, rfl⟩, nValueIn, _, summed, ran⟩ := ran
  obtain ⟨working, present⟩ := working.haveAll looked
  obtain ⟨working, sum, inRange⟩ := working.sumInputs (by decide) summed
  cases valued : tx.getValueOut with
  | none =>
    rw [valued] at ran
    exact absurd ran not_returns_abort
  | some valueOut =>
    obtain ⟨outputs, outRange, nonneg⟩ := getValueOut_spec valued
    rw [valued] at ran
    simp only [returns_bind_iff, returns_require_iff, returns_pure_iff] at ran
    obtain ⟨_, _, ⟨enough, rfl⟩, _, _, ⟨feeRange, rfl⟩, rfl, rfl⟩ := ran
    have least := of_decide_eq_true enough
    have plain : wrap64 (nValueIn - valueOut) = nValueIn - valueOut := by
      rw [moneyRange_iff] at inRange outRange
      have bound : MAX_MONEY < 2 ^ 62 := by decide
      exact wrap64_eq_self (by omega) (by omega)
    exact ⟨working, present rfl, by omega, nonneg, feeRange⟩

end Inputs

end Sharecoin
