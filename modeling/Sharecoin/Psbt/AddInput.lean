import Sharecoin.Psbt.UniqueId

/-! Adding an input to a PSBT. Once some input is signed, a version 2 PSBT only takes inputs that
leave its lock time as it is. -/

set_option autoImplicit false

namespace Sharecoin

namespace PSBTInput

def hasSignatures (input : PSBTInput) : Bool :=
  !input.finalScriptSig.isEmpty || !input.finalScriptWitness.isEmpty ||
    !input.partialSigs.isEmpty || !input.tapKeySig.isEmpty || !input.tapScriptSigs.isEmpty ||
    !input.musig2PartialSigs.isEmpty

def requiresLock (input : PSBTInput) : Bool :=
  input.timeLocktime.isSome || input.heightLocktime.isSome

end PSBTInput

open PSBTInput

namespace PartiallySignedTransaction

/-- What `AddInput` finds for an input that requires a lock: whether the signatures allow the
lock time with it, `none` where it returns early. The scan starts from the locks of the new
input; the body of its loop is that of `ComputeTimeLock`. -/
def allowsLock (psbt : PartiallySignedTransaction) (psbtin : PSBTInput) : Option Bool := do
  let oldTimelock ← psbt.computeTimeLock
  let locks ← psbt.inputs.foldlM OpenLocks.require ⟨psbtin.timeLocktime, psbtin.heightLocktime⟩
  let newTimelock :=
    if 0 < locks.height.getD 0 then locks.height.getD 0
    else if 0 < locks.time.getD 0 then locks.time.getD 0
    else psbt.fallbackLocktime.getD 0
  some (!(psbt.inputs.any hasSignatures && oldTimelock != newTimelock))

/-- `PartiallySignedTransaction::AddInput` for an input made for the given version. -/
def addInput (psbt : PartiallySignedTransaction) (version : UInt32) (psbtin : PSBTInput) :
    Bool × PartiallySignedTransaction :=
  if version != psbt.getVersion then (false, psbt)
  else if psbt.inputs.any fun input =>
      input.prevTxid == psbtin.prevTxid && input.prevOut == psbtin.prevOut then (false, psbt)
  else if psbt.getVersion < 2 then
    (true, { psbt with inputs := psbt.inputs ++
      [{ psbtin with partialSigs := ∅, finalScriptSig := [], finalScriptWitness := [] }] })
  else if !psbt.txModifiable.any (·.getLsbD 0) then (false, psbt)
  else if psbtin.requiresLock && psbt.allowsLock psbtin != some true then (false, psbt)
  else (true, { psbt with inputs := psbt.inputs ++ [psbtin] })

variable {psbt : PartiallySignedTransaction} {psbtin : PSBTInput}

theorem addInput_cases (two : psbt.getVersion ≥ 2) (version : UInt32) (psbtin : PSBTInput) :
    psbt.addInput version psbtin = (false, psbt) ∨
      psbt.addInput version psbtin = (true, { psbt with inputs := psbt.inputs ++ [psbtin] }) ∧
        (psbtin.requiresLock = true → psbt.allowsLock psbtin = some true) := by
  rw [addInput, if_neg (UInt32.not_lt.mpr two)]
  repeat' split
  case isFalse accepted => exact .inr ⟨rfl, by simpa using accepted⟩
  all_goals exact .inl rfl

theorem greatestLock_perm {left right : List (Option UInt32)} (perm : left.Perm right) :
    greatestLock left = greatestLock right := by
  have comm : LeftCommutative fun (lock : Option UInt32) greatest => max (lock.getD 0) greatest :=
    ⟨by grind [uint32_max]⟩
  exact perm.foldr_eq 0

/-- The order of the inputs does not matter to the lock time they need. -/
theorem computeTimeLock_concat (psbt : PartiallySignedTransaction) (psbtin : PSBTInput) :
    { psbt with inputs := psbt.inputs ++ [psbtin] }.computeTimeLock =
      { psbt with inputs := psbtin :: psbt.inputs }.computeTimeLock := by
  have perm := (List.perm_append_singleton psbtin psbt.inputs).map requirement
  rw [computeTimeLock_eq, computeTimeLock_eq]
  simp only [neededLockTime, perm.any_eq, greatestLock_perm (perm.map _)]
  rfl

theorem require_first (required : psbtin.requiresLock = true) :
    OpenLocks.require ⟨some 0, some 0⟩ psbtin =
      some ⟨psbtin.timeLocktime, psbtin.heightLocktime⟩ := by
  cases time : psbtin.timeLocktime <;> cases height : psbtin.heightLocktime <;>
    simp_all [OpenLocks.require, uint32_zero_max, requiresLock]

theorem computeTimeLock_cons_free (free : psbtin.requiresLock = false) :
    { psbt with inputs := psbtin :: psbt.inputs }.computeTimeLock = psbt.computeTimeLock := by
  have kept (locks : OpenLocks) : locks.require psbtin = some locks := by
    simp only [requiresLock, Bool.or_eq_false_iff] at free
    cases locks
    simp_all [OpenLocks.require, uint32_max_zero]
  rw [computeTimeLock, List.foldlM_cons, kept]
  rfl

/-- The scan of `AddInput` is that of `ComputeTimeLock` with the new input in front. -/
theorem allowsLock_eq (two : psbt.getVersion ≥ 2) (required : psbtin.requiresLock = true) :
    psbt.allowsLock psbtin = psbt.computeTimeLock.bind fun oldTimelock =>
      { psbt with inputs := psbtin :: psbt.inputs }.computeTimeLock.map fun newTimelock =>
        !(psbt.inputs.any hasSignatures && oldTimelock != newTimelock) := by
  have two' : { psbt with inputs := psbtin :: psbt.inputs }.getVersion ≥ 2 := two
  refine congrArg (Option.bind _) (funext fun oldTimelock => ?_)
  rw [computeTimeLock, if_pos two', List.foldlM_cons, require_first required]
  simp only [Option.bind_eq_bind, Option.bind_some]
  cases psbt.inputs.foldlM OpenLocks.require ⟨psbtin.timeLocktime, psbtin.heightLocktime⟩ with
  | none => simp
  | some locks => rcases locks with ⟨_ | time, _ | height⟩ <;> simp only [Option.bind_some] <;> grind

/-- A PSBT whose lock time is defined keeps one that is, and the one it had once it is signed. -/
theorem addInput_keeps_lock_time (psbt : PartiallySignedTransaction) (two : psbt.getVersion ≥ 2)
    (locked : psbt.computeTimeLock.isSome = true) (version : UInt32) (psbtin : PSBTInput) :
    let result := psbt.addInput version psbtin
    (result.1 = true → result.2 = { psbt with inputs := psbt.inputs ++ [psbtin] } ∧
        result.2.computeTimeLock.isSome = true ∧
        (psbt.inputs.any hasSignatures = true → result.2.computeTimeLock = psbt.computeTimeLock)) ∧
      (result.1 = false → result.2 = psbt) := by
  obtain refused | ⟨added, allowed⟩ := addInput_cases two version psbtin
  · simp [refused]
  simp only [added, computeTimeLock_concat]
  cases required : psbtin.requiresLock with
  | false => simp [computeTimeLock_cons_free required, locked]
  | true =>
    have allowed := allowed required
    rw [allowsLock_eq two required] at allowed
    simp only [Option.bind_eq_some_iff, Option.map_eq_some_iff] at allowed
    obtain ⟨oldTimelock, old, newTimelock, new, kept⟩ := allowed
    simp only [old, new]
    grind

/-- An input with a lower lock than the one signed for is added. -/
theorem addInput_keeps_signed_height :
    let psbt : PartiallySignedTransaction := {
      version := some 2
      txVersion := 2
      txModifiable := some 1#8
      inputs := [{ prevTxid := .ofNat 1, prevOut := 0, heightLocktime := some 100, tapKeySig := [1] }] }
    let result := psbt.addInput 2 { prevTxid := .ofNat 2, prevOut := 0, heightLocktime := some 50 }
    result.1 = true ∧ psbt.inputs.any hasSignatures = true ∧
      result.2.computeTimeLock = psbt.computeTimeLock :=
  have added := by decide +kernel
  have signed := by decide +kernel
  ⟨added, signed, ((addInput_keeps_lock_time _ (by decide) (by decide +kernel) 2 _).1 added).2.2 signed⟩

end PartiallySignedTransaction

end Sharecoin
