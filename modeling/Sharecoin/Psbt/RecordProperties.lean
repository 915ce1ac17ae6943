import Sharecoin.Psbt.Records

/-! Which records a map writes, and what merging makes of each slot: all but the sighash type
and the modifiable flags keep the first value given. -/

set_option autoImplicit false

namespace Sharecoin

open Lib
open Std (ExtTreeMap)

theorem present_fillMissing {α : Type} (missing : α → Bool) (this other : α) :
    present missing (fillMissing missing this other) = (present missing this).or (present missing other) := by
  cases own : missing this <;> cases given : missing other <;>
    simp [present, fillMissing, own, given]

theorem exists_of_lookupNested {κ ι ν : Type} {cmp : κ → κ → Ordering} {inner : ι → ι → Ordering} [Std.TransCmp cmp]
    [Std.TransCmp inner] {nested : ExtTreeMap κ (ExtTreeMap ι ν inner) cmp} {outer : κ} {key : ι}
    (given : (lookupNested nested outer key).isSome = true) :
    ∃ entries, nested[outer]? = some entries ∧ key ∈ entries := by
  obtain ⟨value, given⟩ := Option.isSome_iff_exists.mp given
  obtain ⟨entries, found, given⟩ := Option.bind_eq_some_iff.mp given
  exact ⟨entries, found, ExtTreeMap.isSome_getElem?_iff_mem.mp (by simp [given])⟩

variable {version : UInt32}

namespace PSBTInput

theorem content_merge (this input : PSBTInput) {slot : InputSlot} (kept : slot ≠ .sighash) :
    (this.merge input).content slot = (this.content slot).or (input.content slot) := by
  cases slot <;>
    simp_all [content, merge, present_fillMissing, lookupNested_mergeNested, Option.map_or]

def writes (version : UInt32) (input : PSBTInput) (slot : InputSlot) : Bool :=
  (!slot.signing || !input.isFinal) && (!slot.versionTwo || decide (version ≥ 2))

variable {input : PSBTInput}

theorem mem_slots {slot : InputSlot}
    (given : (input.content slot).isSome = true) : slot ∈ input.slots version ↔ input.writes version slot = true := by
  cases slot with
  | musig2PubNonce aggregateLeaf participant | musig2PartialSig aggregateLeaf participant =>
    obtain ⟨entries, found, member⟩ := exists_of_lookupNested (by simpa [content] using given)
    simpa [slots, signingSlots, writes, InputSlot.signing, InputSlot.versionTwo] using
      fun _ => ⟨_, _, entries, found, member, rfl⟩
  | _ =>
    simp_all [content, slots, signingSlots, writes, InputSlot.signing, InputSlot.versionTwo]

theorem mem_records {record : InputKey × Bytes} :
    record ∈ input.records version ↔ ∃ slot records, input.content slot = some records ∧ record ∈ records ∧
        input.writes version slot = true := by
  simp only [records, List.mem_flatMap]
  refine exists_congr fun slot => ?_
  cases given : input.content slot with
  | none => simp
  | some records =>
    rw [mem_slots (by simp [given])]
    simp [and_comm]

theorem isFinal_iff : input.isFinal = true ↔
      (input.content .scriptSig).isSome = true ∨ (input.content .scriptWitness).isSome = true := by
  cases sig : input.finalScriptSig <;> cases witness : input.finalScriptWitness <;>
    simp [isFinal, content, present, sig, witness]

end PSBTInput

namespace PSBTOutput

theorem content_merge (this output : PSBTOutput) (key : OutputKey) :
    (this.merge output).content key = (this.content key).or (output.content key) := by
  cases key <;> simp [content, merge, present_fillMissing, Option.map_or]

theorem mem_records {output : PSBTOutput} {key : OutputKey} {value : Bytes} :
    (key, value) ∈ output.records version ↔
      output.content key = some value ∧ (key.versionTwo = true → version ≥ 2) := by
  have listed : (key, value) ∈ output.records version ↔
      key ∈ output.slots version ∧ output.content key = some value := by
    simp only [records, List.mem_flatMap, Option.mem_toList, Option.map_eq_some_iff, Prod.mk.injEq]
    constructor
    · rintro ⟨slot, member, found, given, rfl, rfl⟩
      exact ⟨member, given⟩
    · rintro ⟨member, given⟩
      exact ⟨key, member, value, given, rfl, rfl⟩
  rw [listed, and_comm, and_congr_right_iff]
  intro given
  have known := Option.isSome_iff_exists.mpr ⟨value, given⟩
  clear given
  cases key <;> simp_all [content, slots, OutputKey.versionTwo]

end PSBTOutput

namespace PartiallySignedTransaction

/-- Whether the version of a PSBT writes a slot of the global map. -/
def writes (psbt : PartiallySignedTransaction) : GlobalSlot → Bool
  | .unsignedTx => decide (psbt.getVersion < 2)
  | slot => !slot.versionTwo || decide (psbt.getVersion ≥ 2)

def written (psbt : PartiallySignedTransaction) (slot : GlobalSlot) : Option (GlobalKey × Bytes) :=
  if psbt.writes slot then psbt.content slot else none

theorem mem_records {psbt : PartiallySignedTransaction} {record : GlobalKey × Bytes} :
    record ∈ psbt.records ↔ ∃ slot, psbt.written slot = some record := by
  rw [records, List.mem_filterMap]
  refine exists_congr fun slot => ?_
  rw [written, Option.ite_none_right_eq_some, and_congr_left_iff]
  intro given
  have known := Option.isSome_iff_exists.mpr ⟨record, given⟩
  cases slot with
  | xpub origin rank =>
    obtain ⟨entries, found, member⟩ := exists_of_lookupNested (by simpa [content] using known)
    simp only [writes, GlobalSlot.versionTwo, Bool.not_false, Bool.true_or, iff_true]
    apply List.mem_flatten.mpr
    refine ⟨_, .tail _ (.head _), List.mem_flatMap.mpr
      ⟨(origin, entries), ExtTreeMap.mem_toList_iff_getElem?_eq_some.mpr found, ?_⟩⟩
    exact List.mem_map_of_mem (ExtTreeMap.mem_keys.mpr member)
  | _ => simp_all [content, slots, writes, GlobalSlot.versionTwo]

/-! ### What merging makes of it -/

theorem getUnsignedTx_of_old (psbt : PartiallySignedTransaction) (old : ¬ psbt.getVersion ≥ 2) :
    psbt.getUnsignedTx = psbt.computeTimeLock.map psbt.identity := by
  cases locked : psbt.computeTimeLock <;> simp [getUnsignedTx, locked, identity, old]

variable {this psbt : PartiallySignedTransaction}

theorem getUnsignedTx_mergeFields (agree : Agree this psbt)
    (old : ¬ this.getVersion ≥ 2) : (this.mergeFields psbt).getUnsignedTx = this.getUnsignedTx := by
  have same := (sameButLock_mergeFields agree.sameButLock).identity_eq
  rw [getUnsignedTx_of_old (this.mergeFields psbt) old, getUnsignedTx_of_old this old,
    computeTimeLock_mergeFields agree old]
  exact congrArg (fun hashed => this.computeTimeLock.map hashed) (funext same)

theorem written_mergeFields (agree : Agree this psbt) {slot : GlobalSlot} (flagless : slot ≠ .txModifiable) :
    (this.mergeFields psbt).written slot = (this.written slot).or (psbt.written slot) := by
  have version := agree.sameButLock.1
  have writesMerged : (this.mergeFields psbt).writes slot = this.writes slot := by
    cases slot <;> rfl
  have writesOther : psbt.writes slot = this.writes slot := by
    cases slot <;> simp [writes, version]
  rw [written, written, written, writesMerged, writesOther]
  cases shows : this.writes slot with
  | false => rfl
  | true =>
    simp only [if_true]
    cases slot with
    | unsignedTx =>
      have old : ¬ this.getVersion ≥ 2 := by simpa [writes] using shows
      obtain ⟨locktime, own, -⟩ := agree.sameLock
      have known : this.getUnsignedTx = some (this.identity locktime) := by
        rw [getUnsignedTx_of_old _ old, own, Option.map_some]
      simp [content, getUnsignedTx_mergeFields agree old, known]
    | version => by_cases positive : 0 < psbt.getVersion <;> simp [content, version, positive]
    | txModifiable => simp at flagless
    | _ =>
      simp [content, mergeFields, lookupNested_mergeNested, Option.map_or, length_mergeEach]

end PartiallySignedTransaction

end Sharecoin
