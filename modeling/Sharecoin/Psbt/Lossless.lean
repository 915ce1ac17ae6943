import Sharecoin.Psbt.RecordProperties

/-! What combining PSBTs keeps of their records. Every slot of the result holds the first
content that a PSBT of the list gives it, apart from the sighash type, which is the first
PSBT's, and the modifiable flags, which are joined. -/

set_option autoImplicit false

namespace Sharecoin

open Lib

variable {index : Nat} {input : PSBTInput} {output : PSBTOutput} {version : UInt32}
  {slot : InputSlot} {records : List (InputKey × Bytes)} {value : Bytes}

namespace PartiallySignedTransaction

variable {sha256d : Bytes → Uint256}

def inputsAt (psbts : List PartiallySignedTransaction) (index : Nat) : List PSBTInput :=
  psbts.filterMap (·.inputs[index]?)

def outputsAt (psbts : List PartiallySignedTransaction) (index : Nat) : List PSBTOutput :=
  psbts.filterMap (·.outputs[index]?)

theorem mem_inputsAt {psbts : List PartiallySignedTransaction} :
    input ∈ inputsAt psbts index ↔ ∃ psbt ∈ psbts, psbt.inputs[index]? = some input :=
  List.mem_filterMap

theorem mem_outputsAt {psbts : List PartiallySignedTransaction} :
    output ∈ outputsAt psbts index ↔ ∃ psbt ∈ psbts, psbt.outputs[index]? = some output :=
  List.mem_filterMap

theorem SameButLock.length_outputs {left right : PartiallySignedTransaction}
    (same : SameButLock left right) : left.outputs.length = right.outputs.length := by
  simpa [identity] using congrArg (fun tx : CTransaction => tx.vout.length) same.2

/-! ## Slots of the result -/

variable {psbts : List PartiallySignedTransaction} {out : PartiallySignedTransaction}

namespace Run

section Fields

variable {β : Type} (run : Run sha256d psbts out)

include run

theorem inputField_eq (field : PSBTInput → Option β)
    (step : ∀ this input : PSBTInput, field (this.merge input) = (field this).or (field input))
    (found : out.inputs[index]? = some input) : field input = (inputsAt psbts index).findSome? field :=
  run.partField_eq SameButLock.length_inputs inputs_mergeFields field step found

theorem outputField_eq (field : PSBTOutput → Option β)
    (step : ∀ this output : PSBTOutput, field (this.merge output) = (field this).or (field output))
    (found : out.outputs[index]? = some output) : field output = (outputsAt psbts index).findSome? field :=
  run.partField_eq SameButLock.length_outputs outputs_mergeFields field step found

/-- The sighash type of an input is that of the first PSBT, whether it gives one or not. -/
theorem sighashType_eq (found : out.inputs[index]? = some input) :
    ∃ first, (inputsAt psbts index).head? = some first ∧ input.sighashType = first.sighashType := by
  refine run.induct ?_ ?_ input found
  · intro psbt input found
    exact ⟨input, by simp [inputsAt, found], rfl⟩
  intro left right merged psbt _ _ agree leftHolds _ input found
  obtain ⟨own, other, ownFound, -, rfl⟩ := exists_of_mergeEach agree.sameButLock.length_inputs found
  obtain ⟨first, head, same⟩ := leftHolds own ownFound
  refine ⟨first, ?_, same⟩
  have leftHead : (left.filterMap (·.inputs[index]?)).head? = some first := head
  rw [inputsAt, List.filterMap_append, List.head?_append, leftHead, Option.some_or]

theorem isFinal_iff (found : out.inputs[index]? = some input) :
    input.isFinal = true ↔ ∃ member ∈ inputsAt psbts index, member.isFinal = true := by
  have sigs := run.inputField_eq (·.content .scriptSig)
    (fun this input => PSBTInput.content_merge this input (by simp)) found
  have witnesses := run.inputField_eq (·.content .scriptWitness)
    (fun this input => PSBTInput.content_merge this input (by simp)) found
  simp only [PSBTInput.isFinal_iff, sigs, witnesses, List.findSome?_isSome_iff]
  constructor
  · rintro (⟨member, listed, given⟩ | ⟨member, listed, given⟩)
    · exact ⟨member, listed, .inl given⟩
    · exact ⟨member, listed, .inr given⟩
  · rintro ⟨member, listed, given | given⟩
    · exact .inl ⟨member, listed, given⟩
    · exact .inr ⟨member, listed, given⟩

end Fields

end Run

/-! ## The modifiable flags -/

theorem getLsbD_mergeModifiable (this other : BitVec 8) (bit : Nat) :
    (mergeModifiable this other).getLsbD bit = if bit = 2 then this.getLsbD bit || other.getLsbD bit
      else this.getLsbD bit && other.getLsbD bit := by
  by_cases inside : bit < 8
  · have mask : (4#8).getLsbD bit = decide (bit = 2) := by
      revert bit
      decide
    simp only [mergeModifiable, BitVec.getLsbD_or, BitVec.getLsbD_and, BitVec.getLsbD_not, mask, inside]
    by_cases single : bit = 2 <;> simp only [single, decide_true, decide_false, if_true, if_false,
      Bool.not_true, Bool.not_false, Bool.and_true, Bool.and_false, Bool.or_false, Bool.false_or]
  · have beyond (flags : BitVec 8) : flags.getLsbD bit = false :=
      BitVec.getLsbD_of_ge _ _ (by omega)
    simp [beyond]

theorem getD_mergeTxModifiable (this other : Option (BitVec 8)) :
    (mergeTxModifiable this other).getD 0 = mergeModifiable (this.getD 0) (other.getD 0) := by
  cases this <;> cases other <;> rfl

/-- The flags of the result: there are some wherever a PSBT has some; bit 2 is set by any PSBT,
the others by all of them. -/
theorem Run.txModifiable_eq (run : Run sha256d psbts out) :
    (out.txModifiable.isSome = true ↔ ∃ psbt ∈ psbts, psbt.txModifiable.isSome = true) ∧
      ∀ bit, (out.txModifiable.getD 0).getLsbD bit = true ↔
        if bit = 2 then ∃ psbt ∈ psbts, (psbt.txModifiable.getD 0).getLsbD bit = true
        else ∀ psbt ∈ psbts, (psbt.txModifiable.getD 0).getLsbD bit = true := by
  refine run.induct ?_ ?_
  · intro psbt
    exact ⟨by simp, fun bit => by simp⟩
  intro left right merged psbt _ _ _ leftHolds rightHolds
  have flags : (merged.mergeFields psbt).txModifiable = mergeTxModifiable merged.txModifiable psbt.txModifiable := rfl
  rw [flags]
  constructor
  · have either : (mergeTxModifiable merged.txModifiable psbt.txModifiable).isSome = true ↔
        merged.txModifiable.isSome = true ∨ psbt.txModifiable.isSome = true := by
      cases merged.txModifiable <;> cases psbt.txModifiable <;> simp [mergeTxModifiable]
    rw [either, leftHolds.1, rightHolds.1]
    simp only [List.mem_append, or_and_right, exists_or]
  · intro bit
    have own := leftHolds.2 bit
    have other := rightHolds.2 bit
    rw [getD_mergeTxModifiable, getLsbD_mergeModifiable]
    by_cases single : bit = 2
    · simp only [single, if_true] at own other ⊢
      rw [Bool.or_eq_true, own, other]
      simp only [List.mem_append, or_and_right, exists_or]
    · simp only [single, if_false] at own other ⊢
      rw [Bool.and_eq_true, own, other]
      simp only [List.mem_append, or_imp, forall_and]

theorem Run.txModifiable_perm {order : List PartiallySignedTransaction} {other : PartiallySignedTransaction}
    (run : Run sha256d psbts out) (run' : Run sha256d order other) (perm : order.Perm psbts) :
    out.txModifiable = other.txModifiable := by
  obtain ⟨given, bits⟩ := run.txModifiable_eq
  obtain ⟨given', bits'⟩ := run'.txModifiable_eq
  simp only [perm.mem_iff] at given' bits'
  have flags : out.txModifiable.getD 0 = other.txModifiable.getD 0 := by
    apply BitVec.eq_of_getLsbD_eq
    intro bit _
    rw [Bool.eq_iff_iff, bits bit, bits' bit]
  have both := given.trans given'.symm
  cases own : out.txModifiable <;> cases theirs : other.txModifiable <;> simp_all

/-! ## Nothing is lost -/

/-- Every record of a PSBT is in the result under its key, unless its input has become final. -/
structure NothingLost (psbts : List PartiallySignedTransaction) (out : PartiallySignedTransaction) :
    Prop where
  globals : ∀ psbt ∈ psbts, ∀ record ∈ psbt.records, ∃ value, (record.1, value) ∈ out.records
  inputs : ∀ psbt ∈ psbts, ∀ (index : Nat) (input : PSBTInput), psbt.inputs[index]? = some input →
      ∃ merged, out.inputs[index]? = some merged ∧ (merged.isFinal = true ∨ ∀ record ∈ input.records psbt.getVersion,
          ∃ value, (record.1, value) ∈ merged.records out.getVersion)
  outputs : ∀ psbt ∈ psbts, ∀ (index : Nat) (output : PSBTOutput),
    psbt.outputs[index]? = some output → ∃ merged, out.outputs[index]? = some merged ∧
        ∀ record ∈ output.records psbt.getVersion, ∃ value, (record.1, value) ∈ merged.records out.getVersion

/-- The inputs at one position of the PSBTs of a list do not shadow each other's records: the
first has a sighash type if any has one, and of the public keys under the ID of a key, and of
the control blocks under a leaf script, all are among those that come first under some ID or
leaf. -/
structure InputsKept (inputs : List PSBTInput) : Prop where
  sighashType : (∃ input ∈ inputs, input.sighashType.isSome = true) →
    ∃ first, inputs.head? = some first ∧ first.sighashType.isSome = true
  partialSigs : ∀ input ∈ inputs, ∀ (id : Uint160) (pubkey : CPubKey) (sig : Bytes),
    input.partialSigs[id]? = some (pubkey, sig) → ∃ (id' : Uint160) (sig' : Bytes),
        inputs.findSome? (·.partialSigs[id']?) = some (pubkey, sig')
  tapScripts : ∀ input ∈ inputs, ∀ (leaf : Bytes × Int) (controlBlocks : Std.ExtTreeSet Bytes shortestVectorFirst),
    input.tapScripts[leaf]? = some controlBlocks → ∀ controlBlock ∈ controlBlocks, ∃ (leaf' : Bytes × Int)
        (first : Std.ExtTreeSet Bytes shortestVectorFirst),
        inputs.findSome? (·.tapScripts[leaf']?) = some first ∧ controlBlock ∈ first

/-- The PSBTs of a list do not shadow each other's records, neither in inputs that stay
unsigned nor with extended keys that differ in what the order of a set does not compare. -/
structure Kept (psbts : List PartiallySignedTransaction) : Prop where
  xpubs : ∀ psbt ∈ psbts, ∀ origin rank xpub, lookupNested psbt.xpubs origin rank = some xpub →
    ∃ origin' rank', psbts.findSome? (fun psbt => lookupNested psbt.xpubs origin' rank') = some xpub
  inputs : ∀ index, (∃ input ∈ inputsAt psbts index, input.isFinal = true) ∨ InputsKept (inputsAt psbts index)

section Lost

theorem exists_findSome? {α β : Type} (field : α → Option β) {items : List α} {item : α} {value : β}
    (listed : item ∈ items) (given : field item = some value) : ∃ other, items.findSome? field = some other := by
  apply Option.isSome_iff_exists.mp
  exact List.findSome?_isSome_iff.mpr ⟨item, listed, by simp [given]⟩

theorem written_xpub (psbt : PartiallySignedTransaction) (origin : KeyOriginInfo) (rank : CPubKey × Uint256) :
    psbt.written (.xpub origin rank) =
      (lookupNested psbt.xpubs origin rank).map fun xpub => (.xpub xpub, origin.serialize) :=
  rfl

variable {psbt : PartiallySignedTransaction}

namespace Run

variable (run : Run sha256d psbts out)

include run

theorem xpub_eq (origin : KeyOriginInfo) (rank : CPubKey × Uint256) :
    lookupNested out.xpubs origin rank = psbts.findSome? fun psbt => lookupNested psbt.xpubs origin rank :=
  run.field_eq (fun psbt => lookupNested psbt.xpubs origin rank)
    fun this psbt _ => lookupNested_mergeNested this.xpubs psbt.xpubs origin rank

/-- A record of an input keeps its key in every input that writes its slot and is made of
inputs that do not shadow each other. -/
theorem input_kept {merged member : PSBTInput} (found : out.inputs[index]? = some merged)
    (kept : merged.isFinal = false → InputsKept (inputsAt psbts index)) (listed : member ∈ inputsAt psbts index)
    (given : member.content slot = some records) (shows : merged.writes version slot = true) :
    ∀ record ∈ records, ∃ value, (record.1, value) ∈ merged.records version := by
  have field_eq (kept : slot ≠ .sighash) := run.inputField_eq (·.content slot)
    (fun this input => PSBTInput.content_merge this input kept) found
  have unsigned (signing : slot.signing = true) : merged.isFinal = false := by
    simp only [PSBTInput.writes, signing, Bool.not_true, Bool.false_or, Bool.and_eq_true] at shows
    simpa using shows.1
  intro record inRecords
  cases slot with
  | sighash =>
    obtain ⟨type, sighash, rfl⟩ := Option.map_eq_some_iff.mp given
    obtain ⟨first, head, same⟩ := run.sighashType_eq found
    obtain ⟨first', head', known⟩ := (kept (unsigned rfl)).sighashType ⟨member, listed, by simp [sighash]⟩
    obtain ⟨type', sighash'⟩ := Option.isSome_iff_exists.mp known
    rw [head, Option.some.injEq] at head'
    subst head'
    have content : merged.content .sighash = some [(.sighash, leBytes 4 (type' % 2 ^ 32).toNat)] := by
      rw [PSBTInput.content, same, sighash', Option.map_some]
    rw [List.mem_singleton.mp inRecords]
    exact ⟨_, PSBTInput.mem_records.mpr ⟨.sighash, _, content, (.head _), shows⟩⟩
  | partialSig id =>
    obtain ⟨⟨pubkey, sig⟩, signed, rfl⟩ := Option.map_eq_some_iff.mp given
    obtain ⟨id', sig', first⟩ := (kept (unsigned rfl)).partialSigs member listed id pubkey sig signed
    have here := run.inputField_eq (·.partialSigs[id']?)
      (fun this input => getElem?_keepFirst this.partialSigs input.partialSigs id') found
    have content : merged.content (.partialSig id') = some [(.partialSig pubkey, sig')] := by
      rw [PSBTInput.content, here, first, Option.map_some]
    rw [List.mem_singleton.mp inRecords]
    exact ⟨sig', PSBTInput.mem_records.mpr ⟨.partialSig id', _, content, (.head _), shows⟩⟩
  | tapLeafScript leaf =>
    obtain ⟨controlBlocks, blocks, rfl⟩ := Option.map_eq_some_iff.mp given
    obtain ⟨controlBlock, block, rfl⟩ := List.mem_map.mp inRecords
    obtain ⟨leaf', first, first_eq, among⟩ := (kept (unsigned rfl)).tapScripts member listed leaf
      controlBlocks blocks controlBlock (Std.ExtTreeSet.mem_toList.mp block)
    have here := run.inputField_eq (·.tapScripts[leaf']?)
      (fun this input => getElem?_keepFirst this.tapScripts input.tapScripts leaf') found
    have content : merged.content (.tapLeafScript leaf') = some (first.toList.map fun block =>
        (.tapLeafScript block, leaf'.1 ++ [UInt8.ofInt leaf'.2])) := by
      rw [PSBTInput.content, here, first_eq, Option.map_some]
    exact ⟨_, PSBTInput.mem_records.mpr ⟨.tapLeafScript leaf', _, content,
      List.mem_map_of_mem (Std.ExtTreeSet.mem_toList.mpr among), shows⟩⟩
  | _ =>
    obtain ⟨others, here⟩ := exists_findSome? (fun input : PSBTInput => input.content _)
      listed given
    rw [← field_eq (by simp)] at here
    have keys : records.map Prod.fst = others.map Prod.fst := by
      simp only [PSBTInput.content, Option.map_eq_some_iff, Option.some.injEq] at given here
      grind
    have key : record.1 ∈ others.map Prod.fst := keys ▸ List.mem_map_of_mem inRecords
    obtain ⟨other, otherListed, same⟩ := List.mem_map.mp key
    exact ⟨other.2, PSBTInput.mem_records.mpr ⟨_, others, here, same ▸ otherListed, shows⟩⟩

theorem output_kept {merged member : PSBTOutput} (found : out.outputs[index]? = some merged) (listed : member ∈ outputsAt psbts index) :
    ∀ record ∈ member.records version, ∃ value, (record.1, value) ∈ merged.records version := by
  rintro ⟨key, value⟩ written
  obtain ⟨given, allowed⟩ := PSBTOutput.mem_records.mp written
  obtain ⟨value', here⟩ := exists_findSome? (fun output : PSBTOutput => output.content key) listed given
  rw [← run.outputField_eq (·.content key)
    (fun this output => PSBTOutput.content_merge this output key) found] at here
  exact ⟨value', PSBTOutput.mem_records.mpr ⟨here, allowed⟩⟩

theorem written_eq {slot : GlobalSlot} (flagless : slot ≠ .txModifiable) :
    out.written slot = psbts.findSome? (·.written slot) :=
  run.field_eq (·.written slot) fun _ _ agree => written_mergeFields agree flagless

theorem txModifiable_kept (listed : psbt ∈ psbts) {record : GlobalKey × Bytes}
    (given : psbt.written .txModifiable = some record) : ∃ value, (record.1, value) ∈ out.records := by
  have version := (run.sameButLock psbt listed).1
  simp only [written, Option.ite_none_right_eq_some, content, Option.map_eq_some_iff] at given
  obtain ⟨shows, flags, modifiable, rfl⟩ := given
  obtain ⟨flags', modifiable'⟩ := Option.isSome_iff_exists.mp
    ((run.txModifiable_eq).1.mpr ⟨psbt, listed, by simp [modifiable]⟩)
  refine ⟨leBytes 1 flags'.toNat, mem_records.mpr ⟨.txModifiable, ?_⟩⟩
  have shows' : out.writes .txModifiable = true := by simpa [writes, version] using shows
  simp [written, shows', content, modifiable']

theorem outputs_kept (listed : psbt ∈ psbts) (index : Nat)
    (output : PSBTOutput) (found : psbt.outputs[index]? = some output) : ∃ merged, out.outputs[index]? = some merged ∧
      ∀ record ∈ output.records psbt.getVersion, ∃ value, (record.1, value) ∈ merged.records out.getVersion := by
  have version := (run.sameButLock psbt listed).1
  obtain ⟨merged, mergedFound⟩ := run.exists_part SameButLock.length_outputs listed found
  exact ⟨merged, mergedFound, version ▸ run.output_kept mergedFound (mem_outputsAt.mpr ⟨psbt, listed, found⟩)⟩

theorem global_kept
    (kept : ∀ psbt ∈ psbts, ∀ origin rank xpub, lookupNested psbt.xpubs origin rank = some xpub → ∃ origin' rank',
        psbts.findSome? (fun psbt => lookupNested psbt.xpubs origin' rank') = some xpub) (listed : psbt ∈ psbts) :
    ∀ record ∈ psbt.records, ∃ value, (record.1, value) ∈ out.records := by
  intro record written
  obtain ⟨slot, given⟩ := mem_records.mp written
  cases slot with
  | txModifiable => exact run.txModifiable_kept listed given
  | xpub origin rank =>
    rw [written_xpub] at given
    obtain ⟨xpub, found, rfl⟩ := Option.map_eq_some_iff.mp given
    obtain ⟨origin', rank', first⟩ := kept psbt listed origin rank xpub found
    refine ⟨origin'.serialize, mem_records.mpr ⟨.xpub origin' rank', ?_⟩⟩
    rw [written_xpub, run.xpub_eq, first, Option.map_some]
  | _ =>
    obtain ⟨other, here⟩ := exists_findSome? (fun psbt : PartiallySignedTransaction => psbt.written _) listed given
    rw [← run.written_eq (by simp)] at here
    have key : record.1 = other.1 := by
      simp only [PartiallySignedTransaction.written, Option.ite_none_right_eq_some, content, Option.map_eq_some_iff,
        Option.some.injEq] at given here
      grind
    exact ⟨other.2, mem_records.mpr ⟨_, by rw [here, key]⟩⟩

theorem nothingLost (kept : Kept psbts) : NothingLost psbts out where
  globals _ listed := run.global_kept kept.xpubs listed
  inputs := by
    intro psbt listed index input found
    have version := (run.sameButLock psbt listed).1
    have member : input ∈ inputsAt psbts index := mem_inputsAt.mpr ⟨psbt, listed, found⟩
    obtain ⟨merged, mergedFound⟩ := run.exists_part SameButLock.length_inputs listed found
    refine ⟨merged, mergedFound, or_iff_not_imp_left.mpr fun unsigned => ?_⟩
    rw [Bool.not_eq_true] at unsigned
    intro record written
    obtain ⟨slot, records, given, inRecords, shows⟩ := PSBTInput.mem_records.mp written
    refine run.input_kept mergedFound (fun _ => ?_) member given ?_ record inRecords
    · refine (kept.inputs index).resolve_left fun final => ?_
      rw [(run.isFinal_iff mergedFound).mpr final] at unsigned
      cases unsigned
    · simp only [PSBTInput.writes, Bool.and_eq_true] at shows ⊢
      exact ⟨by simp [unsigned], version ▸ shows.2⟩
  outputs _ listed := run.outputs_kept listed

end Run

/-! ### The converse -/

section

variable (given : input.content slot = some records)

include given

theorem content_sighash (written : (.sighash, value) ∈ records) : input.sighashType.isSome = true := by
  cases slot <;> simp only [PSBTInput.content, Option.map_eq_some_iff, Option.some.injEq] at given <;>
    grind

theorem content_partialSig {pubkey : CPubKey} (written : (.partialSig pubkey, value) ∈ records) :
    ∃ id : Uint160, input.partialSigs[id]? = some (pubkey, value) := by
  cases slot <;> simp only [PSBTInput.content, Option.map_eq_some_iff, Option.some.injEq] at given <;>
    grind

theorem content_tapLeafScript {controlBlock : Bytes} (written : (.tapLeafScript controlBlock, value) ∈ records) :
    ∃ (leaf : Bytes × Int) (controlBlocks : Std.ExtTreeSet Bytes shortestVectorFirst),
      input.tapScripts[leaf]? = some controlBlocks ∧ controlBlock ∈ controlBlocks := by
  cases slot with
  | tapLeafScript leaf =>
    obtain ⟨controlBlocks, found, rfl⟩ := Option.map_eq_some_iff.mp given
    obtain ⟨block, listed, same⟩ := List.mem_map.mp written
    cases same
    exact ⟨leaf, controlBlocks, found, Std.ExtTreeSet.mem_toList.mp listed⟩
  | _ =>
    simp only [PSBTInput.content, Option.map_eq_some_iff, Option.some.injEq] at given
    grind

end

theorem written_of_xpub {slot : GlobalSlot} {xpub : CExtPubKey} (given : psbt.written slot = some (.xpub xpub, value)) :
    ∃ origin rank, lookupNested psbt.xpubs origin rank = some xpub := by
  simp only [written, Option.ite_none_right_eq_some] at given
  cases slot <;> simp only [content, Option.map_eq_some_iff, Option.some.injEq,
    Option.ite_none_right_eq_some] at given <;> grind

theorem Run.kept (run : Run sha256d psbts out)
    (nothingLost : NothingLost psbts out) : Kept psbts where
  xpubs := by
    intro psbt listed origin rank xpub found
    have written : (.xpub xpub, origin.serialize) ∈ psbt.records :=
      mem_records.mpr ⟨.xpub origin rank, by rw [written_xpub, found, Option.map_some]⟩
    obtain ⟨value, kept⟩ := nothingLost.globals psbt listed _ written
    obtain ⟨slot, given⟩ := mem_records.mp kept
    obtain ⟨origin', rank', found'⟩ := written_of_xpub given
    exact ⟨origin', rank', by rw [← run.xpub_eq, found']⟩
  inputs := by
    intro index
    refine or_iff_not_imp_left.mpr fun noneFinal => ?_
    have unsigned input (listed : input ∈ inputsAt psbts index) : input.isFinal = false := by
      rw [Bool.eq_false_iff]
      exact fun final => noneFinal ⟨input, listed, final⟩
    -- every key of an input of the list is in the result
    have lost input (listed : input ∈ inputsAt psbts index) (slot : InputSlot)
        (old : slot.versionTwo = false) {records : List (InputKey × Bytes)}
        (given : input.content slot = some records) (record : InputKey × Bytes)
        (inRecords : record ∈ records) :
        ∃ merged, out.inputs[index]? = some merged ∧ ∃ slot' others value,
          merged.content slot' = some others ∧ (record.1, value) ∈ others := by
      obtain ⟨psbt, psbtListed, found⟩ := mem_inputsAt.mp listed
      obtain ⟨merged, mergedFound, final | keys⟩ := nothingLost.inputs psbt psbtListed index input found
      · exact (noneFinal ((run.isFinal_iff mergedFound).mp final)).elim
      have shows : input.writes psbt.getVersion slot = true := by simp [PSBTInput.writes, unsigned input listed, old]
      obtain ⟨value, written⟩ := keys record (PSBTInput.mem_records.mpr ⟨slot, records, given, inRecords, shows⟩)
      obtain ⟨slot', others, given', inOthers, -⟩ := PSBTInput.mem_records.mp written
      exact ⟨merged, mergedFound, slot', others, value, given', inOthers⟩
    constructor
    · rintro ⟨input, listed, known⟩
      obtain ⟨type, sighash⟩ := Option.isSome_iff_exists.mp known
      obtain ⟨merged, found, slot', others, value, given, inOthers⟩ :=
        lost input listed .sighash rfl (by rw [PSBTInput.content, sighash]; rfl) _
          (.head _)
      obtain ⟨first, head, same⟩ := run.sighashType_eq found
      exact ⟨first, head, same ▸ content_sighash given inOthers⟩
    · intro input listed id pubkey sig signed
      obtain ⟨merged, found, slot', others, value, given, inOthers⟩ :=
        lost input listed (.partialSig id) rfl (by rw [PSBTInput.content, signed]; rfl) _
          (.head _)
      obtain ⟨id', here⟩ := content_partialSig given inOthers
      refine ⟨id', value, ?_⟩
      rw [← here]
      exact (run.inputField_eq (·.partialSigs[id']?)
        (fun this input => getElem?_keepFirst this.partialSigs input.partialSigs id') found).symm
    · intro input listed leaf controlBlocks blocks controlBlock among
      have content : input.content (.tapLeafScript leaf) = some (controlBlocks.toList.map
          fun block => (.tapLeafScript block, leaf.1 ++ [UInt8.ofInt leaf.2])) := by
        rw [PSBTInput.content, blocks, Option.map_some]
      obtain ⟨merged, found, slot', others, value, given, inOthers⟩ :=
        lost input listed (.tapLeafScript leaf) rfl content _
          (List.mem_map.mpr ⟨controlBlock, Std.ExtTreeSet.mem_toList.mpr among, rfl⟩)
      obtain ⟨leaf', first, here, among'⟩ := content_tapLeafScript given inOthers
      refine ⟨leaf', first, ?_, among'⟩
      rw [← here]
      exact (run.inputField_eq (·.tapScripts[leaf']?)
        (fun this input => getElem?_keepFirst this.tapScripts input.tapScripts leaf') found).symm

end Lost

end PartiallySignedTransaction

end Sharecoin
