import Sharecoin.Psbt.Lossless

/-! Combining PSBTs in other orders and groups. Where no key is given two values, the result is
the same exactly where no order shadows a record and no group changes the lock time. -/

set_option autoImplicit false

namespace Sharecoin

open Lib

namespace PartiallySignedTransaction

variable {sha256d : Bytes → Uint256}

/-! ## Groupings -/

/-- A way to combine PSBTs by calls of `CombinePSBTs` on what earlier calls returned. A call on
more than two is a call on two for each further one. -/
inductive Grouping where
  | single (psbt : PartiallySignedTransaction)
  | join (left right : Grouping)

namespace Grouping

def psbts : Grouping → List PartiallySignedTransaction
  | single psbt => [psbt]
  | join left right => left.psbts ++ right.psbts

def combine (sha256d : Bytes → Uint256) : Grouping → Option PartiallySignedTransaction
  | single psbt => some psbt
  | join left right => do combinePSBTs sha256d [← left.combine sha256d, ← right.combine sha256d]

/-- A grouping to which further PSBTs are joined one by one. -/
def extend (grouping : Grouping) (rest : List PartiallySignedTransaction) : Grouping :=
  rest.foldl (fun grouping psbt => .join grouping (.single psbt)) grouping

theorem combinePSBTs_pair (left right : PartiallySignedTransaction) :
    combinePSBTs sha256d [left, right] = left.merge sha256d right := by
  simp [combinePSBTs]

theorem psbts_extend (grouping : Grouping) (rest : List PartiallySignedTransaction) :
    (grouping.extend rest).psbts = grouping.psbts ++ rest := by
  induction rest generalizing grouping with
  | nil => simp [extend]
  | cons psbt rest ih =>
    have := ih (.join grouping (.single psbt))
    simpa [extend, psbts] using this

theorem combine_extend (grouping : Grouping) (rest : List PartiallySignedTransaction) :
    (grouping.extend rest).combine sha256d =
      (grouping.combine sha256d).bind fun merged => rest.foldlM (merge sha256d) merged := by
  induction rest generalizing grouping with
  | nil => cases combined : grouping.combine sha256d <;> simp [extend, combined]
  | cons psbt rest ih =>
    have later := ih (.join grouping (.single psbt))
    rw [extend, List.foldl_cons, ← extend, later]
    cases combined : grouping.combine sha256d <;> simp [combine, combined, combinePSBTs_pair]

theorem combines {grouping : Grouping} {out : PartiallySignedTransaction}
    (combined : grouping.combine sha256d = some out) : Combines sha256d grouping.psbts out := by
  induction grouping generalizing out with
  | single psbt =>
    cases combined
    exact .single
  | join left right leftIH rightIH =>
    obtain ⟨merged, leftCombined, combined⟩ := Option.bind_eq_some_iff.mp combined
    obtain ⟨psbt, rightCombined, combined⟩ := Option.bind_eq_some_iff.mp combined
    rw [combinePSBTs_pair] at combined
    exact (leftIH leftCombined).join (rightIH rightCombined) combined

end Grouping

/-! ## What order freedom means -/

/-- Two PSBTs that write the same records. -/
structure SameRecords (left right : PartiallySignedTransaction) : Prop where
  globals : ∀ record, record ∈ left.records ↔ record ∈ right.records
  inputCount : left.inputs.length = right.inputs.length
  inputs : ∀ (index : Nat) (input input' : PSBTInput), left.inputs[index]? = some input →
    right.inputs[index]? = some input' →
      ∀ record, record ∈ input.records left.getVersion ↔ record ∈ input'.records right.getVersion
  outputCount : left.outputs.length = right.outputs.length
  outputs : ∀ (index : Nat) (output output' : PSBTOutput), left.outputs[index]? = some output →
    right.outputs[index]? = some output' →
      ∀ record, record ∈ output.records left.getVersion ↔ record ∈ output'.records right.getVersion

/-- The PSBTs combine to the same records in every order and grouping. -/
def OrderFree (sha256d : Bytes → Uint256) (psbts : List PartiallySignedTransaction)
    (out : PartiallySignedTransaction) : Prop :=
  ∀ grouping : Grouping, grouping.psbts.Perm psbts →
    ∃ other, grouping.combine sha256d = some other ∧ SameRecords out other

/-- No key of a map is given two values. -/
structure ConflictFree (psbts : List PartiallySignedTransaction) : Prop where
  globals : ∀ left ∈ psbts, ∀ right ∈ psbts, ∀ key value value',
    (key, value) ∈ left.records → (key, value') ∈ right.records → value = value'
  inputs : ∀ left ∈ psbts, ∀ right ∈ psbts, ∀ (index : Nat) (input input' : PSBTInput),
    left.inputs[index]? = some input → right.inputs[index]? = some input' →
      ∀ key value value', (key, value) ∈ input.records left.getVersion →
        (key, value') ∈ input'.records right.getVersion → value = value'
  outputs : ∀ left ∈ psbts, ∀ right ∈ psbts, ∀ (index : Nat) (output output' : PSBTOutput),
    left.outputs[index]? = some output → right.outputs[index]? = some output' →
      ∀ key value value', (key, value) ∈ output.records left.getVersion →
        (key, value') ∈ output'.records right.getVersion → value = value'

/-- Whatever PSBTs of version 2 are combined first, they have the lock time of those left. -/
def LocksStay (psbts : List PartiallySignedTransaction) : Prop :=
  ∀ part psbt rest, part ≠ [] → (part ++ psbt :: rest).Perm psbts → psbt.getVersion ≥ 2 →
    ∃ locktime, pooledLockTime part = some locktime ∧ psbt.computeTimeLock = some locktime

/-! ## Every grouping succeeds -/

variable {psbt other : PartiallySignedTransaction}

variable {psbts : List PartiallySignedTransaction} {out : PartiallySignedTransaction} {version : UInt32}
  {index : Nat} {record : OutputKey × Bytes} {slot : GlobalSlot}

section

variable (run : Run sha256d psbts out) (stay : LocksStay psbts)

include run stay

theorem agree_of_locksStay {left right rest : List PartiallySignedTransaction}
    {merged : PartiallySignedTransaction} (first : Combines sha256d left merged)
    (second : Combines sha256d right psbt) (perm : (left ++ right ++ rest).Perm psbts) : Agree merged psbt := by
  have leftAmong member (listed : member ∈ left) : member ∈ psbts := perm.mem_iff.mp (by simp [listed])
  have rightAmong member (listed : member ∈ right) :
      member ∈ psbts := perm.mem_iff.mp (by simp [listed])
  have leftRun : Run sha256d left merged := ⟨first, run.apart.mono leftAmong⟩
  have rightRun : Run sha256d right psbt := ⟨second, run.apart.mono rightAmong⟩
  obtain ⟨head, tail, rfl⟩ := List.exists_cons_of_ne_nil first.ne_nil
  obtain ⟨head', tail', rfl⟩ := List.exists_cons_of_ne_nil second.ne_nil
  have headSame := leftRun.sameButLock head (.head _)
  have headSame' := rightRun.sameButLock head' (.head _)
  have outSame := run.sameButLock head (leftAmong head (.head _))
  have outSame' := run.sameButLock head' (rightAmong head' (.head _))
  refine ⟨headSame.trans (outSame.symm.trans (outSame'.trans headSame'.symm)), ?_⟩
  by_cases version : out.getVersion ≥ 2
  · have headVersion : head.getVersion ≥ 2 := outSame.1 ▸ version
    have headVersion' : head'.getVersion ≥ 2 := outSame'.1 ▸ version
    have mergedVersion : merged.getVersion ≥ 2 := headSame.1 ▸ headVersion
    have psbtVersion : psbt.getVersion ≥ 2 := headSame'.1 ▸ headVersion'
    rw [leftRun.computeTimeLock_eq mergedVersion, rightRun.computeTimeLock_eq psbtVersion]
    obtain ⟨time, leftLock, time_eq⟩ := stay (head :: tail) head' (tail' ++ rest) (by simp)
      (by simpa using perm) headVersion'
    obtain ⟨time', rightLock, time_eq'⟩ := stay (head' :: tail') head (tail ++ rest) (by simp)
      (by
        refine List.Perm.trans ?_ perm
        have swapped : (head' :: tail' ++ head :: tail).Perm (head :: tail ++ head' :: tail') := List.perm_append_comm
        simpa using swapped.append_right rest) headVersion
    obtain ⟨time'', headLock, time_eq''⟩ := stay [head] head' (tail ++ tail' ++ rest) (by simp)
      (by
        refine List.Perm.trans ?_ perm
        have moved : (head' :: (tail ++ tail')).Perm (tail ++ head' :: tail') := List.perm_middle.symm
        simpa using (moved.append_right rest).cons head) headVersion'
    have headRun : Run sha256d [head] head := ⟨.single, run.apart.mono fun member listed => by
      rw [List.mem_singleton.mp listed]; exact leftAmong head (.head _)⟩
    rw [← headRun.computeTimeLock_eq headVersion] at headLock
    refine ⟨time, leftLock, ?_⟩
    rw [rightLock, ← time_eq', headLock, ← time_eq'', time_eq]
  · have headOld : ¬ merged.getVersion ≥ 2 := headSame.1 ▸ outSame.1 ▸ version
    have headOld' : ¬ psbt.getVersion ≥ 2 := headSame'.1 ▸ outSame'.1 ▸ version
    have locks := run.computeTimeLock_eq_of_old version
    rw [leftRun.computeTimeLock_eq_of_old headOld head (.head _),
      rightRun.computeTimeLock_eq_of_old headOld' head' (.head _),
      ← locks head (leftAmong head (.head _)),
      ← locks head' (rightAmong head' (.head _)), computeTimeLock_eq, if_neg version]
    exact ⟨_, rfl, rfl⟩

/-- While the locks of every group stay, every grouping can be combined. -/
theorem exists_combine (grouping : Grouping) (rest : List PartiallySignedTransaction)
    (perm : (grouping.psbts ++ rest).Perm psbts) : ∃ other, grouping.combine sha256d = some other := by
  induction grouping generalizing rest with
  | single psbt => exact ⟨psbt, rfl⟩
  | join left right leftIH rightIH =>
    simp only [Grouping.psbts] at perm
    obtain ⟨merged, leftCombined⟩ := leftIH (right.psbts ++ rest) (by simpa using perm)
    obtain ⟨psbt, rightCombined⟩ := rightIH (left.psbts ++ rest) (by
      refine List.Perm.trans ?_ perm
      simpa using (@List.perm_append_comm _ right.psbts left.psbts).append_right rest)
    have agree := agree_of_locksStay run stay (Grouping.combines leftCombined) (Grouping.combines rightCombined) perm
    obtain ⟨locktime, own, other⟩ := agree.sameLock
    have step : merged.merge sha256d psbt = some (merged.mergeFields psbt) := by
      refine merge_eq_some_iff.mpr ⟨⟨(psbt.identity locktime).getHash sha256d, ?_, ?_⟩, agree.sameButLock.1, rfl⟩
      · rw [getUniqueID_eq, own, Option.map_some, agree.sameButLock.identity_eq]
      · rw [getUniqueID_eq, other, Option.map_some]
    refine ⟨merged.mergeFields psbt, ?_⟩
    rw [Grouping.combine, leftCombined, rightCombined]
    simpa [Grouping.combinePSBTs_pair] using step

end

/-! ## Records of the result come from the PSBTs -/

namespace Run

variable (run : Run sha256d psbts out)

include run

theorem input_provenance {merged : PSBTInput} (found : out.inputs[index]? = some merged) {slot : InputSlot}
    {records : List (InputKey × Bytes)} (given : merged.content slot = some records)
    (shows : merged.writes version slot = true) :
    ∃ member ∈ inputsAt psbts index, member.content slot = some records ∧ member.writes version slot = true := by
  have writes_of {member : PSBTInput} (listed : member ∈ inputsAt psbts index) : member.writes version slot = true := by
    simp only [PSBTInput.writes, Bool.and_eq_true, Bool.or_eq_true, Bool.not_eq_true'] at shows ⊢
    refine ⟨shows.1.imp_right fun unsigned => ?_, shows.2⟩
    rw [Bool.eq_false_iff]
    intro final
    rw [(run.isFinal_iff found).mpr ⟨member, listed, final⟩] at unsigned
    cases unsigned
  by_cases sighash : slot = .sighash
  · subst sighash
    obtain ⟨first, head, same⟩ := run.sighashType_eq found
    have listed := List.mem_of_mem_head? head
    refine ⟨first, listed, ?_, writes_of listed⟩
    rw [← given, PSBTInput.content, PSBTInput.content, same]
  · have here := run.inputField_eq (·.content slot)
      (fun this input => PSBTInput.content_merge this input sighash) found
    rw [given] at here
    obtain ⟨member, listed, given'⟩ := List.exists_of_findSome?_eq_some here.symm
    exact ⟨member, listed, given', writes_of listed⟩

theorem output_provenance {merged : PSBTOutput} (found : out.outputs[index]? = some merged)
    (written : record ∈ merged.records version) :
    ∃ member ∈ outputsAt psbts index, record ∈ member.records version := by
  obtain ⟨key, value⟩ := record
  obtain ⟨given, allowed⟩ := PSBTOutput.mem_records.mp written
  rw [run.outputField_eq (·.content key)
    (fun this output => PSBTOutput.content_merge this output key) found] at given
  obtain ⟨member, listed, given'⟩ := List.exists_of_findSome?_eq_some given
  exact ⟨member, listed, PSBTOutput.mem_records.mpr ⟨given', allowed⟩⟩

theorem global_provenance (flagless : slot ≠ .txModifiable)
    {record : GlobalKey × Bytes} (given : out.written slot = some record) :
    ∃ psbt ∈ psbts, record ∈ psbt.records := by
  rw [run.written_eq flagless] at given
  obtain ⟨psbt, listed, given'⟩ := List.exists_of_findSome?_eq_some given
  exact ⟨psbt, listed, mem_records.mpr ⟨slot, given'⟩⟩

end Run

/-! ## Two orders with the same records -/

section Orders

variable {order : List PartiallySignedTransaction}

theorem key_of_txModifiable {value : Bytes}
    (given : psbt.written slot = some (.txModifiable, value)) : slot = .txModifiable := by
  simp only [written, Option.ite_none_right_eq_some] at given
  cases slot <;> simp only [content, Option.map_eq_some_iff, Option.some.injEq,
    Option.ite_none_right_eq_some] at given <;> grind

variable (run : Run sha256d psbts out) (run' : Run sha256d order other) (perm : order.Perm psbts)
  {input input' : PSBTInput}

include run run' perm

theorem sameButLock_perm : SameButLock out other := by
  obtain ⟨psbt, listed⟩ := List.exists_mem_of_ne_nil psbts run.combines.ne_nil
  exact (run.sameButLock psbt listed).trans (run'.sameButLock psbt (perm.mem_iff.mpr listed)).symm

theorem isFinal_perm (found : out.inputs[index]? = some input)
    (found' : other.inputs[index]? = some input') : input.isFinal = input'.isFinal := by
  rw [Bool.eq_iff_iff, run.isFinal_iff found, run'.isFinal_iff found']
  simp only [inputsAt, (perm.filterMap _).mem_iff]

section

variable (conflictFree : ConflictFree psbts)

include conflictFree

theorem input_records_subset (kept : Kept order)
    (found : out.inputs[index]? = some input) (found' : other.inputs[index]? = some input')
    (versions : ∀ psbt ∈ psbts, psbt.getVersion = version) {record : InputKey × Bytes}
    (written : record ∈ input.records version) : record ∈ input'.records version := by
  have final := isFinal_perm run run' perm found found'
  obtain ⟨slot, records, given, inRecords, shows⟩ := PSBTInput.mem_records.mp written
  obtain ⟨member, listed, given', memberShows⟩ := run.input_provenance found given shows
  obtain ⟨value, written'⟩ := run'.input_kept found'
    (fun unsigned => (kept.inputs index).resolve_left fun final' => by
      rw [(run'.isFinal_iff found').mpr final'] at unsigned
      cases unsigned)
    (List.Perm.mem_iff (perm.filterMap _) |>.mpr listed) given'
    (by simpa [PSBTInput.writes, final] using shows) record inRecords
  -- the key has one value in all the PSBTs
  obtain ⟨slot', records', given'', inRecords', shows'⟩ := PSBTInput.mem_records.mp written'
  obtain ⟨member', listed', given''', memberShows'⟩ := run'.input_provenance found' given'' shows'
  obtain ⟨psbt, psbtListed, psbtFound⟩ := mem_inputsAt.mp listed
  obtain ⟨psbt', psbtListed', psbtFound'⟩ := mem_inputsAt.mp listed'
  have among := perm.mem_iff.mp psbtListed'
  have same : record.2 = value := conflictFree.inputs psbt psbtListed psbt' among index member member'
    psbtFound psbtFound' record.1 record.2 value
    (PSBTInput.mem_records.mpr ⟨slot, records, given', inRecords, versions psbt psbtListed ▸ memberShows⟩)
    (PSBTInput.mem_records.mpr ⟨slot', records', given''', inRecords', versions psbt' among ▸ memberShows'⟩)
  rwa [← same] at written'

theorem output_records_subset {output output' : PSBTOutput} (found : out.outputs[index]? = some output)
    (found' : other.outputs[index]? = some output') (versions : ∀ psbt ∈ psbts, psbt.getVersion = version)
    (written : record ∈ output.records version) : record ∈ output'.records version := by
  obtain ⟨member, listed, memberWrites⟩ := run.output_provenance found written
  obtain ⟨value, written'⟩ := run'.output_kept found'
    (List.Perm.mem_iff (perm.filterMap _) |>.mpr listed) record memberWrites
  obtain ⟨member', listed', memberWrites'⟩ := run'.output_provenance found' written'
  obtain ⟨psbt, psbtListed, psbtFound⟩ := mem_outputsAt.mp listed
  obtain ⟨psbt', psbtListed', psbtFound'⟩ := mem_outputsAt.mp listed'
  have among := perm.mem_iff.mp psbtListed'
  have same : record.2 = value := conflictFree.outputs psbt psbtListed psbt' among index member
    member' psbtFound psbtFound' record.1 record.2 value (versions psbt psbtListed ▸ memberWrites)
    (versions psbt' among ▸ memberWrites')
  rwa [← same] at written'

theorem global_records_subset (kept : Kept order)
    {record : GlobalKey × Bytes} (written : record ∈ out.records) : record ∈ other.records := by
  obtain ⟨slot, given⟩ := mem_records.mp written
  by_cases flags : slot = .txModifiable
  · subst flags
    have version := (sameButLock_perm run run' perm).1
    have same := run.txModifiable_perm run' perm
    refine mem_records.mpr ⟨.txModifiable, ?_⟩
    rw [← given]
    simp [PartiallySignedTransaction.written, writes, content, version, same]
  · obtain ⟨psbt, listed, psbtWrites⟩ := run.global_provenance flags given
    obtain ⟨value, written'⟩ := run'.global_kept kept.xpubs (perm.mem_iff.mpr listed) record psbtWrites
    obtain ⟨slot', given'⟩ := mem_records.mp written'
    have flagless : slot' ≠ .txModifiable := by
      rintro rfl
      simp only [PartiallySignedTransaction.written, Option.ite_none_right_eq_some, content,
        Option.map_eq_some_iff, Prod.mk.injEq] at given'
      obtain ⟨-, _, -, key, -⟩ := given'
      have whole : record = (.txModifiable, record.2) := Prod.ext key.symm rfl
      rw [whole] at given
      exact flags (key_of_txModifiable given)
    obtain ⟨psbt', listed', psbtWrites'⟩ := run'.global_provenance flagless given'
    have same : record.2 = value := conflictFree.globals psbt listed psbt' (perm.mem_iff.mp listed')
      record.1 record.2 value psbtWrites psbtWrites'
    rwa [← same] at written'

theorem sameRecords_of_kept (kept : ∀ order : List PartiallySignedTransaction, order.Perm psbts → Kept order) :
    SameRecords out other := by
  have keptOrder := kept order perm
  have keptPsbts := kept psbts (List.Perm.refl _)
  have conflictFree' : ConflictFree order := by
    have among psbt (listed : psbt ∈ order) : psbt ∈ psbts := perm.mem_iff.mp listed
    constructor <;> intro left leftListed right rightListed
    · exact conflictFree.globals left (among left leftListed) right (among right rightListed)
    · exact conflictFree.inputs left (among left leftListed) right (among right rightListed)
    · exact conflictFree.outputs left (among left leftListed) right (among right rightListed)
  have same := sameButLock_perm run run' perm
  have versions psbt (listed : psbt ∈ psbts) :
      psbt.getVersion = out.getVersion := (run.sameButLock psbt listed).1.symm
  have versions' psbt (listed : psbt ∈ order) :
      psbt.getVersion = out.getVersion := versions psbt (perm.mem_iff.mp listed)
  refine ⟨fun record => ⟨?_, ?_⟩, same.length_inputs, ?_, same.length_outputs, ?_⟩
  · exact global_records_subset run run' perm conflictFree keptOrder
  · exact global_records_subset run' run perm.symm conflictFree' keptPsbts
  · intro index input input' found found' record
    rw [← same.1]
    exact ⟨input_records_subset run run' perm conflictFree keptOrder found found' versions,
      input_records_subset run' run perm.symm conflictFree' keptPsbts found' found versions'⟩
  · intro index output output' found found' record
    rw [← same.1]
    exact ⟨output_records_subset run run' perm conflictFree found found' versions,
      output_records_subset run' run perm.symm conflictFree' found' found versions'⟩

end

end Orders

/-! ## Every order shows what it puts first -/

section First

variable {rest : List PartiallySignedTransaction}

theorem Run.head_kept (run : Run sha256d (psbt :: rest) out) : NothingLost [psbt] out where
  globals := by
    intro first listed record written
    cases List.mem_singleton.mp listed
    obtain ⟨slot, given⟩ := mem_records.mp written
    by_cases flags : slot = .txModifiable
    · subst flags
      exact run.txModifiable_kept (.head _) given
    · refine ⟨record.2, mem_records.mpr ⟨slot, ?_⟩⟩
      rw [run.written_eq flags, List.findSome?_cons, given]
  inputs := by
    intro first listed index input found
    cases List.mem_singleton.mp listed
    have version := (run.sameButLock psbt (.head _)).1
    have members : inputsAt (psbt :: rest) index = input :: inputsAt rest index := by
      simp [inputsAt, found]
    obtain ⟨merged, mergedFound⟩ := run.exists_part SameButLock.length_inputs (.head _) found
    refine ⟨merged, mergedFound, or_iff_not_imp_left.mpr fun unsigned record written => ?_⟩
    obtain ⟨slot, records, given, inRecords, shows⟩ := PSBTInput.mem_records.mp written
    have content : merged.content slot = some records := by
      by_cases sighash : slot = .sighash
      · subst sighash
        obtain ⟨head, isHead, same⟩ := run.sighashType_eq mergedFound
        rw [members, List.head?_cons, Option.some.injEq] at isHead
        subst isHead
        rw [← given, PSBTInput.content, PSBTInput.content, same]
      · have here := run.inputField_eq (·.content slot)
          (fun this input => PSBTInput.content_merge this input sighash) mergedFound
        rw [here, members, List.findSome?_cons, given]
    refine ⟨record.2, PSBTInput.mem_records.mpr ⟨slot, records, content, inRecords, ?_⟩⟩
    simp only [PSBTInput.writes, Bool.and_eq_true] at shows ⊢
    exact ⟨by simp [unsigned], version ▸ shows.2⟩
  outputs := by
    intro first listed
    cases List.mem_singleton.mp listed
    exact run.outputs_kept (.head _)

theorem OrderFree.exists_run (orderFree : OrderFree sha256d psbts out) (apart : TxidsApart sha256d psbts)
    (perm : (psbt :: rest).Perm psbts) : ∃ other, Run sha256d (psbt :: rest) other ∧ SameRecords out other := by
  have same : ((Grouping.single psbt).extend rest).psbts = psbt :: rest := Grouping.psbts_extend _ _
  obtain ⟨other, combined, records⟩ := orderFree ((Grouping.single psbt).extend rest) (same ▸ perm)
  exact ⟨other, ⟨same ▸ Grouping.combines combined, apart.mono fun _ => perm.mem_iff.mp⟩, records⟩

/-- A PSBT of a list that could be combined in every order with the same records loses
nothing. -/
theorem OrderFree.nothingLost (orderFree : OrderFree sha256d psbts out) (run : Run sha256d psbts out)
    {order : List PartiallySignedTransaction} (perm : order.Perm psbts) (run' : Run sha256d order other)
    (same : SameRecords out other) : NothingLost order other := by
  -- the order that begins with a PSBT, and what it keeps of it
  have first psbt (listed : psbt ∈ order) :
      ∃ rest third, (psbt :: rest).Perm psbts ∧ Run sha256d (psbt :: rest) third ∧
        SameRecords out third ∧ NothingLost [psbt] third := by
    obtain ⟨before, after, rfl⟩ := List.append_of_mem listed
    have moved : (psbt :: (before ++ after)).Perm psbts := List.perm_middle.symm.trans perm
    obtain ⟨third, runThird, sameThird⟩ := orderFree.exists_run run.apart moved
    exact ⟨before ++ after, third, moved, runThird, sameThird, runThird.head_kept⟩
  constructor
  · intro psbt listed record written
    obtain ⟨rest, third, moved, -, sameThird, kept⟩ := first psbt listed
    obtain ⟨value, writtenThird⟩ := kept.globals psbt (.head _) record written
    exact ⟨value, (same.globals _).mp ((sameThird.globals _).mpr writtenThird)⟩
  · intro psbt listed index input found
    obtain ⟨rest, third, moved, runThird, sameThird, kept⟩ := first psbt listed
    obtain ⟨merged, mergedFound⟩ := run'.exists_part SameButLock.length_inputs listed found
    obtain ⟨mine, mineFound⟩ := run.exists_part SameButLock.length_inputs (perm.mem_iff.mp listed) found
    obtain ⟨theirs, theirsFound, final | keys⟩ := kept.inputs psbt (.head _) index input found
    · refine ⟨merged, mergedFound, .inl ?_⟩
      rw [← isFinal_perm run run' perm mineFound mergedFound,
        isFinal_perm run runThird moved mineFound theirsFound, final]
    refine ⟨merged, mergedFound, .inr fun record written => ?_⟩
    obtain ⟨value, writtenThird⟩ := keys record written
    exact ⟨value, (same.inputs index mine merged mineFound mergedFound _).mp
      ((sameThird.inputs index mine theirs mineFound theirsFound _).mpr writtenThird)⟩
  · exact fun _ listed => run'.outputs_kept listed

theorem OrderFree.locksStay (orderFree : OrderFree sha256d psbts out)
    (apart : TxidsApart sha256d psbts) : LocksStay psbts := by
  intro part psbt rest nonempty perm version
  obtain ⟨head, tail, rfl⟩ := List.exists_cons_of_ne_nil nonempty
  have apart' := apart.mono fun _ => perm.mem_iff.mp
  obtain ⟨other, combined, -⟩ := orderFree
    ((Grouping.join ((Grouping.single head).extend tail) (.single psbt)).extend rest)
    (by simpa [Grouping.psbts_extend, Grouping.psbts] using perm)
  rw [Grouping.combine_extend] at combined
  obtain ⟨joined, combined, -⟩ := Option.bind_eq_some_iff.mp combined
  obtain ⟨merged, partCombined, combined⟩ := Option.bind_eq_some_iff.mp combined
  have step : merged.merge sha256d psbt = some joined := by
    simpa [Grouping.combine, Grouping.combinePSBTs_pair] using combined
  have combines : Combines sha256d (head :: tail) merged := by
    simpa [Grouping.psbts_extend, Grouping.psbts] using Grouping.combines partCombined
  have run : Run sha256d (head :: tail) merged := ⟨combines, apart'.mono fun _ => List.mem_append_left _⟩
  have agree := agree_of_merge (apart'.mono fun _ => by grind) combines .single run.sameButLock
    (by simpa using ⟨rfl, rfl⟩) step
  obtain ⟨locktime, own, locked⟩ := agree.sameLock
  have mergedVersion : merged.getVersion ≥ 2 := agree.sameButLock.1 ▸ version
  rw [run.computeTimeLock_eq mergedVersion] at own
  exact ⟨locktime, own, locked⟩

end First

/-- Combining PSBTs loses no record exactly where they do not shadow each other's records. Where
no key has two values, every order and grouping gives the same records exactly where no order
shadows any, and no PSBTs that are combined first change the lock time. -/
theorem combinePSBTs_lossless_iff {psbts : List PartiallySignedTransaction} {out : PartiallySignedTransaction}
    (apart : TxidsApart sha256d psbts) (combined : combinePSBTs sha256d psbts = some out) :
    (NothingLost psbts out ↔ Kept psbts) ∧ (ConflictFree psbts → (OrderFree sha256d psbts out ↔
          (∀ order : List PartiallySignedTransaction, order.Perm psbts → Kept order) ∧ LocksStay psbts)) := by
  have run : Run sha256d psbts out := ⟨combines_of_combinePSBTs combined, apart⟩
  refine ⟨⟨run.kept, run.nothingLost⟩, fun conflictFree => ⟨?_, ?_⟩⟩
  · intro orderFree
    refine ⟨fun order perm => ?_, orderFree.locksStay apart⟩
    have nonempty : order ≠ [] := fun empty => run.combines.ne_nil (by simpa [empty] using perm.symm)
    obtain ⟨head, tail, rfl⟩ := List.exists_cons_of_ne_nil nonempty
    obtain ⟨other, run', same⟩ := orderFree.exists_run apart perm
    exact run'.kept (orderFree.nothingLost run perm run' same)
  · rintro ⟨kept, stay⟩ grouping perm
    obtain ⟨other, combined'⟩ := exists_combine run stay grouping [] (by simpa using perm)
    have run' : Run sha256d grouping.psbts other :=
      ⟨Grouping.combines combined', apart.mono fun _ => perm.mem_iff.mp⟩
    exact ⟨other, combined', sameRecords_of_kept run run' perm conflictFree kept⟩

/-- A PSBT that spends one output with this sighash type and these control blocks of a leaf. -/
def leafPsbt (sighashType : Option Int) (leaf : CScript) (controlBlocks : List Bytes) : PartiallySignedTransaction where
  txVersion := 2
  inputs := [{
    prevTxid := .ofNat 1
    prevOut := 0
    sighashType := sighashType
    tapScripts := .insert ∅ (leaf, 0xc0) (.ofList controlBlocks shortestVectorFirst) }]
  outputs := [{ amount := 1000, script := [OP_1] }]

/-- A control block of one byte and a key. -/
def control (first : UInt8) : Bytes := first :: List.replicate 32 0

/-- The keys of the records of the first input. -/
def firstInputKeys (psbt : PartiallySignedTransaction) : List InputKey :=
  psbt.inputs.head?.toList.flatMap fun input => (input.records psbt.getVersion).map Prod.fst

/-- The sighash type and the control block that only the second PSBT has are lost. In the other
order the sighash type stays, though the PSBTs give no key two values. -/
theorem combined_loses_records : let first := leafPsbt none [OP_1] [control 0xc0]
    let second := leafPsbt (some 1) [OP_1] [control 0xc1]
    let keys (psbts : List PartiallySignedTransaction) := (combinePSBTs lockHash psbts).map firstInputKeys
    firstInputKeys first = [.tapLeafScript (control 0xc0)] ∧
      firstInputKeys second = [.sighash, .tapLeafScript (control 0xc1)] ∧
      keys [first, second] = some [.tapLeafScript (control 0xc0)] ∧
      keys [second, first] = some [.sighash, .tapLeafScript (control 0xc1)] := by
  decide +kernel

/-- PSBTs with the same sighash type and control blocks of different leaves lose nothing and can
be combined in either order. -/
theorem combinePSBTs_lossless_leaves :
    let psbts := [leafPsbt (some 1) [0x51] [control 0xc0], leafPsbt (some 1) [0x52] [control 0xc1]]
    ∃ out, combinePSBTs lockHash psbts = some out ∧ NothingLost psbts out ∧ OrderFree lockHash psbts out := by
  intro psbts
  obtain ⟨out, combined⟩ : ∃ out, combinePSBTs lockHash psbts = some out :=
    Option.isSome_iff_exists.mp (by decide +kernel)
  have apart : TxidsApart lockHash psbts := txidsApart_lockHash (by decide +kernel)
  have given psbt (listed : psbt ∈ psbts) :
      ∃ byte : UInt8, psbt = leafPsbt (some 1) [byte] [control (byte + 0x6f)] := by
    simp only [psbts, List.mem_cons, List.not_mem_nil, or_false] at listed
    rcases listed with rfl | rfl
    · exact ⟨0x51, rfl⟩
    · exact ⟨0x52, rfl⟩
  have kept (order : List PartiallySignedTransaction) (perm : order.Perm psbts) : Kept order := by
    have members (index : Nat) (input : PSBTInput) (listed : input ∈ inputsAt order index) :
        ∃ byte : UInt8, (leafPsbt (some 1) [byte] [control (byte + 0x6f)]).inputs = [input] := by
      obtain ⟨psbt, psbtListed, found⟩ := mem_inputsAt.mp listed
      obtain ⟨byte, rfl⟩ := given psbt (perm.mem_iff.mp psbtListed)
      exact ⟨byte, by cases index <;> simp_all [leafPsbt]⟩
    constructor
    · intro psbt listed origin rank xpub found
      obtain ⟨byte, rfl⟩ := given psbt (perm.mem_iff.mp listed)
      simp [leafPsbt, lookupNested] at found
    refine fun index => .inr ⟨?_, ?_, ?_⟩
    · rintro ⟨input, listed, -⟩
      obtain ⟨first, rest, shape⟩ := List.exists_cons_of_ne_nil (List.ne_nil_of_mem listed)
      obtain ⟨byte, same⟩ := members index first (by simp [shape])
      cases same
      exact ⟨_, by rw [shape]; rfl, rfl⟩
    · intro input listed id pubkey sig signed
      obtain ⟨byte, same⟩ := members index input listed
      cases same
      simp at signed
    · intro input listed leaf controlBlocks blocks controlBlock among
      obtain ⟨first, here⟩ := exists_findSome? (·.tapScripts[leaf]?) listed blocks
      refine ⟨leaf, first, here, ?_⟩
      obtain ⟨other, otherListed, otherBlocks⟩ := List.exists_of_findSome?_eq_some here
      obtain ⟨byte, same⟩ := members index input listed
      obtain ⟨byte', same'⟩ := members index other otherListed
      cases same
      cases same'
      simp only [Std.ExtTreeMap.getElem?_insert, Std.ExtTreeMap.getElem?_empty,
        Std.LawfulEqCmp.compare_eq_iff_eq, Option.ite_none_right_eq_some,
        Option.some.injEq] at blocks otherBlocks
      obtain ⟨rfl, rfl⟩ := blocks
      obtain ⟨same, rfl⟩ := otherBlocks
      cases same
      exact among
  have conflictFree : ConflictFree psbts := by
    have globals : ∀ left ∈ psbts, ∀ right ∈ psbts, ∀ record ∈ left.records,
        ∀ record' ∈ right.records, record.1 = record'.1 → record.2 = record'.2 := by decide +kernel
    have inputs : ∀ left ∈ psbts, ∀ right ∈ psbts, ∀ both ∈ left.inputs.zip right.inputs,
        ∀ record ∈ both.1.records left.getVersion, ∀ record' ∈ both.2.records right.getVersion,
          record.1 = record'.1 → record.2 = record'.2 := by decide +kernel
    have outputs : ∀ left ∈ psbts, ∀ right ∈ psbts, ∀ both ∈ left.outputs.zip right.outputs,
        ∀ record ∈ both.1.records left.getVersion, ∀ record' ∈ both.2.records right.getVersion,
          record.1 = record'.1 → record.2 = record'.2 := by decide +kernel
    constructor
    · intro left leftListed right rightListed key value value' given given'
      exact globals left leftListed right rightListed _ given _ given' rfl
    · intro left leftListed right rightListed index input input' found found' key value value' given given'
      have both : (input, input') ∈ _ := List.mem_of_getElem? (List.getElem?_zip_eq_some.mpr ⟨found, found'⟩)
      exact inputs left leftListed right rightListed _ both _ given _ given' rfl
    intro left leftListed right rightListed index output output' found found' key value value' given given'
    have both : (output, output') ∈ _ := List.mem_of_getElem? (List.getElem?_zip_eq_some.mpr ⟨found, found'⟩)
    exact outputs left leftListed right rightListed _ both _ given _ given' rfl
  have locksStay : LocksStay psbts := by
    intro part psbt rest _ perm version
    have old : ∀ psbt ∈ psbts, ¬ psbt.getVersion ≥ 2 := by decide
    exact (old psbt (perm.mem_iff.mp (by simp)) version).elim
  have settled := combinePSBTs_lossless_iff apart combined
  exact ⟨out, combined, settled.1.mpr (kept psbts (List.Perm.refl _)), (settled.2 conflictFree).mpr ⟨kept, locksStay⟩⟩

end PartiallySignedTransaction

end Sharecoin
