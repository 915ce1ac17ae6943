import Sharecoin.Primitives.Transaction
import Sharecoin.Script.SigOps

/-! Taking code separators out of a script: `FindAndDelete` rebuilds the script without them,
the signature serializer writes the stretches between them behind a length counted
beforehand. Positions are the rest of the script from there on. -/

set_option autoImplicit false

namespace Sharecoin

open Lib

def OP_CODESEPARATOR : UInt8 := 0xab

namespace CScript

/-! ## Deletion -/

/-- The inner loop of `FindAndDelete`: how many copies were passed, and where it stops. -/
def skipMatches (b : CScript) : Nat → CScript → Nat × CScript
  | 0, pc => (0, pc)
  | turns + 1, pc =>
    if b.isPrefixOf pc then
      let (nFound, pc) := skipMatches b turns (pc.drop b.length)
      (nFound + 1, pc)
    else (0, pc)

/-- The outer loop: copies found, what was kept, and what is left behind the last stop. -/
def deleteLoop (b : CScript) : Nat → CScript → CScript → CScript → Nat → Nat × CScript × CScript
  | 0, pc2, _, result, nFound => (nFound, result, pc2)
  | turns + 1, pc2, pc, result, nFound =>
    let result := result ++ pc2.take (pc2.length - pc.length)
    let (found, pc) := skipMatches b pc.length pc
    match getOp pc with
    | none => (nFound + found, result, pc)
    | some (_, _, next) => deleteLoop b turns pc next result (nFound + found)

def findAndDelete (script b : CScript) : Nat × CScript :=
  if b.isEmpty then (0, script)
  else
    let (nFound, result, pc2) := deleteLoop b (script.length + 1) script script [] 0
    if nFound > 0 then (nFound, result ++ pc2) else (nFound, script)

/-! ## Serialization without separators -/

/-- Where the iterator stands after an operation that cannot be read. -/
def unread : CScript → CScript
  | [] => []
  | opcode :: rest =>
    if rest.length < sizeWidth opcode then rest else rest.drop (sizeWidth opcode)

def countSeparators : Nat → CScript → Nat
  | 0, _ => 0
  | turns + 1, it =>
    match getOp it with
    | none => 0
    | some (opcode, _, next) =>
      (if opcode = OP_CODESEPARATOR then 1 else 0) + countSeparators turns next

def writeStretches : Nat → CScript → CScript → Bytes
  | 0, _, _ => []
  | turns + 1, itBegin, it =>
    match getOp it with
    | none => if itBegin.isEmpty then [] else itBegin.take (itBegin.length - (unread it).length)
    | some (opcode, _, next) =>
      if opcode = OP_CODESEPARATOR then
        itBegin.take (itBegin.length - next.length - 1) ++ writeStretches turns next next
      else writeStretches turns itBegin next

def serializeScriptCode (scriptCode : CScript) : Bytes :=
  writeCompactSize (scriptCode.length - countSeparators (scriptCode.length + 1) scriptCode) ++
    writeStretches (scriptCode.length + 1) scriptCode scriptCode

/-! ## What is left -/

/-- Every operation up to the end can be read. -/
inductive Parses : CScript → Prop where
  | nil : Parses []
  | op {script rest data : CScript} {opcode : UInt8} :
      getOp script = some (opcode, data, rest) → Parses rest → Parses script

/-- The second script is the first one without the operations that are separators. -/
inductive Strips : CScript → CScript → Prop where
  | nil : Strips [] []
  | separator {rest kept : CScript} : Strips rest kept → Strips (OP_CODESEPARATOR :: rest) kept
  | other {opcode : UInt8} {data operand rest kept : CScript} :
      opcode ≠ OP_CODESEPARATOR →
      getOp (opcode :: (operand ++ rest)) = some (opcode, data, rest) → Strips rest kept →
      Strips (opcode :: (operand ++ rest)) (opcode :: (operand ++ kept))

variable {script : CScript}

@[simp] theorem getOp_separator (rest : CScript) :
    getOp (OP_CODESEPARATOR :: rest) = some (OP_CODESEPARATOR, [], rest) := rfl

theorem Parses.strips (parses : Parses script) : ∃ kept, Strips script kept := by
  induction parses with
  | nil => exact ⟨[], .nil⟩
  | @op script rest data opcode read _ ih =>
    obtain ⟨kept, strips⟩ := ih
    obtain ⟨operand, rfl⟩ := getOp_eq_some read
    by_cases separator : opcode = OP_CODESEPARATOR
    · subst separator
      rw [getOp_separator, Option.some.injEq, Prod.mk.injEq, Prod.mk.injEq] at read
      rw [read.2.2]
      exact ⟨kept, .separator strips⟩
    · exact ⟨_, .other separator read strips⟩

section

variable {script : CScript} {kept : CScript} (strips : Strips script kept)

include strips

theorem Strips.sublist : kept.Sublist script := by
  induction strips with
  | nil => exact List.Sublist.refl _
  | separator _ ih => exact ih.cons _
  | other _ _ _ ih => exact (ih.append_left _).cons_cons _

theorem Strips.countSeparators (turns : Nat) (enough : script.length ≤ turns) :
    CScript.countSeparators turns script + kept.length = script.length := by
  induction strips generalizing turns with
  | nil => cases turns <;> rfl
  | separator _ ih =>
    obtain _ | turns := turns
    · cases enough
    have counted := ih turns (Nat.le_of_succ_le_succ enough)
    rw [CScript.countSeparators, getOp_separator, List.length_cons]
    dsimp only
    rw [if_pos rfl]
    omega
  | other different read _ ih =>
    obtain _ | turns := turns
    · cases enough
    have shorter := getOp_length read
    have counted := ih turns (by omega)
    rw [CScript.countSeparators, read, List.length_cons, List.length_append, List.length_cons, List.length_append]
    dsimp only
    rw [if_neg different]
    omega

/-- The stretch not yet written is put in front of what the rest leaves. -/
theorem Strips.writeStretches (stretch : CScript) (turns : Nat) (enough : script.length < turns) :
    CScript.writeStretches turns (stretch ++ script) script = stretch ++ kept := by
  induction strips generalizing stretch turns with
  | nil =>
    obtain _ | turns := turns
    · cases enough
    rw [List.append_nil]
    cases stretch with
    | nil => rfl
    | cons first stretch =>
      change (first :: stretch).take ((first :: stretch).length - 0) = _
      rw [Nat.sub_zero, List.take_length]
  | @separator rest kept _ ih =>
    obtain _ | turns := turns
    · cases enough
    have written := ih [] turns (Nat.lt_of_succ_lt_succ enough)
    have width : (stretch ++ OP_CODESEPARATOR :: rest).length - rest.length - 1 =
        stretch.length := by
      rw [List.length_append, List.length_cons]
      omega
    rw [CScript.writeStretches, getOp_separator]
    dsimp only
    rw [if_pos rfl, width, List.take_left]
    exact congrArg _ written
  | @other opcode data operand rest kept different read _ ih =>
    obtain _ | turns := turns
    · cases enough
    have shorter := getOp_length read
    have written := ih (stretch ++ opcode :: operand) turns (by omega)
    rw [CScript.writeStretches, read]
    dsimp only
    rw [if_neg different]
    simpa only [List.append_assoc, List.cons_append] using written

theorem serializeScriptCode_eq : serializeScriptCode script = serializeBytes kept := by
  have counted := strips.countSeparators (script.length + 1) (Nat.le_succ _)
  have written := strips.writeStretches [] (script.length + 1) (Nat.lt_succ_self _)
  rw [List.nil_append, List.nil_append] at written
  rw [serializeScriptCode, written, serializeBytes, Nat.sub_eq_of_eq_add' counted.symm]

end

/-- A copy at the stop of the loop is counted, and the stretch before it is kept. -/
private theorem deleteLoop_separator (turns : Nat) (stretch rest result : CScript) (nFound : Nat) :
    deleteLoop [OP_CODESEPARATOR] (turns + 1) (stretch ++ OP_CODESEPARATOR :: rest)
        (OP_CODESEPARATOR :: rest) result nFound =
      deleteLoop [OP_CODESEPARATOR] (turns + 1) rest rest (result ++ stretch) (nFound + 1) := by
  have width : (stretch ++ OP_CODESEPARATOR :: rest).length - (OP_CODESEPARATOR :: rest).length =
      stretch.length := by
    rw [List.length_append, Nat.add_sub_cancel_right]
  have skipped : skipMatches [OP_CODESEPARATOR] (OP_CODESEPARATOR :: rest).length
      (OP_CODESEPARATOR :: rest) = ((skipMatches [OP_CODESEPARATOR] rest.length rest).1 + 1,
        (skipMatches [OP_CODESEPARATOR] rest.length rest).2) := rfl
  rw [deleteLoop, deleteLoop, width, List.take_left, skipped, Nat.sub_self, List.take_zero, List.append_nil]
  dsimp only
  rw [show nFound + ((skipMatches [OP_CODESEPARATOR] rest.length rest).1 + 1) =
    nFound + 1 + (skipMatches [OP_CODESEPARATOR] rest.length rest).1 by omega]

theorem Strips.deleteLoop {kept : CScript} (strips : Strips script kept)
    (stretch result : CScript) (nFound turns : Nat) (enough : script.length < turns) :
    ∃ found, CScript.deleteLoop [OP_CODESEPARATOR] turns (stretch ++ script) script result nFound =
        (found, result ++ stretch ++ kept, []) ∧
      found + kept.length = nFound + script.length := by
  induction strips generalizing stretch result nFound turns with
  | nil =>
    obtain _ | turns := turns
    · cases enough
    refine ⟨nFound, ?_, rfl⟩
    rw [CScript.deleteLoop, List.append_nil, List.append_nil, List.length_nil, Nat.sub_zero, List.take_length]
    rfl
  | @separator rest kept _ ih =>
    obtain _ | turns := turns
    · cases enough
    rw [List.length_cons] at enough ⊢
    obtain ⟨found, looped, counted⟩ := ih [] (result ++ stretch) (nFound + 1) (turns + 1) (by omega)
    refine ⟨found, ?_, by omega⟩
    rw [deleteLoop_separator]
    simpa only [List.nil_append, List.append_nil] using looped
  | @other opcode data operand rest kept different read _ ih =>
    obtain _ | turns := turns
    · cases enough
    have shorter := getOp_length read
    have skipped : skipMatches [OP_CODESEPARATOR] (opcode :: (operand ++ rest)).length
        (opcode :: (operand ++ rest)) = (0, opcode :: (operand ++ rest)) := by
      rw [List.length_cons, skipMatches, if_neg]
      simpa [List.isPrefixOf] using different.symm
    have width : (stretch ++ opcode :: (operand ++ rest)).length -
        (opcode :: (operand ++ rest)).length = stretch.length := by
      rw [List.length_append, Nat.add_sub_cancel_right]
    obtain ⟨found, looped, counted⟩ := ih (opcode :: operand) (result ++ stretch) nFound turns (by omega)
    refine ⟨found, ?_, ?_⟩
    · rw [CScript.deleteLoop, width, List.take_left, skipped]
      dsimp only
      rw [read]
      simpa only [List.append_assoc, List.cons_append, Nat.add_zero] using looped
    · simp only [List.length_cons, List.length_append] at counted ⊢
      omega

theorem findAndDelete_separator {kept : CScript} (strips : Strips script kept) :
    (findAndDelete script [OP_CODESEPARATOR]).2 = kept := by
  obtain ⟨found, looped, counted⟩ := strips.deleteLoop [] [] 0 (script.length + 1) (Nat.lt_succ_self _)
  rw [List.nil_append, List.append_nil, List.nil_append] at looped
  rw [findAndDelete, if_neg (by decide), looped]
  dsimp only
  split
  · exact List.append_nil _
  · next none =>
      exact (strips.sublist.eq_of_length (by omega)).symm

end CScript

end Sharecoin
