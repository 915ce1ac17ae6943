import Sharecoin.Lib.Codec
import Mathlib.Data.Nat.Bits
import Mathlib.Algebra.BigOperators.Group.List.Basic

/-! The interpreter of asmaps and the checker that clears them for use. An asmap is a program of
bits; a run takes one path through it, and the checker walks all of it with a stack of the jumps
still to be taken. -/

set_option autoImplicit false

namespace Sharecoin

open Lib

namespace Asmap

/-- What neither function may run into: its assertion, a read outside the bytes, or a loop that
goes on for longer than there are bits. -/
inductive Fault where
  | aborted
  | outOfRange
  | unfinished
deriving DecidableEq

def INVALID : Nat := 0xFFFFFFFF

def consumeBitLE (bytes : Bytes) (bitpos : Nat) : Except Fault Bool :=
  match bytes[bitpos / 8]? with
  | some byte => .ok (byte.toNat.testBit (bitpos % 8))
  | none => .error .outOfRange

def consumeBitBE (bytes : Bytes) (bitpos : Nat) : Except Fault Bool :=
  match bytes[bitpos / 8]? with
  | some byte => .ok (byte.toNat.testBit (7 - bitpos % 8))
  | none => .error .outOfRange

/-! ## Decoding -/

/-- The position within a class, from its highest bit down. -/
def decodeMantissa (data : Bytes) : Nat → Nat → Nat → Except Fault (Nat × Nat)
  | 0, val, bitpos => .ok (val, bitpos)
  | left + 1, val, bitpos =>
    if bitpos ≥ data.length * 8 then .ok (INVALID, bitpos)
    else do
      let bit ← consumeBitLE data bitpos
      decodeMantissa data left (val + if bit then 2 ^ left else 0) (bitpos + 1)

def decodeBits (data : Bytes) : List Nat → Nat → Nat → Except Fault (Nat × Nat)
  | [], _, bitpos => .ok (INVALID, bitpos)
  -- the last class has no continuation bit
  | [size], val, bitpos => decodeMantissa data size val bitpos
  | size :: rest, val, bitpos =>
    if bitpos ≥ data.length * 8 then .ok (INVALID, bitpos)
    else do
      let bit ← consumeBitLE data bitpos
      if bit then decodeBits data rest (val + 2 ^ size) (bitpos + 1)
      else decodeMantissa data size val (bitpos + 1)

inductive Instruction where
  | RETURN
  | JUMP
  | MATCH
  | DEFAULT
  /-- What `INVALID` is as an instruction. -/
  | STRADDLES
deriving DecidableEq

def Instruction.decoded : Nat → Instruction
  | 0 => RETURN
  | 1 => JUMP
  | 2 => MATCH
  | 3 => DEFAULT
  | _ => STRADDLES

def decodeType (data : Bytes) (bitpos : Nat) : Except Fault (Instruction × Nat) := do
  let (val, bitpos) ← decodeBits data [0, 0, 1] 0 bitpos
  return (Instruction.decoded val, bitpos)

def decodeASN (data : Bytes) (bitpos : Nat) : Except Fault (Nat × Nat) :=
  decodeBits data [15, 16, 17, 18, 19, 20, 21, 22, 23, 24] 1 bitpos

def decodeMatch (data : Bytes) (bitpos : Nat) : Except Fault (Nat × Nat) :=
  decodeBits data [1, 2, 3, 4, 5, 6, 7, 8] 2 bitpos

def decodeJump (data : Bytes) (bitpos : Nat) : Except Fault (Nat × Nat) :=
  decodeBits data [5, 6, 7, 8, 9, 10, 11, 12, 13, 14, 15, 16, 17, 18, 19, 20, 21, 22, 23, 24, 25, 26, 27,
    28, 29, 30] 17 bitpos

/-! ## Running -/

/-- How a run returns: through a `RETURN`, or with the default after a failed `MATCH`. -/
inductive Answer where
  | returned (asn : Nat)
  | mismatched (defaultAsn : Nat)
deriving DecidableEq

def Answer.asn : Answer → Nat
  | returned asn => asn
  | mismatched defaultAsn => defaultAsn

/-- The position after the bits of the pattern that are left, unless one of them differs. -/
def matchBits (ip : Bytes) (pattern : Nat) : Nat → Nat → Except Fault (Option Nat)
  | 0, ipBit => .ok (some ipBit)
  | left + 1, ipBit => do
    let bit ← consumeBitBE ip ipBit
    if bit ≠ pattern.testBit left then return none else matchBits ip pattern left (ipBit + 1)

def interpretLoop (asmap ip : Bytes) : Nat → Nat → Nat → Nat → Except Fault Answer
  | 0, _, _, _ => .error .unfinished
  | fuel + 1, pos, ipBit, defaultAsn =>
    let endpos := asmap.length * 8
    let ipBitsEnd := ip.length * 8 % 2 ^ 8
    if pos < endpos then do
      let (opcode, pos) ← decodeType asmap pos
      match opcode with
      | .RETURN =>
        let (asn, _) ← decodeASN asmap pos
        if asn = INVALID then .error .aborted else return .returned asn
      | .JUMP =>
        let (jump, pos) ← decodeJump asmap pos
        if jump = INVALID ∨ ipBit = ipBitsEnd ∨ jump ≥ endpos - pos then .error .aborted
        else
          let bit ← consumeBitBE ip ipBit
          interpretLoop asmap ip fuel (if bit then pos + jump else pos) (ipBit + 1) defaultAsn
      | .MATCH =>
        let (pattern, pos) ← decodeMatch asmap pos
        if pattern = INVALID ∨ ipBitsEnd - ipBit < pattern.log2 then .error .aborted
        else
          match ← matchBits ip pattern pattern.log2 ipBit with
          | none => return .mismatched defaultAsn
          | some ipBit => interpretLoop asmap ip fuel pos ipBit defaultAsn
      | .DEFAULT =>
        let (defaultAsn, pos) ← decodeASN asmap pos
        if defaultAsn = INVALID then .error .aborted
        else interpretLoop asmap ip fuel pos ipBit defaultAsn
      | .STRADDLES => .error .aborted
    else .error .aborted

def interpret (asmap ip : Bytes) : Except Fault Answer :=
  interpretLoop asmap ip (asmap.length * 8 + 1) 0 0 0

/-! ## Checking -/

def zeroPadding (asmap : Bytes) : Nat → Nat → Except Fault Bool
  | 0, _ => .ok true
  | left + 1, pos => do
    let bit ← consumeBitLE asmap pos
    if bit then return false else zeroPadding asmap left (pos + 1)

/-- What the checker keeps between instructions; the last of the jumps comes first. -/
structure CheckState where
  pos : Nat := 0
  jumps : List (Nat × Nat) := []
  bits : Nat
  prevopcode : Instruction := .JUMP
  hadIncompleteMatch : Bool := false

def checkLoop (asmap : Bytes) : Nat → CheckState → Except Fault Bool
  | 0, _ => .error .unfinished
  | fuel + 1, state =>
    let endpos := asmap.length * 8
    if state.pos ≠ endpos then
      if state.jumps.head?.any (state.pos ≥ ·.1) then return false
      else do
        let (opcode, pos) ← decodeType asmap state.pos
        match opcode with
        | .RETURN =>
          if state.prevopcode = .DEFAULT then return false
          let (asn, pos) ← decodeASN asmap pos
          if asn = INVALID then return false
          match state.jumps with
          | [] => if endpos - pos > 7 then return false else zeroPadding asmap (endpos - pos) pos
          | (target, bits) :: jumps =>
            if pos ≠ target then return false
            checkLoop asmap fuel { state with pos, jumps, bits, prevopcode := .JUMP }
        | .JUMP =>
          let (jump, pos) ← decodeJump asmap pos
          if jump = INVALID ∨ jump > endpos - pos ∨ state.bits = 0 then return false
          let bits := state.bits - 1
          let jumpOffset := (pos + jump) % 2 ^ 32
          if state.jumps.head?.any (jumpOffset ≥ ·.1) then return false
          checkLoop asmap fuel
            { state with pos, jumps := (jumpOffset, bits) :: state.jumps, bits, prevopcode := .JUMP }
        | .MATCH =>
          let (pattern, pos) ← decodeMatch asmap pos
          if pattern = INVALID then return false
          let matchlen := pattern.log2
          let incomplete := state.prevopcode = .MATCH ∧ state.hadIncompleteMatch
          if matchlen < 8 ∧ incomplete ∨ state.bits < matchlen then return false
          checkLoop asmap fuel
            { state with pos, bits := state.bits - matchlen, prevopcode := .MATCH, hadIncompleteMatch := matchlen < 8 }
        | .DEFAULT =>
          if state.prevopcode = .DEFAULT then return false
          let (asn, pos) ← decodeASN asmap pos
          if asn = INVALID then return false
          checkLoop asmap fuel { state with pos, prevopcode := .DEFAULT }
        | .STRADDLES => return false
    else return false

def sanityCheckAsmap (asmap : Bytes) (bits : Nat) : Except Fault Bool :=
  checkLoop asmap (asmap.length * 8 + 1) { bits }

/-! ## Every read stays inside -/

section

variable {data : Bytes} {bitpos : Nat}

theorem consumeBitLE_ok (inside : bitpos < data.length * 8) : ∃ bit, consumeBitLE data bitpos = .ok bit := by
  rw [consumeBitLE, List.getElem?_eq_getElem (show bitpos / 8 < data.length by omega)]
  exact ⟨_, rfl⟩

theorem consumeBitBE_ok (inside : bitpos < data.length * 8) : ∃ bit, consumeBitBE data bitpos = .ok bit := by
  rw [consumeBitBE, List.getElem?_eq_getElem (show bitpos / 8 < data.length by omega)]
  exact ⟨_, rfl⟩

/-- What decoding from a position may give: a position no earlier and still inside, and a value
below the bound if it is not the marker. -/
def Decodes (data : Bytes) (bitpos bound : Nat) (result : Except Fault (Nat × Nat)) : Prop :=
  ∃ val next, result = .ok (val, next) ∧ bitpos ≤ next ∧
    (bitpos ≤ data.length * 8 → next ≤ data.length * 8) ∧ (val = INVALID ∨ val < bound)

theorem Decodes.weaken {start bound bound' : Nat} {result : Except Fault (Nat × Nat)}
    (decodes : Decodes data bitpos bound result) (before : start ≤ bitpos)
    (inside : start ≤ data.length * 8 → bitpos ≤ data.length * 8) (le : bound ≤ bound') :
    Decodes data start bound' result := by
  obtain ⟨val, next, equal, later, within, small⟩ := decodes
  exact ⟨val, next, equal, by omega, fun start => within (inside start), small.imp_right (by omega)⟩

theorem decodes_invalid (bound : Nat) : Decodes data bitpos bound (.ok (INVALID, bitpos)) :=
  ⟨INVALID, bitpos, rfl, le_rfl, id, .inl rfl⟩

theorem decodes_mantissa (left val : Nat) :
    Decodes data bitpos (val + 2 ^ left) (decodeMantissa data left val bitpos) := by
  induction left generalizing val bitpos with
  | zero => exact ⟨val, bitpos, rfl, le_rfl, id, .inr (by simp)⟩
  | succ left ih =>
    unfold decodeMantissa
    split
    next => exact decodes_invalid _
    next inside =>
      obtain ⟨bit, read⟩ := consumeBitLE_ok (not_le.mp inside)
      rw [read]
      refine (ih (val + if bit then 2 ^ left else 0)).weaken (by omega) (by omega) ?_
      rw [pow_succ]
      split <;> omega

theorem decodes_bits (sizes : List Nat) (val : Nat) :
    Decodes data bitpos (val + (sizes.map (2 ^ ·)).sum) (decodeBits data sizes val bitpos) := by
  fun_induction decodeBits data sizes val bitpos with
  | case1 => exact decodes_invalid _
  | case2 size val bitpos => simpa using decodes_mantissa size val
  | case3 => exact decodes_invalid _
  | case4 size rest val bitpos _ inside ih =>
    obtain ⟨bit, read⟩ := consumeBitLE_ok (not_le.mp inside)
    rw [read, List.map_cons, List.sum_cons]
    cases bit with
    | true => exact (ih.weaken (by omega) (by omega) (by omega))
    | false => exact ((decodes_mantissa size val).weaken (by omega) (by omega) (by omega))

theorem decodes_asn (data : Bytes) (bitpos : Nat) : Decodes data bitpos INVALID (decodeASN data bitpos) :=
  (decodes_bits _ 1).weaken le_rfl id (by decide)

theorem decodes_match (data : Bytes) (bitpos : Nat) : Decodes data bitpos INVALID (decodeMatch data bitpos) :=
  (decodes_bits _ 2).weaken le_rfl id (by decide)

theorem decodes_jump (data : Bytes) (bitpos : Nat) : Decodes data bitpos INVALID (decodeJump data bitpos) :=
  (decodes_bits _ 17).weaken le_rfl id (by decide)

/-- The first class of a type has a bit of its own, so one bit is always read. -/
theorem decodeType_ok (inside : bitpos < data.length * 8) : ∃ opcode next,
    decodeType data bitpos = .ok (opcode, next) ∧ bitpos < next ∧ next ≤ data.length * 8 := by
  obtain ⟨bit, read⟩ := consumeBitLE_ok inside
  have rest : Decodes data (bitpos + 1) INVALID (if bit then decodeBits data [0, 1] 1 (bitpos + 1)
      else decodeMantissa data 0 0 (bitpos + 1)) := by
    cases bit with
    | true => exact (decodes_bits [0, 1] 1).weaken le_rfl id (by decide)
    | false => exact (decodes_mantissa 0 0).weaken le_rfl id (by decide)
  obtain ⟨val, next, equal, later, within, -⟩ := rest
  have first : decodeBits data [0, 0, 1] 0 bitpos = .ok (val, next) := by
    rw [decodeBits, if_neg (not_le.mpr inside), read]
    exact equal
    · simp
  refine ⟨Instruction.decoded val, next, ?_, by omega, within (by omega)⟩
  rw [decodeType, first]
  rfl

end

/-! ## What the checker establishes -/

/-- From this position every path with this many bits left returns. -/
inductive Sane (asmap : Bytes) : Nat → Nat → Prop where
  | byReturn {pos bits asn afterType next : Nat} (inside : pos < asmap.length * 8)
      (type : decodeType asmap pos = .ok (.RETURN, afterType))
      (decoded : decodeASN asmap afterType = .ok (asn, next)) (valid : asn ≠ INVALID) : Sane asmap pos bits
  | byJump {pos bits jump afterType next : Nat} (inside : pos < asmap.length * 8) (later : pos < next)
      (type : decodeType asmap pos = .ok (.JUMP, afterType))
      (decoded : decodeJump asmap afterType = .ok (jump, next)) (valid : jump ≠ INVALID)
      (left : Sane asmap next bits) (right : Sane asmap (next + jump) bits) : Sane asmap pos (bits + 1)
  | byMatch {pos bits pattern afterType next : Nat} (inside : pos < asmap.length * 8) (later : pos < next)
      (type : decodeType asmap pos = .ok (.MATCH, afterType))
      (decoded : decodeMatch asmap afterType = .ok (pattern, next)) (valid : pattern ≠ INVALID)
      (rest : Sane asmap next bits) : Sane asmap pos (bits + pattern.log2)
  | byDefault {pos bits asn afterType next : Nat} (inside : pos < asmap.length * 8) (later : pos < next)
      (type : decodeType asmap pos = .ok (.DEFAULT, afterType))
      (decoded : decodeASN asmap afterType = .ok (asn, next)) (valid : asn ≠ INVALID)
      (rest : Sane asmap next bits) : Sane asmap pos bits

theorem Sane.inside {asmap : Bytes} {pos bits : Nat} (sane : Sane asmap pos bits) : pos < asmap.length * 8 := by
  cases sane <;> assumption

theorem ite_false_eq_true_iff {refused : Prop} [Decidable refused] {rest : Except Fault Bool} :
    (if refused then pure false else rest) = .ok true ↔ ¬ refused ∧ rest = .ok true := by
  split <;> simp_all [pure, Except.pure]

/-- A walk that ends well covers its position and every jump still to be taken. -/
theorem sane_of_checkLoop {asmap : Bytes} (small : asmap.length < 2 ^ 29) {fuel : Nat} {state : CheckState}
    (inside : state.pos ≤ asmap.length * 8) (checked : checkLoop asmap fuel state = .ok true) :
    Sane asmap state.pos state.bits ∧ ∀ jump ∈ state.jumps, Sane asmap jump.1 jump.2 := by
  induction fuel generalizing state with
  | zero => cases checked
  | succ fuel ih =>
    unfold checkLoop at checked
    dsimp only at checked
    split at checked
    next more =>
      have inside : state.pos < asmap.length * 8 := by omega
      obtain ⟨opcode, afterType, type, moved, within⟩ := decodeType_ok inside
      simp only [type, bind, Except.bind, ite_false_eq_true_iff] at checked
      cases opcode with
      | RETURN =>
        obtain ⟨asn, next, decoded, -, within', -⟩ := decodes_asn asmap afterType
        simp only [decoded, ite_false_eq_true_iff] at checked
        obtain ⟨-, -, valid, checked⟩ := checked
        refine ⟨.byReturn inside type decoded valid, ?_⟩
        split at checked
        next none => simp [none]
        next target bits jumps pending =>
          rw [ite_false_eq_true_iff, not_not] at checked
          obtain ⟨first, others⟩ := ih (within' within) checked.2
          rw [pending, ← checked.1]
          exact List.forall_mem_cons.mpr ⟨first, others⟩
      | JUMP =>
        obtain ⟨jump, next, decoded, onward, within', -⟩ := decodes_jump asmap afterType
        simp only [decoded, ite_false_eq_true_iff, not_or] at checked
        obtain ⟨-, ⟨valid, short, some⟩, -, checked⟩ := checked
        obtain ⟨left, others⟩ := ih (within' within) checked
        obtain ⟨right, others⟩ := List.forall_mem_cons.mp others
        have end' := within' within
        rw [Nat.mod_eq_of_lt (by omega)] at right
        have sane := Sane.byJump inside (by omega) type decoded valid left right
        rw [Nat.sub_add_cancel (Nat.pos_of_ne_zero some)] at sane
        exact ⟨sane, others⟩
      | MATCH =>
        obtain ⟨pattern, next, decoded, onward, within', -⟩ := decodes_match asmap afterType
        simp only [decoded, ite_false_eq_true_iff, not_or] at checked
        obtain ⟨-, valid, ⟨-, enough⟩, checked⟩ := checked
        obtain ⟨rest, others⟩ := ih (within' within) checked
        have sane := Sane.byMatch inside (by omega) type decoded valid rest
        rw [Nat.sub_add_cancel (not_lt.mp enough)] at sane
        exact ⟨sane, others⟩
      | DEFAULT =>
        obtain ⟨asn, next, decoded, onward, within', -⟩ := decodes_asn asmap afterType
        simp only [decoded, ite_false_eq_true_iff] at checked
        obtain ⟨-, -, valid, checked⟩ := checked
        obtain ⟨rest, others⟩ := ih (within' within) checked
        exact ⟨.byDefault inside (by omega) type decoded valid rest, others⟩
      | STRADDLES => simp [pure, Except.pure] at checked
    next => cases checked

/-! ## Runs -/

theorem matchBits_ok {ip : Bytes} (pattern : Nat) {left ipBit : Nat} (inside : ipBit + left ≤ ip.length * 8) :
    matchBits ip pattern left ipBit = .ok none ∨ matchBits ip pattern left ipBit = .ok (some (ipBit + left)) := by
  induction left generalizing ipBit with
  | zero => exact .inr rfl
  | succ left ih =>
    obtain ⟨bit, read⟩ := consumeBitBE_ok (show ipBit < ip.length * 8 by omega)
    have rest := ih (show ipBit + 1 + left ≤ ip.length * 8 by omega)
    rw [show ipBit + 1 + left = ipBit + (left + 1) by omega] at rest
    simp only [matchBits, read, bind, Except.bind]
    split
    · exact .inl rfl
    · exact rest

/-- From a sane position, with as many bits of the address left as it may take, a run returns. -/
theorem Sane.interpretLoop_ok {asmap ip : Bytes} (address : ip.length = 16) {pos bits : Nat}
    (sane : Sane asmap pos bits) {fuel ipBit defaultAsn : Nat} (enough : asmap.length * 8 < pos + fuel)
    (left : ipBit + bits = 128) (valid : defaultAsn ≠ INVALID) :
    ∃ answer, interpretLoop asmap ip fuel pos ipBit defaultAsn = .ok answer ∧ answer.asn ≠ INVALID := by
  have bitsEnd : ip.length * 8 = 128 := by omega
  induction sane generalizing fuel ipBit defaultAsn with
  | byReturn inside type decoded asnValid =>
    obtain _ | fuel := fuel
    · omega
    simp only [interpretLoop, inside, type, decoded, asnValid, bind, Except.bind, if_true, if_false]
    exact ⟨_, rfl, asnValid⟩
  | @byJump pos bits jump afterType next inside later type decoded jumpValid _ right leftIH rightIH =>
    obtain _ | fuel := fuel
    · omega
    obtain ⟨bit, read⟩ := consumeBitBE_ok (show ipBit < ip.length * 8 by omega)
    have going : ¬ (jump = INVALID ∨ ipBit = 128 % 2 ^ 8 ∨ jump ≥ asmap.length * 8 - next) := by
      have := right.inside
      omega
    simp only [interpretLoop, inside, type, decoded, bitsEnd, going, read, bind, Except.bind, if_true, if_false]
    cases bit with
    | true => exact rightIH (by omega) (by omega) valid
    | false => exact leftIH (by omega) (by omega) valid
  | @byMatch pos bits pattern afterType next inside later type decoded patternValid _ ih =>
    obtain _ | fuel := fuel
    · omega
    have going : ¬ (pattern = INVALID ∨ 128 % 2 ^ 8 - ipBit < pattern.log2) := by omega
    simp only [interpretLoop, inside, type, decoded, bitsEnd, going, bind, Except.bind, if_true, if_false]
    rcases matchBits_ok pattern (show ipBit + pattern.log2 ≤ ip.length * 8 by omega) with differs | same
    · rw [differs]
      exact ⟨_, rfl, valid⟩
    · rw [same]
      exact ih (by omega) (by omega) valid
  | byDefault inside later type decoded asnValid _ ih =>
    obtain _ | fuel := fuel
    · omega
    simp only [interpretLoop, inside, type, decoded, asnValid, bind, Except.bind, if_true, if_false]
    exact ih (by omega) left asnValid

/-- An asmap that passes the check answers for every address. -/
theorem interpret_answers {asmap ip : Bytes} (small : asmap.length < 2 ^ 29)
    (sane : sanityCheckAsmap asmap 128 = .ok true) (address : ip.length = 16) :
    ∃ answer, interpret asmap ip = .ok answer ∧ answer.asn ≠ INVALID :=
  (sane_of_checkLoop small (Nat.zero_le _) sane).1.interpretLoop_ok address (by omega) rfl (by decide)

theorem interpret_answers_jump : sanityCheckAsmap [1, 0, 0, 0, 0, 0] 128 = .ok true ∧
    ∃ answer, interpret [1, 0, 0, 0, 0, 0] (List.replicate 16 0) = .ok answer ∧ answer.asn ≠ INVALID :=
  ⟨by decide +kernel, interpret_answers (by decide) (by decide +kernel) (by decide)⟩

end Asmap

end Sharecoin
