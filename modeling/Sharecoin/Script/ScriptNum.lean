import Sharecoin.Script.SignatureEncoding
import Sharecoin.Script.SigOps

/-! Script numbers and pushes have one encoding. A number is written in sign and magnitude, lowest byte
first, with a byte of its own for the sign where the highest digit needs the bit; the reader and the
test for minimal encodings are written separately. -/

set_option autoImplicit false

namespace Sharecoin

open Lib

namespace CScript

/-! ## Numbers -/

/-- `CScriptNum::set_vch`, for at most 8 bytes. The bit that is cleared is set. -/
def setVch (vch : Bytes) : Int :=
  match vch.getLast? with
  | none => 0
  | some last =>
    let result := ofLeBytes vch
    if last &&& 0x80 ≠ 0 then -(result - 0x80 * 256 ^ (vch.length - 1) : Nat) else result

/-- What the constructor of `CScriptNum` asks for with `fRequireMinimal`. -/
def isMinimallyEncoded (vch : Bytes) : Bool :=
  match vch.getLast? with
  | none => true
  | some last => last &&& 0x7f != 0 || vch.dropLast.getLast?.any fun second => second &&& 0x80 != 0

section Numbers

variable {init : Bytes} {top : UInt8}

theorem and_low_eq_zero_iff (byte : UInt8) : byte &&& 0x7f = 0 ↔ byte.toNat % 128 = 0 := by
  rw [← UInt8.toNat_inj, UInt8.toNat_and]
  exact Eq.congr_left (Nat.and_two_pow_sub_one_eq_mod byte.toNat 7)

theorem toNat_or_high (low : top < 0x80) : (top ||| 0x80).toNat = top.toNat + 128 := by
  rw [UInt8.toNat_or, Nat.or_comm]
  exact (@Nat.two_pow_add_eq_or_of_lt 7 _ (UInt8.lt_iff_toNat_lt.mp low) 1).symm.trans (Nat.add_comm _ _)

theorem ofLeBytes_concat (init : Bytes) (top : UInt8) :
    ofLeBytes (init ++ [top]) = ofLeBytes init + 256 ^ init.length * top.toNat := by
  rw [ofLeBytes_append]
  rfl

theorem ofLeBytes_concat_pos (nonzero : top ≠ 0) : 0 < ofLeBytes (init ++ [top]) := by
  have positive : 0 < 256 ^ init.length * top.toNat :=
    Nat.mul_pos (Nat.pow_pos (by decide)) (Nat.pos_of_ne_zero fun zero => nonzero (UInt8.toNat_inj.mp zero))
  rw [ofLeBytes_concat]
  omega

theorem magnitude_succ {byte : UInt8} {number : Nat} (digits : Nat) (positive : 0 < byte.toNat + 256 * number) :
    magnitude (digits + 1) (byte.toNat + 256 * number) = byte :: magnitude digits number := by
  have small := byte.toNat_lt
  have digit : UInt8.ofNat (byte.toNat + 256 * number) = byte := by
    apply UInt8.toNat_inj.mp
    rw [UInt8.toNat_ofNat']
    omega
  have quotient : (byte.toNat + 256 * number) / 256 = number := by omega
  rw [magnitude, if_neg positive.ne', digit, quotient]

theorem magnitude_concat {digits : Nat} (short : init.length < digits) (nonzero : top ≠ 0) :
    magnitude digits (ofLeBytes (init ++ [top])) = init ++ [top] := by
  have positive := @ofLeBytes_concat_pos init top nonzero
  induction init generalizing digits with
  | nil =>
    obtain ⟨fewer, rfl⟩ := Nat.exists_eq_add_of_lt short
    refine (magnitude_succ _ positive).trans (congrArg _ ?_)
    cases fewer <;> rfl
  | cons byte init ih =>
    obtain ⟨fewer, rfl⟩ := Nat.exists_eq_add_of_lt short
    refine (magnitude_succ _ positive).trans (congrArg _ (ih ?_ (ofLeBytes_concat_pos nonzero)))
    rw [List.length_cons]
    omega

theorem exists_digits {number digits : Nat} (positive : 0 < number) (fits : number < 256 ^ digits) :
    ∃ init top, init.length < digits ∧ top ≠ 0 ∧ number = ofLeBytes (init ++ [top]) := by
  induction digits generalizing number with
  | zero => omega
  | succ digits ih =>
    have digit : (UInt8.ofNat number).toNat = number % 256 := UInt8.toNat_ofNat'
    rcases Nat.eq_zero_or_pos (number / 256) with small | more
    · refine ⟨[], UInt8.ofNat number, Nat.succ_pos _, ?_, ?_⟩
      · intro zero
        rw [zero] at digit
        change 0 = _ at digit
        omega
      · simp only [List.nil_append, ofLeBytes, digit]
        omega
    · rw [Nat.pow_succ] at fits
      obtain ⟨init, top, short, nonzero, same⟩ := ih more (Nat.div_lt_of_lt_mul (Nat.mul_comm _ 256 ▸ fits))
      refine ⟨UInt8.ofNat number :: init, top, Nat.succ_lt_succ short, nonzero, ?_⟩
      rw [List.cons_append, ofLeBytes, ← same, digit]
      omega

theorem scriptNum_concat {n : Int} (short : init.length < 8) (nonzero : top ≠ 0)
    (digits : n.natAbs = ofLeBytes (init ++ [top])) :
    scriptNum n = if top < 0x80 then init ++ [if n < 0 then top ||| 0x80 else top]
      else init ++ [top] ++ [if n < 0 then 0x80 else 0] := by
  rw [scriptNum, digits, magnitude_concat short nonzero]
  simp only [List.getLast?_concat, ne_eq, and_high_eq_zero_iff]
  by_cases low : top < 0x80
  · by_cases negative : n < 0 <;> simp [low, negative]
  · simp [low]

theorem setVch_concat (init : Bytes) (last : UInt8) : setVch (init ++ [last]) =
    if last < 0x80 then ↑(ofLeBytes init + 256 ^ init.length * last.toNat)
    else -↑(ofLeBytes init + 256 ^ init.length * (last.toNat - 128)) := by
  rw [setVch, List.getLast?_concat]
  simp only [ne_eq, and_high_eq_zero_iff, ite_not, ofLeBytes_concat, List.length_append, List.length_singleton,
    Nat.add_sub_cancel]
  split
  · rfl
  next high =>
    have bound : 128 ≤ last.toNat := not_lt.mp high
    obtain ⟨more, same⟩ := Nat.exists_eq_add_of_le bound
    rw [same, Nat.add_sub_cancel_left, Nat.mul_add]
    congr 2
    omega

theorem natAbs_setVch_le (vch : Bytes) : (setVch vch).natAbs ≤ ofLeBytes vch := by
  unfold setVch
  split
  · exact Nat.zero_le _
  · dsimp only
    split <;> omega

theorem scriptNum_spec {n : Int} (fits : n.natAbs < 256 ^ 8) :
    setVch (scriptNum n) = n ∧ isMinimallyEncoded (scriptNum n) = true := by
  rcases Nat.eq_zero_or_pos n.natAbs with zero | positive
  · obtain rfl := Int.natAbs_eq_zero.mp zero
    exact ⟨rfl, rfl⟩
  obtain ⟨init, top, short, nonzero, digits⟩ := exists_digits positive fits
  have leading : top.toNat ≠ 0 := fun zero => nonzero (UInt8.toNat_inj.mp zero)
  rw [scriptNum_concat short nonzero digits]
  by_cases low : top < 0x80
  · have small : top.toNat < 128 := low
    rw [ofLeBytes_concat] at digits
    rw [if_pos low, setVch_concat, isMinimallyEncoded, List.getLast?_concat]
    by_cases negative : n < 0
    · have flagged := toNat_or_high low
      have high : ¬ top ||| 0x80 < 0x80 := by
        rw [UInt8.lt_iff_toNat_lt, flagged]
        exact not_lt.mpr (Nat.le_add_left _ _)
      simp only [negative, if_true, high, if_false, flagged, Nat.add_sub_cancel, ← digits, Bool.or_eq_true,
        bne_iff_ne, ne_eq, and_low_eq_zero_iff]
      omega
    · simp only [negative, if_false, low, if_true, ← digits, Bool.or_eq_true, bne_iff_ne, ne_eq, and_low_eq_zero_iff]
      omega
  · rw [if_neg low, setVch_concat, isMinimallyEncoded, List.getLast?_concat, List.dropLast_concat, List.getLast?_concat,
      ← digits]
    simp only [Option.any_some, bne_iff_ne, ne_eq, and_high_eq_zero_iff, low, not_false_eq_true, Bool.or_eq_true, or_true,
      and_true]
    by_cases negative : n < 0
    · rw [if_pos negative, if_neg (by decide), show UInt8.toNat 0x80 - 128 = 0 from rfl]
      omega
    · rw [if_neg negative, if_pos (by decide), show UInt8.toNat 0 = 0 from rfl]
      omega

theorem scriptNum_setVch {vch : Bytes} (short : vch.length ≤ 8) (minimal : isMinimallyEncoded vch = true) :
    scriptNum (setVch vch) = vch := by
  rcases List.eq_nil_or_concat' vch with rfl | ⟨init, last, rfl⟩
  · rfl
  rw [isMinimallyEncoded, List.getLast?_concat] at minimal
  simp only [List.dropLast_concat, Bool.or_eq_true, bne_iff_ne, ne_eq, and_low_eq_zero_iff] at minimal
  rw [List.length_append, List.length_singleton] at short
  have small := last.toNat_lt
  have value := setVch_concat init last
  generalize setVch (init ++ [last]) = n at value ⊢
  by_cases bare : last.toNat % 128 = 0
  · -- the last byte holds nothing but the sign
    obtain ⟨second, found, high⟩ := (Option.any_eq_true _ _).mp (minimal.resolve_left (not_not.mpr bare))
    rw [bne_iff_ne, ne_eq, and_high_eq_zero_iff] at high
    obtain ⟨front, rfl⟩ := List.getLast?_eq_some_iff.mp found
    have nonzero : second ≠ 0 := by
      rintro rfl
      exact high (by decide)
    have positive := @ofLeBytes_concat_pos front second nonzero
    rw [List.length_append, List.length_singleton] at short
    rcases show last.toNat = 0 ∨ last.toNat = 128 by omega with zero | sign
    · obtain rfl : last = 0 := UInt8.toNat_inj.mp zero
      rw [if_pos (by decide), zero, Nat.mul_zero] at value
      rw [@scriptNum_concat front second n (by omega) nonzero (by omega), if_neg high, if_neg (by omega)]
    · obtain rfl : last = 0x80 := UInt8.toNat_inj.mp sign
      rw [if_neg (by decide), sign, Nat.sub_self, Nat.mul_zero] at value
      rw [@scriptNum_concat front second n (by omega) nonzero (by omega), if_neg high, if_pos (by omega)]
  by_cases low : last < 0x80
  · have nonzero : last ≠ 0 := by
      rintro rfl
      exact bare rfl
    rw [if_pos low] at value
    rw [scriptNum_concat short nonzero (by rw [ofLeBytes_concat]; omega), if_pos low, if_neg (by omega)]
  · have high : 128 ≤ last.toNat := not_lt.mp low
    have digit : (last - 0x80).toNat = last.toNat - 128 := UInt8.toNat_sub_of_le _ _ (UInt8.not_lt.mp low)
    have nonzero : last - 0x80 ≠ 0 := by
      intro zero
      rw [zero] at digit
      change 0 = _ at digit
      omega
    have below : last - 0x80 < 0x80 := by
      rw [UInt8.lt_iff_toNat_lt, digit]
      change _ < 128
      omega
    have positive := @ofLeBytes_concat_pos init _ nonzero
    rw [if_neg low, ← digit, ← ofLeBytes_concat] at value
    rw [scriptNum_concat short nonzero (by omega), if_pos below, if_pos (by omega)]
    refine congrArg (init ++ [·]) (UInt8.toNat_inj.mp ?_)
    rw [toNat_or_high below, digit]
    omega

end Numbers

/-! ## Reading back what was pushed -/

inductive ScriptItem where
  | op (opcode : UInt8)
  | data (bytes : Bytes)
deriving DecidableEq

namespace ScriptItem

/-- Opcodes that `GetScriptOp` reads without an operand, and data whose size is a `uint32_t`. -/
def Fits : ScriptItem → Prop
  | op opcode => OP_PUSHDATA4 < opcode
  | data bytes => bytes.length < 2 ^ 32

def ofOp (opcode : UInt8) (data : Bytes) : ScriptItem :=
  if opcode ≤ OP_PUSHDATA4 then .data data else .op opcode

end ScriptItem

/-- The `<<` operators. -/
def append (script : CScript) : ScriptItem → CScript
  | .op opcode => pushOp script opcode
  | .data bytes => pushData script bytes

/-- `GetScriptOp` until the end of the script. -/
def readItems : Nat → CScript → Option (List ScriptItem)
  | _, [] => some []
  | 0, _ => none
  | turns + 1, script =>
    (getOp script).bind fun (opcode, data, rest) => (readItems turns rest).map (.ofOp opcode data :: ·)

def pushOpcode (size : Nat) : UInt8 :=
  if size < OP_PUSHDATA1.toNat then UInt8.ofNat size
  else if size ≤ 0xff then OP_PUSHDATA1
  else if size ≤ 0xffff then OP_PUSHDATA2
  else OP_PUSHDATA4

section Items

variable {size : Nat}

theorem toNat_pushOpcode (small : size < OP_PUSHDATA1.toNat) : (pushOpcode size).toNat = size := by
  rw [pushOpcode, if_pos small]
  exact UInt8.toNat_ofNat_of_lt' (small.trans (by decide))

theorem pushOpcode_spec (fits : size < 2 ^ 32) : pushOpcode size ≤ OP_PUSHDATA4 ∧
    (pushOpcode size < OP_PUSHDATA1 ↔ size < OP_PUSHDATA1.toNat) ∧
    (¬ size < OP_PUSHDATA1.toNat → size < 256 ^ sizeWidth (pushOpcode size)) ∧
    appendDataSize [] size = pushOpcode size :: leBytes (sizeWidth (pushOpcode size)) size := by
  by_cases small : size < OP_PUSHDATA1.toNat
  · have number := toNat_pushOpcode small
    have direct : pushOpcode size < OP_PUSHDATA1 := by
      rwa [UInt8.lt_iff_toNat_lt, number]
    refine ⟨?_, iff_of_true direct small, fun large => absurd small large, ?_⟩
    · exact UInt8.le_of_lt (UInt8.lt_trans direct (by decide))
    · rw [appendDataSize, if_pos small, sizeWidth, if_pos direct, pushOpcode, if_pos small]
      rfl
  · unfold pushOpcode appendDataSize
    simp only [if_neg small]
    split
    next byte => exact ⟨by decide, iff_of_false (by decide) small, fun _ => Nat.lt_succ_of_le byte, rfl⟩
    split
    next word => exact ⟨by decide, iff_of_false (by decide) small, fun _ => Nat.lt_succ_of_le word, rfl⟩
    · exact ⟨by decide, iff_of_false (by decide) small, fun _ => fits, rfl⟩

theorem getOp_pushData {data : Bytes} (fits : data.length < 2 ^ 32) (rest : CScript) :
    getOp (pushData [] data ++ rest) = some (pushOpcode data.length, data, rest) := by
  obtain ⟨push, direct, below, written⟩ := pushOpcode_spec fits
  have width := leBytes_length (sizeWidth (pushOpcode data.length)) data.length
  have read : pushSize (pushOpcode data.length)
      (leBytes (sizeWidth (pushOpcode data.length)) data.length ++ (data ++ rest)) = data.length := by
    rw [pushSize]
    split
    next small => exact toNat_pushOpcode (direct.mp small)
    next large => rw [List.take_left' width, ofLeBytes_leBytes_of_lt (below (direct.not.mp large))]
  rw [pushData, written, List.append_assoc, List.cons_append, getOp, if_pos push]
  simp only [read, List.drop_left' width, List.take_left, List.drop_left, List.length_append, width]
  rw [if_neg (by omega)]

theorem append_eq (script : CScript) (item : ScriptItem) : append script item = script ++ append [] item := by
  cases item with
  | op opcode => rfl
  | data bytes =>
    simp only [append, pushData, appendDataSize]
    split_ifs <;> simp

theorem getOp_append {item : ScriptItem} (fits : item.Fits) (rest : CScript) :
    ∃ opcode data, getOp (append [] item ++ rest) = some (opcode, data, rest) ∧ ScriptItem.ofOp opcode data = item := by
  cases item with
  | op opcode => exact ⟨opcode, [], if_neg (UInt8.not_le.mpr fits), if_neg (UInt8.not_le.mpr fits)⟩
  | data bytes => exact ⟨_, _, getOp_pushData fits rest, if_pos (pushOpcode_spec fits).1⟩

theorem foldl_append (script : CScript) (items : List ScriptItem) :
    items.foldl append script = script ++ items.flatMap (append []) := by
  induction items generalizing script with
  | nil => exact (List.append_nil script).symm
  | cons item items ih => rw [List.foldl_cons, ih, append_eq, List.flatMap_cons, List.append_assoc]

theorem readItems_flatMap {items : List ScriptItem} (fits : ∀ item ∈ items, item.Fits) {turns : Nat}
    (enough : (items.flatMap (append [])).length ≤ turns) :
    readItems turns (items.flatMap (append [])) = some items := by
  induction items generalizing turns with
  | nil => cases turns <;> rfl
  | cons item items ih =>
    obtain ⟨here, later⟩ := List.forall_mem_cons.mp fits
    obtain ⟨opcode, data, read, same⟩ := getOp_append here (items.flatMap (append []))
    rw [← List.flatMap_cons] at read
    have shorter := getOp_length read
    obtain ⟨fewer, rfl⟩ := Nat.exists_eq_add_of_lt (shorter.trans_le enough)
    rw [readItems, read, Option.bind_some]
    · dsimp only
      rw [ih later (Nat.le_add_right _ _), Option.map_some, same]
    · intro empty
      rw [empty] at read
      cases read

end Items

/-! ## Minimal pushes -/

/-- For opcodes up to `OP_PUSHDATA4`, as the source asserts. -/
def checkMinimalPush (data : Bytes) (opcode : UInt8) : Bool :=
  if data.length = 0 then opcode == OP_0
  else if data.length = 1 ∧ 1 ≤ data.headD 0 ∧ data.headD 0 ≤ 16 then false
  else if data.length = 1 ∧ data.headD 0 = 0x81 then false
  else if data.length ≤ 75 then opcode.toNat == data.length
  else if data.length ≤ 255 then opcode == OP_PUSHDATA1
  else if data.length ≤ 65535 then opcode == OP_PUSHDATA2
  else true

/-- An opcode that some script reads the data with. -/
def Pushes (opcode : UInt8) (data : Bytes) : Prop :=
  opcode ≤ OP_PUSHDATA4 ∧ ∃ operand, getOp (opcode :: operand) = some (opcode, data, [])

/-- What `OP_1` to `OP_16` and `OP_1NEGATE` push. -/
def HasOwnOpcode (data : Bytes) : Prop :=
  data.length = 1 ∧ (1 ≤ data.headD 0 ∧ data.headD 0 ≤ 16 ∨ data.headD 0 = 0x81)

theorem checkMinimalPush_iff {data : Bytes} (short : data.length ≤ 65535) (opcode : UInt8) :
    checkMinimalPush data opcode = true ↔ ¬ HasOwnOpcode data ∧ opcode = pushOpcode data.length := by
  unfold checkMinimalPush
  split_ifs with empty small negative direct byte
  · rw [empty, beq_iff_eq]
    exact (and_iff_right fun own : HasOwnOpcode data => absurd (empty.symm.trans own.1) (by decide)).symm
  · exact iff_of_false id fun other => other.1 ⟨small.1, .inl small.2⟩
  · exact iff_of_false id fun other => other.1 ⟨negative.1, .inr negative.2⟩
  all_goals
    have other : ¬ HasOwnOpcode data := fun own =>
      own.2.elim (fun range => small ⟨own.1, range⟩) fun same => negative ⟨own.1, same⟩
    rw [and_iff_right other, beq_iff_eq]
  · rw [← UInt8.toNat_inj, toNat_pushOpcode (Nat.lt_succ_of_le direct)]
  all_goals
    have far : ¬ data.length < OP_PUSHDATA1.toNat := fun less => direct (Nat.le_of_lt_succ less)
    rw [pushOpcode, if_neg far]
  · rw [if_pos byte]
  · rw [if_neg byte, if_pos short]

/-- Numbers and scripts are read as they were written, and a push has one minimal form, but for the
bytes that have opcodes of their own. -/
theorem script_encodings_unique :
    (∀ n : Int, -2 ^ 63 < n → n < 2 ^ 63 → setVch (scriptNum n) = n) ∧
    (∀ vch : Bytes, vch.length ≤ 8 → (isMinimallyEncoded vch = true ↔ scriptNum (setVch vch) = vch)) ∧
    (∀ items : List ScriptItem, (∀ item ∈ items, item.Fits) →
      readItems (items.foldl append []).length (items.foldl append []) = some items) ∧
    ∀ data : Bytes, data.length ≤ 65535 →
      ((∃! opcode, Pushes opcode data ∧ checkMinimalPush data opcode = true) ↔ ¬ HasOwnOpcode data) := by
  refine ⟨fun n low high => (scriptNum_spec (by omega)).1, fun vch short => ⟨scriptNum_setVch short, fun same => ?_⟩,
    fun items fits => ?_, fun data short => ?_⟩
  · rw [← same]
    have bound := (natAbs_setVch_le vch).trans_lt (ofLeBytes_lt vch)
    exact (scriptNum_spec (bound.trans_le (Nat.pow_le_pow_right (by decide) short))).2
  · rw [foldl_append, List.nil_append]
    exact readItems_flatMap fits le_rfl
  · simp only [checkMinimalPush_iff short]
    constructor
    · rintro ⟨_, ⟨_, other, _⟩, _⟩
      exact other
    · intro other
      refine ⟨pushOpcode data.length, ⟨?_, other, rfl⟩, fun _ pushed => pushed.2.2⟩
      have fits : data.length < 2 ^ 32 := by omega
      have read := getOp_pushData fits []
      rw [List.append_nil, pushData, (pushOpcode_spec fits).2.2.2] at read
      exact ⟨(pushOpcode_spec fits).1, _, read⟩

theorem no_minimal_push_of_five : ¬ ∃ opcode, Pushes opcode [5] ∧ checkMinimalPush [5] opcode = true := by
  rintro ⟨opcode, _, minimal⟩
  cases minimal

end CScript

end Sharecoin
