import Sharecoin.Lib.Codec

/-! Base-128 integers, most significant group first. Every group but the last has
its top bit set and stands for one more than its digits say, so each number has
exactly one encoding. -/

set_option autoImplicit false

namespace Sharecoin.Lib

/-- Prepend the groups of `number` to the groups already produced. -/
def varIntGroups : Nat → Nat → Bytes → Bytes
  | 0, _, groups => groups
  | room + 1, number, groups =>
    let group := UInt8.ofNat (number % 128 + if groups.isEmpty then 0 else 128)
    if number ≤ 127 then group :: groups
    else varIntGroups room (number / 128 - 1) (group :: groups)

def writeVarInt (number : Nat) : Bytes := varIntGroups 10 number []

def readVarIntGroups (limit : Nat) : Bytes → Nat → Option (Nat × Bytes)
  | [], _ => none
  | group :: rest, number =>
    if number > limit / 128 then none
    else
      let number := number * 128 + group.toNat % 128
      if group.toNat ≥ 128 then
        if number = limit then none else readVarIntGroups limit rest (number + 1)
      else some (number, rest)

def readVarInt (limit : Nat) : Reader Nat := fun input => readVarIntGroups limit input 0

private theorem group_toNat (number flag : Nat) (small : flag ≤ 128) :
    (UInt8.ofNat (number % 128 + flag)).toNat = number % 128 + flag := by
  rw [UInt8.toNat_ofNat']
  omega

variable {limit : Nat} {number : Nat}

/-- A group below its quotient is read as the rest of the number. -/
private theorem read_group (fits : number ≤ limit) (flagged : Bool) (rest : Bytes) :
    readVarIntGroups limit (UInt8.ofNat (number % 128 + if flagged then 128 else 0) :: rest) (number / 128) =
      if flagged then if number = limit then none else readVarIntGroups limit rest (number + 1)
      else some (number, rest) := by
  have value := group_toNat number (if flagged then 128 else 0) (by split <;> decide)
  have quotient : ¬ number / 128 > limit / 128 := not_lt.mpr (Nat.div_le_div_right fits)
  have whole : number / 128 * 128 + (number % 128 + if flagged then 128 else 0) % 128 = number := by
    split <;> omega
  have top : number % 128 + (if flagged then 128 else 0) ≥ 128 ↔ flagged = true := by
    cases flagged <;> simp
    omega
  rw [readVarIntGroups, if_neg quotient, value]
  simp only [whole, top]

private theorem read_groups_before (number : Nat) :
    ∀ (room : Nat) (group : UInt8) (groups rest : Bytes), number < 128 ^ (room + 1) → number < limit →
      readVarIntGroups limit (varIntGroups (room + 1) number (group :: groups) ++ rest) 0 =
        readVarIntGroups limit (group :: groups ++ rest) (number + 1) := by
  induction number using Nat.strong_induction_on with
  | h number ih =>
    intro room group groups rest small fits
    have read := (read_group fits.le true (group :: groups ++ rest)).trans (if_neg fits.ne)
    rw [varIntGroups]
    by_cases single : number ≤ 127
    · have top : number / 128 = 0 := by omega
      rw [top] at read
      rw [if_pos single]
      exact read
    · cases room with
      | zero => omega
      | succ room =>
        have smaller : number / 128 - 1 < 128 ^ (room + 1) := by
          rw [pow_succ] at small
          omega
        have above : number / 128 - 1 + 1 = number / 128 := by omega
        rw [if_neg single, ih _ (by omega) _ _ _ _ smaller (by omega), above]
        exact read

theorem reads_readVarInt (small : number < 2 ^ 64) (fits : number ≤ limit) :
    Reads (readVarInt limit) (writeVarInt number) number := by
  intro rest
  change readVarIntGroups limit (varIntGroups 10 number [] ++ rest) 0 = _
  rw [varIntGroups]
  by_cases single : number ≤ 127
  · have top : number / 128 = 0 := by omega
    have read := read_group fits false rest
    rw [top] at read
    rw [if_pos single]
    exact read
  · have above : number / 128 - 1 + 1 = number / 128 := by omega
    rw [if_neg single, read_groups_before _ 8 _ _ _ (by omega) (by omega), above]
    exact read_group fits false rest

/-! ## Every number has one encoding -/

/-- Writing undoes what reading one group does. -/
private theorem varIntGroups_group (room number : Nat) {group : UInt8} {groups : Bytes}
    (flagged : 128 ≤ group.toNat ↔ groups ≠ []) :
    varIntGroups (room + 1) (number * 128 + group.toNat % 128) groups =
      if number = 0 then group :: groups else varIntGroups room (number - 1) (group :: groups) := by
  have byte := group.toNat_lt
  have low : (number * 128 + group.toNat % 128) % 128 + (if groups.isEmpty then 0 else 128) = group.toNat := by
    cases groups with
    | nil =>
      have unflagged : ¬ 128 ≤ group.toNat := fun large => flagged.mp large rfl
      simp only [List.isEmpty_nil, if_true]
      omega
    | cons first others =>
      have large := flagged.mpr (List.cons_ne_nil _ _)
      simp only [List.isEmpty_cons, Bool.false_eq_true, if_false]
      omega
  have high : (number * 128 + group.toNat % 128) / 128 = number := by omega
  have single : number * 128 + group.toNat % 128 ≤ 127 ↔ number = 0 := by omega
  simp only [varIntGroups, low, high, single, UInt8.ofNat_toNat]

private theorem varIntGroups_stable (extra : Nat) (number : Nat) : ∀ (room : Nat) (groups : Bytes),
    number < 128 ^ room → 0 < room → varIntGroups (room + extra) number groups = varIntGroups room number groups := by
  induction number using Nat.strong_induction_on with
  | h number ih =>
    intro room groups small roomy
    cases room with
    | zero => exact absurd roomy (lt_irrefl 0)
    | succ room =>
      rw [Nat.add_right_comm, varIntGroups, varIntGroups]
      by_cases single : number ≤ 127
      · simp only [if_pos single]
      · have smaller : number / 128 - 1 < 128 ^ room := by
          rw [pow_succ] at small
          omega
        have roomy : 0 < room := by
          cases room with
          | zero => omega
          | succ room => exact room.succ_pos
        simp only [if_neg single, ih _ (show number / 128 - 1 < number by omega) room _ smaller roomy]

/-- The groups read so far are the number, and those still ahead are written behind it. -/
private theorem groups_of_read (full : limit % 128 = 127) (input : Bytes) :
    ∀ {number result : Nat} {rest : Bytes}, readVarIntGroups limit input number = some (result, rest) →
      ∃ groups, input = groups ++ rest ∧ groups ≠ [] ∧ result ≤ limit ∧ ∀ room,
        varIntGroups (room + groups.length) result [] =
          if number = 0 then groups else varIntGroups room (number - 1) groups := by
  induction input with
  | nil =>
    intro number result rest read
    cases read
  | cons group input ih =>
    intro number result rest read
    unfold readVarIntGroups at read
    split at read
    · cases read
    · dsimp only at read
      split at read
      next within flagged =>
        split at read
        · cases read
        · obtain ⟨groups, whole, some, fits, written⟩ := ih read
          have step := fun room => varIntGroups_group room number (iff_of_true flagged some)
          refine ⟨group :: groups, congrArg (group :: ·) whole, List.cons_ne_nil _ _, fits, fun room => ?_⟩
          rw [List.length_cons, ← Nat.add_assoc, Nat.add_right_comm, written, if_neg (Nat.succ_ne_zero _)]
          exact step room
      next within unflagged =>
        cases read
        have step := fun room => varIntGroups_group room number (iff_of_false unflagged (not_not.mpr rfl))
        exact ⟨[group], rfl, List.cons_ne_nil _ _, by omega, step⟩

theorem readVarInt_eq_some {input rest : Bytes} (full : limit % 128 = 127)
    (bounded : limit < 128 ^ 10) (read : readVarInt limit input = some (number, rest)) :
    number ≤ limit ∧ input = writeVarInt number ++ rest := by
  obtain ⟨groups, whole, _, fits, written⟩ := groups_of_read full input read
  have stable := varIntGroups_stable groups.length number 10 [] (fits.trans_lt bounded) (by decide)
  rw [written, if_pos rfl] at stable
  rw [whole, writeVarInt, ← stable]
  exact ⟨fits, rfl⟩

end Sharecoin.Lib
