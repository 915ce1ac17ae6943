import Sharecoin.Pow.Lwma

/-! The number compact bits stand for. `SetCompact` reads it modulo `2 ^ 256` and flags what it
drops, so the bits `DeriveTarget` accepts are those whose number is positive and within the limit.
`GetCompact` rounds down to the leading bytes and never sets the sign. -/

set_option autoImplicit false

namespace Sharecoin

open Lib

/-- Three bytes of mantissa, without the sign bit, scaled by the size byte. -/
def compactNumber (nBits : UInt32) : Nat :=
  nBits.toNat % 2 ^ 23 * 256 ^ (nBits.toNat / 2 ^ 24) / 256 ^ 3

def compactSign (nBits : UInt32) : Bool := nBits.toNat.testBit 23

/-! ## Reading compact bits -/

section Read

variable (nBits : UInt32)

theorem compactNumber_of_short (short : nBits.toNat / 2 ^ 24 ≤ 3) :
    compactNumber nBits = (nBits.toNat % 2 ^ 23) >>> (8 * (3 - nBits.toNat / 2 ^ 24)) := by
  rw [compactNumber, ← Nat.pow_sub_mul_pow 256 short, Nat.mul_div_mul_right _ _ (Nat.pow_pos (by decide)),
    Nat.shiftRight_eq_div_pow, Nat.pow_mul]

theorem compactNumber_of_long (long : 3 < nBits.toNat / 2 ^ 24) :
    compactNumber nBits = nBits.toNat % 2 ^ 23 * 256 ^ (nBits.toNat / 2 ^ 24 - 3) := by
  rw [compactNumber, ← Nat.pow_sub_mul_pow 256 long.le, ← Nat.mul_assoc, Nat.mul_div_cancel _ (by decide)]

theorem compactNumber_lt_of_short (short : nBits.toNat / 2 ^ 24 ≤ 3) : compactNumber nBits < 2 ^ 23 := by
  rw [compactNumber_of_short nBits short, Nat.shiftRight_eq_div_pow]
  exact (Nat.div_le_self _ _).trans_lt (Nat.mod_lt _ (by decide))

/-- What compact bits without a sign can stand for. -/
def CompactForm (value : Nat) : Prop := ∃ mantissa exponent, mantissa < 2 ^ 23 ∧ value = mantissa * 256 ^ exponent

theorem compactForm_compactNumber : CompactForm (compactNumber nBits) := by
  rcases Nat.lt_or_ge 3 (nBits.toNat / 2 ^ 24) with long | short
  · exact ⟨_, _, Nat.mod_lt _ (by decide), compactNumber_of_long nBits long⟩
  · exact ⟨_, 0, compactNumber_lt_of_short nBits short, (Nat.mul_one _).symm⟩

theorem overflows_iff {word size : Nat} (narrow : word < 2 ^ 23) :
    (word != 0 && (decide (size > 34) || (decide (word > 0xff) && decide (size > 33)) ||
      (decide (word > 0xffff) && decide (size > 32)))) = true ↔ 3 < size ∧ 2 ^ 256 ≤ word * 256 ^ (size - 3) := by
  simp only [Bool.and_eq_true, Bool.or_eq_true, bne_iff_ne, decide_eq_true_eq]
  rcases Nat.lt_or_ge size 33 with low | high
  · have scale : 256 ^ (size - 3) ≤ 256 ^ 29 := Nat.pow_le_pow_right (by decide) (by omega)
    have bounded := Nat.mul_le_mul narrow.le scale
    refine iff_of_false (by omega) fun ⟨_, large⟩ => ?_
    exact absurd (large.trans bounded) (by decide)
  obtain ⟨more, rfl⟩ := Nat.exists_eq_add_of_le high
  rw [show 33 + more - 3 = 30 + more by omega, Nat.pow_add]
  match more with
  | 0 => omega
  | 1 => omega
  | more + 2 =>
    have positive : 0 < 256 ^ more := Nat.pow_pos (by decide)
    rw [Nat.pow_add, show word * (256 ^ 30 * (256 ^ more * 256 ^ 2)) = word * 256 ^ more * 2 ^ 256 by ring]
    constructor
    · intro flagged
      have atLeast : 1 ≤ word * 256 ^ more := Nat.mul_pos (Nat.pos_of_ne_zero flagged.1) positive
      exact ⟨by omega, by omega⟩
    rintro ⟨_, large⟩
    refine ⟨?_, by omega⟩
    rintro rfl
    omega

theorem setCompact_spec : (setCompact nBits).value = BitVec.ofNat 256 (compactNumber nBits) ∧
      ((setCompact nBits).fOverflow = true ↔ 2 ^ 256 ≤ compactNumber nBits) ∧
      ((setCompact nBits).fNegative = true ↔ compactNumber nBits ≠ 0 ∧ compactSign nBits = true) := by
  have size : (nBits >>> 24).toNat = nBits.toNat / 2 ^ 24 := by
    rw [UInt32.toNat_shiftRight, Nat.shiftRight_eq_div_pow]
    rfl
  have word : (nBits &&& 0x007fffff).toNat = nBits.toNat % 2 ^ 23 := by
    rw [UInt32.toNat_and]
    exact Nat.and_two_pow_sub_one_eq_mod nBits.toNat 23
  have sign : (nBits &&& 0x00800000) != 0 ↔ compactSign nBits = true := by
    rw [bne_iff_ne, ne_eq, ← UInt32.toNat_inj, UInt32.toNat_and, compactSign]
    change ¬ (nBits.toNat &&& 2 ^ 23) = 0 ↔ _
    rw [Nat.and_two_pow]
    cases nBits.toNat.testBit 23 <;> simp
  have narrow : nBits.toNat % 2 ^ 23 < 2 ^ 23 := Nat.mod_lt _ (by decide)
  by_cases short : nBits.toNat / 2 ^ 24 ≤ 3
  · have small := compactNumber_lt_of_short nBits short
    simp only [setCompact, size, word, if_pos short, ← compactNumber_of_short nBits short, overflows_iff small,
      Bool.and_eq_true, sign, bne_iff_ne]
    exact ⟨trivial, iff_of_false (by omega) (by omega), trivial⟩
  · have number := compactNumber_of_long nBits (by omega)
    have scale : 0 < 256 ^ (nBits.toNat / 2 ^ 24 - 3) := Nat.pow_pos (by decide)
    simp only [setCompact, size, word, if_neg short, overflows_iff narrow, Bool.and_eq_true, sign, bne_iff_ne, number]
    refine ⟨?_, ⟨fun both => both.2, fun large => ⟨by omega, large⟩⟩, ?_⟩
    · apply BitVec.eq_of_toNat_eq
      rw [BitVec.toNat_shiftLeft, BitVec.toNat_ofNat, BitVec.toNat_ofNat, Nat.shiftLeft_eq,
        Nat.mod_mul_mod, Nat.pow_mul]
    · rw [Nat.mul_ne_zero_iff]
      simp only [scale.ne', ne_eq, not_false_eq_true, and_true]

theorem toNat_setCompact (fits : compactNumber nBits < 2 ^ 256) :
    (setCompact nBits).value.toNat = compactNumber nBits := by
  rw [(setCompact_spec nBits).1, BitVec.toNat_ofNat, Nat.mod_eq_of_lt fits]

end Read

section Derive

variable {nBits : UInt32} {powLimit : Uint256} {target : ArithUint256}

theorem toNat_uintToArith256 (blob : Uint256) : (uintToArith256 blob).toNat = blob.toNat := by
  have fits := ofLeBytes_lt blob.data
  rw [blob.size_eq] at fits
  exact BitVec.toNat_ofNat _ _ ▸ Nat.mod_eq_of_lt fits

theorem deriveTarget_eq_some_iff :
    deriveTarget nBits powLimit = some target ↔ compactSign nBits = false ∧ 0 < compactNumber nBits ∧
      compactNumber nBits ≤ powLimit.toNat ∧ target.toNat = compactNumber nBits := by
  obtain ⟨_, overflow, negative⟩ := setCompact_spec nBits
  have limit : powLimit.toNat < 2 ^ 256 := toNat_uintToArith256 powLimit ▸ (uintToArith256 powLimit).isLt
  have kept : ((setCompact nBits).fNegative || (setCompact nBits).value == 0 || (setCompact nBits).fOverflow ||
      decide ((setCompact nBits).value > uintToArith256 powLimit)) = true ↔
        ¬ (compactSign nBits = false ∧ 0 < compactNumber nBits ∧ compactNumber nBits ≤ powLimit.toNat) := by
    simp only [Bool.or_eq_true, negative, overflow, beq_iff_eq, decide_eq_true_eq, gt_iff_lt,
      BitVec.lt_def, toNat_uintToArith256, ← BitVec.toNat_inj]
    by_cases fits : compactNumber nBits < 2 ^ 256
    · rw [toNat_setCompact nBits fits]
      cases compactSign nBits <;> simp <;> omega
    · refine iff_of_true (.inl (.inr (by omega))) (by omega)
  rw [deriveTarget]
  by_cases accepted : compactSign nBits = false ∧ 0 < compactNumber nBits ∧ compactNumber nBits ≤ powLimit.toNat
  · rw [if_neg (kept.not.mpr (not_not.mpr accepted)), Option.some_inj, ← BitVec.toNat_inj, toNat_setCompact nBits (by omega)]
    simp only [accepted, true_and, eq_comm]
  · rw [if_pos (kept.mpr accepted)]
    refine iff_of_false (by simp) fun derived => ?_
    exact accepted ⟨derived.1, derived.2.1, derived.2.2.1⟩

end Derive

/-! ## Writing compact bits -/

theorem compactWord_eq (number : ArithUint256) :
    compactWord number = number.toNat * 256 ^ 3 / 256 ^ compactSize number := by
  unfold compactWord
  split
  next short =>
    rw [← Nat.pow_sub_mul_pow 256 short, ← Nat.mul_assoc, Nat.mul_div_cancel _ (Nat.pow_pos (by decide)),
      Nat.shiftLeft_eq, Nat.pow_mul]
  next long =>
    rw [← Nat.pow_sub_mul_pow 256 (show 3 ≤ compactSize number by omega), Nat.mul_div_mul_right _ _ (by decide),
      Nat.shiftRight_eq_div_pow, Nat.pow_mul]

theorem le_compactWord {number : ArithUint256} (positive : 0 < number.toNat) : 256 ^ 2 ≤ compactWord number := by
  have counted : bits number = Nat.log2 number.toNat + 1 := by rw [bits, if_neg positive.ne']
  have sized : 0 < compactSize number := by
    unfold compactSize
    omega
  have leading : 256 ^ (compactSize number - 1) ≤ number.toNat := by
    change (2 ^ 8) ^ (compactSize number - 1) ≤ _
    rw [← Nat.pow_mul]
    refine (Nat.pow_le_pow_right (by decide) ?_).trans (Nat.log2_self_le positive.ne')
    unfold compactSize
    omega
  rw [compactWord_eq, Nat.le_div_iff_mul_le (Nat.pow_pos (by decide))]
  calc 256 ^ 2 * 256 ^ compactSize number = 256 ^ (compactSize number - 1) * 256 ^ 3 := by
        rw [← Nat.pow_add, ← Nat.pow_add]
        congr 1
        omega
    _ ≤ number.toNat * 256 ^ 3 := Nat.mul_le_mul_right _ leading

section

variable (number : ArithUint256)

include number

/-- Whether or not the sign is in the way, the word is the number scaled down to the stored size,
and what it stands for is the number without its low bytes. -/
theorem getCompact_spec : ∃ size word : Nat, word < 2 ^ 23 ∧
    (getCompact number).toNat = size * 2 ^ 24 + word ∧ (0 < number.toNat → 2 ^ 15 ≤ word) ∧
    compactNumber (getCompact number) * 256 ^ 3 = word * 256 ^ size ∧
    compactNumber (getCompact number) = number.toNat / 256 ^ (size - 3) * 256 ^ (size - 3) := by
  obtain ⟨size, word, unsigned, stored, leading, scaled⟩ : ∃ size word : Nat, word < 2 ^ 23 ∧
      (getCompact number).toNat = size * 2 ^ 24 + word ∧ (0 < number.toNat → 2 ^ 15 ≤ word) ∧
      word = number.toNat * 256 ^ 3 / 256 ^ size := by
    have narrow := compactWord_lt number
    have exact := compactWord_eq number
    rcases toNat_getCompact number with ⟨small, plain⟩ | ⟨large, moved⟩
    · refine ⟨_, _, small, plain, fun positive => ?_, exact⟩
      have leading := le_compactWord positive
      omega
    · refine ⟨_, _, by omega, moved, by omega, ?_⟩
      rw [exact, Nat.div_div_eq_div_mul, ← Nat.pow_succ]
  have read : compactNumber (getCompact number) = word * 256 ^ size / 256 ^ 3 := by
    rw [compactNumber, stored]
    congr 3 <;> omega
  refine ⟨size, word, unsigned, stored, leading, ?_⟩
  rcases Nat.le_total size 3 with short | long
  · have whole : word * 256 ^ size = number.toNat * 256 ^ 3 := by
      rw [scaled]
      exact Nat.div_mul_cancel (Dvd.dvd.mul_left (Nat.pow_dvd_pow 256 short) _)
    rw [read, whole, Nat.mul_div_cancel _ (by decide), Nat.sub_eq_zero_of_le short]
    exact ⟨rfl, by simp⟩
  · obtain ⟨more, rfl⟩ := Nat.exists_eq_add_of_le long
    rw [Nat.pow_add, Nat.mul_comm (256 ^ 3), ← Nat.mul_assoc] at read ⊢
    rw [Nat.pow_add, Nat.mul_comm (256 ^ 3), Nat.mul_div_mul_right _ _ (by decide)] at scaled
    rw [read, Nat.mul_div_cancel _ (by decide), Nat.add_sub_cancel_left, ← scaled]
    exact ⟨rfl, rfl⟩

/-- The bits of a number lose its low bytes, but never its leading one. -/
theorem compactNumber_getCompact : compactSign (getCompact number) = false ∧
      compactNumber (getCompact number) ≤ number.toNat ∧
      (0 < number.toNat → 0 < compactNumber (getCompact number)) := by
  obtain ⟨size, word, unsigned, stored, leading, scaled, rounded⟩ := getCompact_spec number
  refine ⟨?_, rounded ▸ Nat.div_mul_le_self _ _, fun positive => ?_⟩
  · rw [compactSign, stored, Nat.testBit_eq_decide_div_mod_eq, decide_eq_false_iff_not]
    omega
  · have large := leading positive
    have kept : 0 < word * 256 ^ size := Nat.mul_pos (by omega) (Nat.pow_pos (by decide))
    omega

/-! ## Rounding -/

theorem isGreatest_compactNumber :
    IsGreatest { value | CompactForm value ∧ value ≤ number.toNat } (compactNumber (getCompact number)) := by
  obtain ⟨size, word, _, _, leading, exact, rounded⟩ := getCompact_spec number
  refine ⟨⟨compactForm_compactNumber _, (compactNumber_getCompact number).2.1⟩, ?_⟩
  rintro value ⟨⟨mantissa, exponent, small, rfl⟩, below⟩
  rcases Nat.eq_zero_or_pos number.toNat with zero | positive
  · exact (zero ▸ below).trans (Nat.zero_le _)
  -- More zero bytes than the bits have lose more, and with fewer the mantissa is too small.
  rcases Nat.lt_or_ge exponent (size - 3) with less | more
  · refine Nat.le_of_mul_le_mul_right ?_ (show 0 < 256 ^ 3 by decide)
    calc mantissa * 256 ^ exponent * 256 ^ 3 ≤ 2 ^ 23 * 256 ^ exponent * 256 ^ 3 :=
          Nat.mul_le_mul_right _ (Nat.mul_le_mul_right _ small.le)
      _ = 2 ^ 15 * 256 ^ (exponent + 4) := by ring
      _ ≤ word * 256 ^ size := Nat.mul_le_mul (leading positive) (Nat.pow_le_pow_right (by decide) (by omega))
      _ = _ := exact.symm
  · obtain ⟨rest, same⟩ : 256 ^ (size - 3) ∣ mantissa * 256 ^ exponent := Dvd.dvd.mul_left (Nat.pow_dvd_pow 256 more) _
    rw [same, Nat.mul_comm] at below ⊢
    rw [rounded]
    exact Nat.mul_le_mul_right _ ((Nat.le_div_iff_mul_le (Nat.pow_pos (by decide))).mpr below)

theorem toNat_setCompact_getCompact :
    (setCompact (getCompact number)).fNegative = false ∧ (setCompact (getCompact number)).fOverflow = false ∧
      (setCompact (getCompact number)).value.toNat = compactNumber (getCompact number) := by
  obtain ⟨_, overflow, negative⟩ := setCompact_spec (getCompact number)
  obtain ⟨unsigned, rounded, _⟩ := compactNumber_getCompact number
  have fits := rounded.trans_lt number.isLt
  refine ⟨Bool.eq_false_iff.mpr fun flagged => ?_, Bool.eq_false_iff.mpr fun flagged => ?_,
    toNat_setCompact _ fits⟩
  · cases unsigned.symm.trans (negative.mp flagged).2
  · exact absurd (overflow.mp flagged) (not_le.mpr fits)

end

/-- The size is as small as the mantissa allows. -/
private theorem size_le_of_eq {word other size otherSize : Nat} (low : 2 ^ 15 ≤ word) (high : other < 2 ^ 23)
    (same : word * 256 ^ size = other * 256 ^ otherSize) : size ≤ otherSize := by
  by_contra larger
  have scale : 256 ^ (otherSize + 1) ≤ 256 ^ size := Nat.pow_le_pow_right (by decide) (by omega)
  have large := Nat.mul_le_mul low scale
  have small := Nat.mul_lt_mul_of_pos_right high (show 0 < 256 ^ otherSize from Nat.pow_pos (by decide))
  rw [Nat.pow_succ] at large
  omega

theorem getCompact_setCompact (number : ArithUint256) :
    getCompact (setCompact (getCompact number)).value = getCompact number := by
  obtain ⟨_, _, value⟩ := toNat_setCompact_getCompact number
  generalize (setCompact (getCompact number)).value = rounded at value
  have same : compactNumber (getCompact rounded) = compactNumber (getCompact number) :=
    (isGreatest_compactNumber rounded).unique ⟨⟨value ▸ (isGreatest_compactNumber number).1.1, value.ge⟩,
      fun other form => value ▸ form.2⟩
  rcases Nat.eq_zero_or_pos number.toNat with zero | positive
  · have nothing := (compactNumber_getCompact number).2.1
    rw [BitVec.eq_of_toNat_eq (show rounded.toNat = number.toNat by omega)]
  have kept := (compactNumber_getCompact number).2.2 positive
  obtain ⟨size, word, small, stored, leading, exact, _⟩ := getCompact_spec number
  obtain ⟨again, other, otherSmall, otherStored, otherLeading, otherExact, _⟩ := getCompact_spec rounded
  rw [same, exact] at otherExact
  have sizes : size = again := le_antisymm (size_le_of_eq (leading positive) otherSmall otherExact)
    (size_le_of_eq (otherLeading (value ▸ kept)) small otherExact.symm)
  subst sizes
  have words := Nat.eq_of_mul_eq_mul_right (Nat.pow_pos (by decide)) otherExact
  rw [← UInt32.toNat_inj, stored, otherStored, words]

/-! ## Work -/

/-- Bits that stand for a target. -/
def ValidTarget (nBits : UInt32) : Prop :=
  (setCompact nBits).fNegative = false ∧ (setCompact nBits).fOverflow = false ∧ (setCompact nBits).value ≠ 0

theorem toNat_getBitsProof {nBits : UInt32} (valid : ValidTarget nBits) :
    (getBitsProof nBits).toNat = 2 ^ 256 / ((setCompact nBits).value.toNat + 1) := by
  obtain ⟨unsigned, bounded, nonzero⟩ := valid
  have fits : compactNumber nBits < 2 ^ 256 := by
    by_contra large
    cases bounded.symm.trans ((setCompact_spec nBits).2.1.mpr (not_lt.mp large))
  have number := toNat_setCompact nBits fits
  -- The greatest number of all ends in ones, which bits do not express.
  have other : compactNumber nBits + 1 < 2 ^ 256 := by
    obtain ⟨mantissa, exponent, small, form⟩ := compactForm_compactNumber nBits
    cases exponent with
    | zero => omega
    | succ exponent =>
      rw [Nat.pow_succ, ← Nat.mul_assoc] at form
      omega
  have positive : 0 < (setCompact nBits).value.toNat :=
    Nat.pos_of_ne_zero fun zero => nonzero (BitVec.eq_of_toNat_eq zero)
  rw [← number] at other
  unfold getBitsProof
  simp only [unsigned, bounded, beq_eq_false_iff_ne.mpr nonzero, Bool.or_false, Bool.false_eq_true, if_false]
  generalize (setCompact nBits).value = target at positive other ⊢
  have next : (target + 1).toNat = target.toNat + 1 := by
    rw [BitVec.toNat_add]
    exact Nat.mod_eq_of_lt other
  have sum : 2 ^ 256 - 1 - target.toNat + (target.toNat + 1) = 2 ^ 256 := by omega
  have quotient : (2 ^ 256 - 1 - target.toNat) / (target.toNat + 1) + 1 = 2 ^ 256 / (target.toNat + 1) := by
    rw [← Nat.add_div_right _ (Nat.succ_pos _), Nat.succ_eq_add_one, sum]
  rw [BitVec.toNat_add, BitVec.toNat_udiv, BitVec.toNat_not, next]
  refine (congrArg (· % 2 ^ 256) quotient).trans (Nat.mod_eq_of_lt ?_)
  exact (Nat.div_le_div_left (show 2 ≤ target.toNat + 1 by omega) (by decide)).trans_lt (by decide)

/-- Compact bits round down to the greatest number they can express, and the work of a target is
the number of hashes it takes on average. -/
theorem compact_targets_exact :
    (∀ number : ArithUint256, (setCompact (getCompact number)).fNegative = false ∧
      (setCompact (getCompact number)).fOverflow = false ∧
      IsGreatest { value | CompactForm value ∧ value ≤ number.toNat } (setCompact (getCompact number)).value.toNat ∧
      (∃ low, (setCompact (getCompact number)).value.toNat = number.toNat / 256 ^ low * 256 ^ low) ∧
      getCompact (setCompact (getCompact number)).value = getCompact number) ∧
    (∀ number other : ArithUint256, number ≤ other →
      (setCompact (getCompact number)).value ≤ (setCompact (getCompact other)).value) ∧
    (∀ nBits, (setCompact nBits).fOverflow = true ↔ 2 ^ 256 ≤ compactNumber nBits) ∧
    (∀ nBits, ValidTarget nBits → (getBitsProof nBits).toNat = 2 ^ 256 / ((setCompact nBits).value.toNat + 1)) ∧
    ∀ nBits others, ValidTarget nBits → ValidTarget others →
      (setCompact nBits).value ≤ (setCompact others).value → getBitsProof others ≤ getBitsProof nBits := by
  refine ⟨fun number => ?_, fun number other below => ?_, fun nBits => (setCompact_spec nBits).2.1,
    fun nBits valid => toNat_getBitsProof valid, fun nBits others valid otherValid below => ?_⟩
  · obtain ⟨unsigned, bounded, value⟩ := toNat_setCompact_getCompact number
    obtain ⟨size, _, _, _, _, _, rounded⟩ := getCompact_spec number
    exact ⟨unsigned, bounded, value ▸ isGreatest_compactNumber number, ⟨size - 3, value.trans rounded⟩,
      getCompact_setCompact number⟩
  · have wider : { value | CompactForm value ∧ value ≤ number.toNat } ⊆
        { value | CompactForm value ∧ value ≤ other.toNat } := fun value form => ⟨form.1, form.2.trans below⟩
    rw [BitVec.le_def, (toNat_setCompact_getCompact number).2.2, (toNat_setCompact_getCompact other).2.2]
    exact (isGreatest_compactNumber number).mono (isGreatest_compactNumber other) wider
  · rw [BitVec.le_def, toNat_getBitsProof valid, toNat_getBitsProof otherValid]
    exact Nat.div_le_div_left (Nat.succ_le_succ below) (Nat.succ_pos _)

end Sharecoin
