import Sharecoin.Lib.Codec
import Mathlib.Data.List.Induction
import Mathlib.Data.Nat.Bitwise

/-! The check of a signature's encoding. It reads attacker-supplied lengths and then bytes at offsets
computed from them; a read outside the signature is `none` here. What it accepts is strict DER. -/

set_option autoImplicit false

namespace Sharecoin

open Lib

/-- The checks `IsValidSignatureEncoding` makes on R, and later on S: the type, the length, the sign
and the padding. -/
def isValidInteger (sig : Bytes) (start len : Nat) : Option Bool := do
  let type ← sig[start]?
  if type ≠ 0x02 then some false
  else if len = 0 then some false
  else do
    let first ← sig[start + 2]?
    if first &&& 0x80 ≠ 0 then some false
    else if len > 1 ∧ first = 0x00 then do
      let second ← sig[start + 3]?
      some (second &&& 0x80 != 0)
    else some true

def isValidSignatureEncoding (sig : Bytes) : Option Bool :=
  if sig.length < 9 then some false
  else if sig.length > 73 then some false
  else do
    let compound ← sig[0]?
    let total ← sig[1]?
    if compound ≠ 0x30 then some false
    else if total.toNat ≠ sig.length - 3 then some false
    else do
      let lenR ← sig[3]?.map UInt8.toNat
      if 5 + lenR ≥ sig.length then some false
      else do
        let lenS ← sig[5 + lenR]?.map UInt8.toNat
        if lenR + lenS + 7 ≠ sig.length then some false
        else do
          let validR ← isValidInteger sig 2 lenR
          if !validR then some false else isValidInteger sig (lenR + 4) lenS

/-! ## Strict DER -/

/-- The number a string of bytes spells, big-endian and with the sign in its first bit. -/
def signedValue : Bytes → Int
  | [] => 0
  | first :: rest =>
    if first < 0x80 then ofBeBytes (first :: rest)
    else ofBeBytes (first :: rest) - 256 ^ (rest.length + 1)

/-- A non-negative number that no shorter string spells. -/
structure DerInteger (bytes : Bytes) : Prop where
  nonempty : bytes ≠ []
  nonneg : 0 ≤ signedValue bytes
  minimal : ∀ shorter, shorter ≠ [] → signedValue shorter = signedValue bytes → bytes.length ≤ shorter.length

/-- Two integers in a compound, and one byte for the hash type behind it. -/
structure StrictDer (sig : Bytes) : Prop where
  shape : ∃ (R S : Bytes) (hashType : UInt8), DerInteger R ∧ DerInteger S ∧ R.length < 256 ∧ S.length < 256 ∧
    sig = 0x30 :: UInt8.ofNat (sig.length - 3) :: 0x02 :: UInt8.ofNat R.length ::
      (R ++ 0x02 :: UInt8.ofNat S.length :: (S ++ [hashType]))
  atLeast : 9 ≤ sig.length
  atMost : sig.length ≤ 73

section Integer

variable {first : UInt8} {rest bytes : Bytes}

theorem ofBeBytes_cons : ofBeBytes (first :: rest) = ofBeBytes rest + 256 ^ rest.length * first.toNat := by
  simpa [ofBeBytes, ofLeBytes] using ofBeBytes_split 1 (first :: rest)

theorem and_high_eq_zero_iff (byte : UInt8) : byte &&& 0x80 = 0 ↔ byte < 0x80 := by
  have fits := byte.toNat_lt
  rw [← UInt8.toNat_inj, UInt8.toNat_and, UInt8.lt_iff_toNat_lt]
  change byte.toNat &&& 2 ^ 7 = 0 ↔ byte.toNat < 128
  rw [Nat.and_two_pow, Nat.toNat_testBit]
  omega

theorem signedValue_lt (some : bytes ≠ []) : signedValue bytes < 128 * 256 ^ (bytes.length - 1) := by
  cases bytes with
  | nil => exact absurd rfl some
  | cons first rest =>
    have small := ofBeBytes_lt rest
    have spelled := @ofBeBytes_cons first rest
    have byte := first.toNat_lt
    rw [signedValue, List.length_cons, Nat.add_sub_cancel]
    have scaled : ((256 : Int) ^ rest.length) = (256 ^ rest.length : Nat) := by push_cast; rfl
    rw [pow_succ, scaled]
    generalize 256 ^ rest.length = scale at small spelled ⊢
    split
    next low =>
      have bound : scale * first.toNat ≤ scale * 127 :=
        Nat.mul_le_mul_left scale (by have := UInt8.lt_iff_toNat_lt.mp low; change _ < 128 at this; omega)
      omega
    next =>
      have bound : scale * first.toNat ≤ scale * 255 := Nat.mul_le_mul_left scale (by omega)
      omega

/-- What the sign and the padding of the first bytes say about the whole integer. -/
theorem derInteger_iff :
    DerInteger (first :: rest) ↔ first < 0x80 ∧ (first = 0 → ∀ second ∈ rest.head?, ¬ second < 0x80) := by
  have spelled := @ofBeBytes_cons first rest
  have small := ofBeBytes_lt rest
  constructor
  · intro integer
    have low : first < 0x80 := by
      by_contra high
      have whole := ofBeBytes_lt (first :: rest)
      have negative := integer.nonneg
      rw [signedValue, if_neg high] at negative
      rw [List.length_cons] at whole
      have scaled : ((256 : Int) ^ (rest.length + 1)) = (256 ^ (rest.length + 1) : Nat) := by push_cast; rfl
      omega
    refine ⟨low, fun zero second starts padded => ?_⟩
    cases rest with
    | nil => cases starts
    | cons other more =>
      obtain rfl : other = second := Option.some_inj.mp starts
      have same : signedValue (other :: more) = signedValue (first :: other :: more) := by
        rw [signedValue, signedValue, if_pos padded, if_pos low, spelled, zero]
        simp
      have longer := integer.minimal _ (List.cons_ne_nil _ _) same
      simp only [List.length_cons] at longer
      omega
  · rintro ⟨low, unpadded⟩
    have value : signedValue (first :: rest) = ofBeBytes (first :: rest) := by rw [signedValue, if_pos low]
    refine ⟨List.cons_ne_nil _ _, by omega, fun shorter some same => ?_⟩
    by_contra short
    have below := signedValue_lt some
    have positive := List.length_pos_of_ne_nil some
    rw [List.length_cons] at short
    -- A shorter string stays below half the place of the second byte.
    have grows : 256 ^ (shorter.length - 1) ≤ 256 ^ (rest.length - 1) := Nat.pow_le_pow_right (by decide) (by omega)
    have bounded : ofBeBytes (first :: rest) < 128 * 256 ^ (rest.length - 1) := by
      have cast : ((128 * 256 ^ (shorter.length - 1) : Nat) : Int) = 128 * 256 ^ (shorter.length - 1) := by
        push_cast
        rfl
      omega
    cases rest with
    | nil =>
      rw [List.length_nil] at short
      omega
    | cons second more =>
      rw [spelled, List.length_cons, Nat.add_sub_cancel] at bounded
      by_cases zero : first = 0
      · have high := unpadded zero second rfl
        rw [UInt8.lt_iff_toNat_lt] at high
        change ¬ second.toNat < 128 at high
        have placed := Nat.mul_le_mul_left (256 ^ more.length) (Nat.le_of_not_lt high)
        rw [@ofBeBytes_cons second more] at bounded
        omega
      · have leading : 1 ≤ first.toNat := Nat.pos_of_ne_zero fun none => zero (UInt8.toNat_inj.mp none)
        have placed := Nat.mul_le_mul_left (256 ^ (more.length + 1)) leading
        rw [Nat.pow_succ] at bounded placed
        omega

theorem decides_guard {refused strict : Prop} [Decidable refused] {check : Option Bool} (loose : refused → ¬ strict)
    (checked : ¬ refused → ∃ valid, check = some valid ∧ (valid = true ↔ strict)) :
    ∃ valid, (if refused then some false else check) = some valid ∧ (valid = true ↔ strict) := by
  by_cases refuse : refused
  · exact ⟨false, if_pos refuse, iff_of_false Bool.false_ne_true (loose refuse)⟩
  · rw [if_neg refuse]
    exact checked refuse

/-- The check at an offset decides whether an integer starts there, and stays inside it. -/
theorem isValidInteger_eq (front content after : Bytes) (type size : UInt8) :
    ∃ valid, isValidInteger (front ++ type :: size :: (content ++ after)) front.length content.length =
        some valid ∧ (valid = true ↔ type = 0x02 ∧ DerInteger content) := by
  have typed : (front ++ type :: size :: (content ++ after))[front.length]? = some type := by simp
  rw [isValidInteger, typed]
  simp only [bind, Option.bind_some]
  refine decides_guard (fun other der => other der.1) fun integer => ?_
  refine decides_guard (fun empty der => der.2.nonempty (List.length_eq_zero_iff.mp empty)) fun some => ?_
  obtain ⟨first, rest, rfl⟩ := List.exists_cons_of_length_pos (Nat.pos_of_ne_zero some)
  have starts : (front ++ type :: size :: ((first :: rest) ++ after))[front.length + 2]? = Option.some first := by
    simp
  rw [starts]
  simp only [Option.bind_some, not_not.mp integer, true_and, derInteger_iff]
  refine decides_guard (fun high der => high ((and_high_eq_zero_iff first).mpr der.1)) fun low => ?_
  have positive := (and_high_eq_zero_iff first).mp (not_not.mp low)
  cases rest with
  | nil => exact ⟨true, by simp, iff_of_true rfl ⟨positive, nofun⟩⟩
  | cons second more =>
    have follows : (front ++ 0x02 :: size :: ((first :: second :: more) ++ after))[front.length + 3]? =
        Option.some second := by simp
    by_cases zero : first = 0
    · refine ⟨second &&& 0x80 != 0, ?_, ?_⟩
      · rw [if_pos ⟨by simp, zero⟩, follows]
        rfl
      · rw [bne_iff_ne, ne_eq, and_high_eq_zero_iff]
        simp [zero]
    · exact ⟨true, by rw [if_neg fun both => zero both.2],
        iff_of_true rfl ⟨positive, fun isZero => absurd isZero zero⟩⟩

end Integer

section Signature

variable {compound total typeR sizeR typeS sizeS : UInt8} {R tail : Bytes}

theorem StrictDer.parts (size : R.length = sizeR.toNat)
    (der : StrictDer (compound :: total :: typeR :: sizeR :: (R ++ typeS :: sizeS :: tail))) :
    typeR = 0x02 ∧ DerInteger R ∧ typeS = 0x02 ∧
      ∃ S hashType, tail = S ++ [hashType] ∧ S.length = sizeS.toNat ∧ DerInteger S := by
  obtain ⟨R', S, hashType, integerR, integerS, fitsR, fitsS, same⟩ := der.shape
  simp only [List.cons.injEq] at same
  obtain ⟨_, _, rfl, sized, bodies⟩ := same
  rw [sized, UInt8.toNat_ofNat_of_lt' fitsR] at size
  obtain ⟨rfl, rest⟩ := List.append_inj bodies size
  simp only [List.cons.injEq] at rest
  obtain ⟨rfl, rfl, rfl⟩ := rest
  exact ⟨rfl, integerR, rfl, S, hashType, rfl, (UInt8.toNat_ofNat_of_lt' fitsS).symm, integerS⟩

theorem StrictDer.lengths {body : Bytes} (der : StrictDer (compound :: total :: typeR :: sizeR :: body)) :
    compound = 0x30 ∧ total.toNat = body.length + 1 ∧ sizeR.toNat + 3 ≤ body.length := by
  obtain ⟨R, S, hashType, _, _, fitsR, _, same⟩ := der.shape
  have short := der.atMost
  simp only [List.cons.injEq, List.length_cons] at same short
  obtain ⟨rfl, rfl, _, rfl, bodies⟩ := same
  refine ⟨rfl, ?_, ?_⟩
  · rw [UInt8.toNat_ofNat_of_lt' (show _ < 256 by omega)]
    omega
  · rw [UInt8.toNat_ofNat_of_lt' fitsR, bodies]
    simp only [List.length_append, List.length_cons]
    omega

end Signature

/-- Every signature is answered without a read outside it, and the accepted ones are strict DER. -/
theorem isValidSignatureEncoding_iff (sig : Bytes) :
    ∃ valid, isValidSignatureEncoding sig = some valid ∧ (valid = true ↔ StrictDer sig) := by
  rw [isValidSignatureEncoding]
  refine decides_guard (fun short der => absurd der.atLeast (Nat.not_le.mpr short)) fun short => ?_
  refine decides_guard (fun long der => absurd der.atMost (Nat.not_le.mpr long)) fun long => ?_
  obtain ⟨compound, total, typeR, sizeR, body, rfl⟩ : ∃ compound total typeR sizeR body,
      sig = compound :: total :: typeR :: sizeR :: body := by
    match sig, short with
    | compound :: total :: typeR :: sizeR :: body, _ => exact ⟨_, _, _, _, body, rfl⟩
    | [], short | [_], short | [_, _], short | [_, _, _], short => simp at short
  simp only [List.getElem?_cons_zero, List.getElem?_cons_succ, bind, Option.bind_some, Option.map_some,
    List.length_cons] at short long ⊢
  refine decides_guard (fun other der => other der.lengths.1) fun opens => ?_
  refine decides_guard (fun other der => other der.lengths.2.1) fun covers => ?_
  refine decides_guard (fun outside der => by have := der.lengths.2.2; omega) fun inside => ?_
  -- The body is cut behind R.
  obtain ⟨R, typeS, sizeS, tail, size, rfl⟩ : ∃ R typeS sizeS tail, R.length = sizeR.toNat ∧
      body = R ++ typeS :: sizeS :: tail := by
    have cut := List.take_append_drop sizeR.toNat body
    have left : (body.drop sizeR.toNat).length = body.length - sizeR.toNat := List.length_drop
    match body.drop sizeR.toNat, left, cut with
    | typeS :: sizeS :: tail, _, cut =>
      exact ⟨_, typeS, sizeS, tail, by rw [List.length_take]; omega, cut.symm⟩
    | [], left, _ | [_], left, _ => simp only [List.length_cons, List.length_nil] at left; omega
  simp only [List.length_append, List.length_cons] at short long covers inside
  have found : (compound :: total :: typeR :: sizeR :: (R ++ typeS :: sizeS :: tail))[5 + sizeR.toNat]? =
      some sizeS := by
    rw [show 5 + sizeR.toNat = sizeR.toNat + 1 + 1 + 1 + 1 + 1 by omega]
    simp [← size]
  rw [found]
  simp only [Option.map_some, Option.bind_some, List.length_append, List.length_cons]
  refine decides_guard (fun differs der => ?_) fun agrees => ?_
  · obtain ⟨_, _, _, S, hashType, rfl, sized, _⟩ := der.parts size
    rw [List.length_append, sized, List.length_singleton] at differs
    omega
  have sums : tail.length = sizeS.toNat + 1 := by omega
  obtain ⟨S, hashType, rfl⟩ : ∃ S hashType, tail = S ++ [hashType] := by
    cases tail using List.reverseRecOn with
    | nil => simp at sums
    | append_singleton S hashType => exact ⟨S, hashType, rfl⟩
  have sized : S.length = sizeS.toNat := by simpa using sums
  obtain ⟨validR, checkedR, meaningR⟩ := isValidInteger_eq [compound, total] R
    (typeS :: sizeS :: (S ++ [hashType])) typeR sizeR
  obtain ⟨validS, checkedS, meaningS⟩ := isValidInteger_eq (compound :: total :: typeR :: sizeR :: R) S
    [hashType] typeS sizeS
  simp only [List.cons_append, List.nil_append, List.length_cons, List.length_nil, size, sized] at checkedR checkedS
  rw [checkedR, Option.bind_some]
  refine decides_guard (fun refused der => ?_) fun accepted => ?_
  · obtain ⟨isInteger, integer, _⟩ := der.parts size
    simp [meaningR.mpr ⟨isInteger, integer⟩] at refused
  obtain ⟨rfl, integerR⟩ := meaningR.mp (by simpa using accepted)
  refine ⟨validS, checkedS, meaningS.trans ⟨fun integer => ?_, fun der => ?_⟩⟩
  · have whole : UInt8.ofNat (R.length + (sizeS.toNat + 1 + 1 + 1) + 1 + 1 + 1 + 1 - 3) = total := by
      rw [show R.length + (sizeS.toNat + 1 + 1 + 1) + 1 + 1 + 1 + 1 - 3 = total.toNat by omega,
        UInt8.ofNat_toNat]
    refine ⟨⟨R, S, hashType, integerR, integer.2, ?_, ?_, ?_⟩, ?_, ?_⟩
    · exact size ▸ sizeR.toNat_lt
    · exact sized ▸ sizeS.toNat_lt
    · simp only [List.length_cons, List.length_append, sums, whole, not_not.mp opens, integer.1]
      rw [size, sized, UInt8.ofNat_toNat, UInt8.ofNat_toNat]
    all_goals
      simp only [List.length_cons, @List.length_append _ R]
      omega
  · obtain ⟨_, _, isInteger, S', hashType', same, _, integerS⟩ := der.parts size
    obtain ⟨rfl, _⟩ := List.append_inj' same rfl
    exact ⟨isInteger, integerS⟩

end Sharecoin
