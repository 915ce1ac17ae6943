import Sharecoin.Lib.Codec

/-! The opaque 256-bit blob `uint256` and its two views: the number it spells in
little-endian order, and the hexadecimal text that prints it back to front. -/

set_option autoImplicit false

namespace Sharecoin

open Lib

structure Uint256 where
  data : Bytes
  size_eq : data.length = 32
deriving DecidableEq

namespace Uint256

@[ext] theorem ext {left right : Uint256} (same : left.data = right.data) : left = right := by
  cases left
  cases right
  cases same
  rfl

/-- The blob of a number below `2 ^ 256`, as `ArithToUint256` lays it out. -/
def ofNat (number : Nat) : Uint256 := ⟨leBytes 32 number, leBytes_length 32 number⟩

/-- The number a blob spells, as `UintToArith256` reads it. -/
def toNat (blob : Uint256) : Nat := ofLeBytes blob.data

theorem toNat_injective : Function.Injective toNat := by
  intro left right same
  have spelled := leBytes_ofLeBytes left.data
  have spelled' := leBytes_ofLeBytes right.data
  rw [left.size_eq] at spelled
  rw [right.size_eq] at spelled'
  apply ext
  rw [← spelled, ← spelled']
  exact congrArg (leBytes 32) same

def zero : Uint256 := ofNat 0

instance : Inhabited Uint256 := ⟨zero⟩

def isNull (blob : Uint256) : Bool := blob.data.all (· == 0)

theorem isNull_iff (blob : Uint256) : blob.isNull = true ↔ blob = zero := by
  constructor
  · intro null
    apply ext
    have zeros : blob.data = List.replicate 32 0 := by
      rw [← blob.size_eq]
      apply List.eq_replicate_of_mem
      intro byte member
      simpa using List.all_eq_true.mp null byte member
    rw [zeros]
    decide
  · rintro rfl
    decide

/-! ## Serialization -/

def read : Reader Uint256 := fun input =>
  if enough : 32 ≤ input.length then
    some (⟨input.take 32, by rw [List.length_take]; omega⟩, input.drop 32)
  else none

theorem reads_read (blob : Uint256) : Reads read blob.data blob := by
  intro rest
  have enough : 32 ≤ (blob.data ++ rest).length := by
    rw [List.length_append, blob.size_eq]
    omega
  have front : (blob.data ++ rest).take 32 = blob.data := List.take_left' blob.size_eq
  have back : (blob.data ++ rest).drop 32 = rest := List.drop_left' blob.size_eq
  rw [read, dif_pos enough, back]
  congr 2
  exact ext front

/-! ## Hexadecimal text -/

def hexByte (byte : UInt8) : List Char :=
  [Nat.digitChar (byte.toNat / 16), Nat.digitChar (byte.toNat % 16)]

/-- `base_blob::GetHex`: the bytes from last to first, two digits each. -/
def getHex (blob : Uint256) : String := String.ofList (blob.data.reverse.flatMap hexByte)

private theorem digitChar_injective :
    ∀ left < 16, ∀ right < 16, Nat.digitChar left = Nat.digitChar right → left = right := by
  decide

theorem hexByte_injective {left right : UInt8} (same : hexByte left = hexByte right) : left = right := by
  have leftSmall := left.toNat_lt
  have rightSmall := right.toNat_lt
  simp only [hexByte, List.cons.injEq, and_true] at same
  have high := digitChar_injective _ (by omega) _ (by omega) same.1
  have low := digitChar_injective _ (by omega) _ (by omega) same.2
  apply UInt8.toNat_inj.mp
  omega

private theorem flatMap_hexByte_injective {left right : Bytes}
    (same : left.flatMap hexByte = right.flatMap hexByte) : left = right := by
  induction left generalizing right with
  | nil =>
    cases right with
    | nil => rfl
    | cons byte rest => simp [hexByte] at same
  | cons byte rest ih =>
    cases right with
    | nil => simp [hexByte] at same
    | cons other others =>
      simp only [List.flatMap_cons] at same
      obtain ⟨first, tail⟩ := List.append_inj same rfl
      rw [hexByte_injective first, ih tail]

theorem getHex_injective {left right : Uint256} (same : left.getHex = right.getHex) : left = right := by
  have texts : left.data.reverse.flatMap hexByte = right.data.reverse.flatMap hexByte := String.ofList_injective same
  exact ext (List.reverse_injective (flatMap_hexByte_injective texts))

end Uint256

end Sharecoin
