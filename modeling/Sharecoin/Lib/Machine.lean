import Mathlib.Data.Int.Basic
import Mathlib.Algebra.Order.Ring.Int

/-! Signed machine integers, modelled as integers reduced into the two's
complement range of their width. -/

set_option autoImplicit false

namespace Sharecoin.Lib

def wrap32 (value : Int) : Int := value.bmod (2 ^ 32)

def wrap64 (value : Int) : Int := value.bmod (2 ^ 64)

theorem wrap32_eq_self {value : Int} (low : -2 ^ 31 ≤ value) (high : value < 2 ^ 31) : wrap32 value = value := by
  unfold wrap32
  rw [Int.bmod_def]
  omega

theorem wrap32_emod (value : Int) : wrap32 value % 2 ^ 32 = value % 2 ^ 32 := by
  unfold wrap32
  rw [Int.bmod_def]
  omega

theorem wrap64_eq_self {value : Int} (low : -2 ^ 63 ≤ value) (high : value < 2 ^ 63) : wrap64 value = value := by
  unfold wrap64
  rw [Int.bmod_def]
  omega

/-! ## Flags -/

theorem uint32_or_and (left right mask : UInt32) :
    (left ||| right) &&& mask = (left &&& mask) ||| (right &&& mask) := by
  apply UInt32.eq_of_toBitVec_eq
  rw [UInt32.toBitVec_and, UInt32.toBitVec_or, UInt32.toBitVec_or, UInt32.toBitVec_and,
    UInt32.toBitVec_and, BitVec.and_or_distrib_right]

theorem uint32_or_and_self (value mask : UInt32) : (value ||| mask) &&& mask = mask := by
  apply UInt32.eq_of_toBitVec_eq
  ext i
  simp only [UInt32.toBitVec_and, UInt32.toBitVec_or, BitVec.getElem_and, BitVec.getElem_or]
  cases mask.toBitVec[i] <;> simp

end Sharecoin.Lib
