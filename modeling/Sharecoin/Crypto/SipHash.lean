import Sharecoin.Uint256

/-! SipHash-2-4 of a 256-bit value under a 128-bit key, as `PresaltedSipHasher`
computes it. -/

set_option autoImplicit false

namespace Sharecoin

open Lib

def rotl64 (x n : UInt64) : UInt64 := (x <<< n) ||| (x >>> (64 - n))

structure SipHashState where
  v0 : UInt64
  v1 : UInt64
  v2 : UInt64
  v3 : UInt64
deriving DecidableEq

namespace SipHashState

def ofKey (k0 k1 : UInt64) : SipHashState :=
  ⟨0x736f6d6570736575 ^^^ k0, 0x646f72616e646f6d ^^^ k1, 0x6c7967656e657261 ^^^ k0, 0x7465646279746573 ^^^ k1⟩

def sipRound (s : SipHashState) : SipHashState :=
  let v0 := s.v0 + s.v1
  let v1 := rotl64 s.v1 13 ^^^ v0
  let v0 := rotl64 v0 32
  let v2 := s.v2 + s.v3
  let v3 := rotl64 s.v3 16 ^^^ v2
  let v0 := v0 + v3
  let v3 := rotl64 v3 21 ^^^ v0
  let v2 := v2 + v1
  let v1 := rotl64 v1 17 ^^^ v2
  ⟨v0, v1, rotl64 v2 32, v3⟩

/-- One word of input between two rounds. -/
def absorb (s : SipHashState) (d : UInt64) : SipHashState :=
  let mixed := ({ s with v3 := s.v3 ^^^ d } : SipHashState).sipRound.sipRound
  { mixed with v0 := mixed.v0 ^^^ d }

def finish (s : SipHashState) : UInt64 :=
  let last := ({ s with v2 := s.v2 ^^^ 0xff } : SipHashState).sipRound.sipRound.sipRound.sipRound
  last.v0 ^^^ last.v1 ^^^ last.v2 ^^^ last.v3

end SipHashState

def Uint256.getUint64 (blob : Uint256) (pos : Nat) : UInt64 :=
  UInt64.ofNat (ofLeBytes ((blob.data.drop (pos * 8)).take 8))

/-- The hash of a 256-bit value. The last word holds the length in its high byte. -/
def presaltedSipHash (k0 k1 : UInt64) (val : Uint256) : UInt64 :=
  ((((((SipHashState.ofKey k0 k1).absorb (val.getUint64 0)).absorb (val.getUint64 1)).absorb
    (val.getUint64 2)).absorb (val.getUint64 3)).absorb ((4 : UInt64) <<< 59)).finish

-- The 32-byte entry of the repository's table of test vectors.
example : presaltedSipHash 0x0706050403020100 0x0f0e0d0c0b0a0908
    (.ofNat 0x1f1e1d1c1b1a191817161514131211100f0e0d0c0b0a09080706050403020100) = 0x7127512f72f27cce := by
  decide +kernel

end Sharecoin
