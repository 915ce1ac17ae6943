import Sharecoin.Pow.MineBlock

/-! What the check of a header's proof of work means, and that `getkawpowhash` reports the same. The
header carries its target as compact bits, the call carries 32 bytes, and both reach ProgPoW as a
boundary in the opposite byte order. -/

set_option autoImplicit false

namespace Sharecoin

open Lib

structure ProgPowHashCheckResult where
  finalHash : Uint256
  computedMixHash : Uint256
  mixHashMatches : Bool
  hasTargetCheck : Bool
  meetsTarget : Bool

/-- The target is checked with the mix that was just computed, not with the candidate. -/
def checkProgPowHash (progpow : ProgPow) (height : Int) (headerHash : Uint256) (nonce : UInt64)
    (candidateMixHash : Uint256) (target : Option Uint256) : ProgPowHashCheckResult :=
  let epoch := getEpochNumber height
  let result := progpow.hash epoch height headerHash nonce
  { finalHash := result.finalHash
    computedMixHash := result.mixHash
    mixHashMatches := result.mixHash == candidateMixHash
    hasTargetCheck := target.isSome
    meetsTarget :=
      match target with
      | none => false
      | some target => progpow.verify epoch height headerHash result.mixHash nonce
          (targetToBoundary (uintToArith256 target)) }

namespace ProgPow

variable (progpow : ProgPow) (height : Int) (headerHash mixHash : Uint256) (nonce : UInt64)

/-- A candidate mix that matches is the mix the target was checked with. -/
theorem checkProgPowHash_iff (target : Uint256) :
    (checkProgPowHash progpow height headerHash nonce mixHash (some target)).mixHashMatches = true ∧
        (checkProgPowHash progpow height headerHash nonce mixHash (some target)).meetsTarget = true ↔
      progpow.Proves height headerHash mixHash nonce target.toNat := by
  have checked := progpow.verify_iff height headerHash
    (progpow.hashMix (getEpochNumber height) height headerHash nonce) nonce (uintToArith256 target)
  rw [toNat_uintToArith256] at checked
  simp only [checkProgPowHash, hash, beq_iff_eq, checked]
  constructor
  · rintro ⟨rfl, proves⟩
    exact proves
  · intro proves
    exact ⟨proves.2.symm, proves.2 ▸ proves⟩

end ProgPow

/-- A header passes exactly if its bits decode to a positive target within the limit that its proof
meets; and the call on the same values answers twice yes in the same cases. -/
theorem checkProofOfWorkImpl_iff (sha256d : Bytes → Uint256) (progpow : ProgPow) (block : CBlockHeader)
    (nBits : UInt32) (params : Params) :
    ((checkProofOfWorkImpl (progpow.env sha256d) block nBits params).1 = true ↔
      compactSign nBits = false ∧ 0 < compactNumber nBits ∧ compactNumber nBits < 2 ^ 256 ∧
        compactNumber nBits ≤ params.powLimit.toNat ∧
        progpow.Proves (castInt block.nHeight) (block.getPoWHeaderHash sha256d) block.mixHash
          block.nNonce64 (compactNumber nBits)) ∧
    (∀ (height : Int) (headerHash mixHash : Uint256) (nonce : UInt64) (target : Uint256),
      (checkProgPowHash progpow height headerHash nonce mixHash (some target)).mixHashMatches = true ∧
          (checkProgPowHash progpow height headerHash nonce mixHash (some target)).meetsTarget = true ↔
        progpow.Proves height headerHash mixHash nonce target.toNat) ∧
    ∀ target, deriveTarget nBits params.powLimit = some target →
      ((checkProofOfWorkImpl (progpow.env sha256d) block nBits params).1 = true ↔
        (checkProgPowHash progpow (castInt block.nHeight) (block.getPoWHeaderHash sha256d)
            block.nNonce64 block.mixHash (some (arithToUint256 target))).mixHashMatches = true ∧
          (checkProgPowHash progpow (castInt block.nHeight) (block.getPoWHeaderHash sha256d)
            block.nNonce64 block.mixHash (some (arithToUint256 target))).meetsTarget = true) := by
  refine ⟨?_, fun height headerHash mixHash nonce target =>
    progpow.checkProgPowHash_iff height headerHash mixHash nonce target, fun target derived => ?_⟩
  · cases derived : deriveTarget nBits params.powLimit with
    | none =>
      refine iff_of_false (by rw [checkProofOfWorkImpl, derived]; exact Bool.false_ne_true) ?_
      rintro ⟨unsigned, positive, fits, within, _⟩
      have accepted := deriveTarget_eq_some_iff.mpr
        ⟨unsigned, positive, within, (BitVec.toNat_ofNat _ _).trans (Nat.mod_eq_of_lt fits)⟩
      cases derived.symm.trans accepted
    | some target =>
      obtain ⟨unsigned, positive, within, same⟩ := deriveTarget_eq_some_iff.mp derived
      have fits : compactNumber nBits < 2 ^ 256 := same ▸ target.isLt
      rw [checkProofOfWorkImpl_of_derived derived, same]
      simp only [unsigned, positive, fits, within, true_and]
  · have bytes : (arithToUint256 target).toNat = target.toNat :=
      ofLeBytes_leBytes_of_lt (show target.toNat < 256 ^ 32 from target.isLt)
    rw [checkProofOfWorkImpl_of_derived derived, progpow.checkProgPowHash_iff, bytes]

end Sharecoin
