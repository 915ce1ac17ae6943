import Sharecoin.Chain.BlockIndex

/-! Proof of work: the next required target, and the ProgPoW check of a header.
ProgPoW itself is a parameter. Each check also returns the epoch numbers it hands
to `get_global_epoch_context`, which builds the light cache of that epoch. -/

set_option autoImplicit false

namespace Sharecoin

open Lib

/-! ## The next target -/

/-- An `int64_t` converted to `arith_uint256` through `uint64_t`. -/
def arithOfInt64 (value : Int) : ArithUint256 := BitVec.ofNat 256 (value % 2 ^ 64).toNat

structure LwmaSums where
  t : Int := 0
  j : Int := 0
  sumTarget : ArithUint256 := 0

/-- One block of the averaging window. `none` stands for a null ancestor or a
division by zero. -/
def lwmaBlock (blocks : BlockMap) (pindexLast : Uint256) (params : Params) (i : Int)
    (sums : LwmaSums) : Option LwmaSums := do
  let block ← getAncestor blocks pindexLast i
  let blockPrev ← getAncestor blocks block (i - 1)
  let entry ← blocks.lookup block
  let entryPrev ← blocks.lookup blockPrev
  let solvetime := entry.getBlockTime - entryPrev.getBlockTime
  let limit := 6 * params.nPowTargetSpacing
  let solvetime := if params.fLwmaSolvetimeLimitation && decide (solvetime > limit) then limit else solvetime
  let j := sums.j + 1
  let divisor := arithOfInt64 (params.nLwmaAdjustedWeight * params.nLwmaAveragingWindow * params.nLwmaAveragingWindow)
  let updated : LwmaSums :=
    { t := wrap64 (sums.t + wrap64 (solvetime * j))
      j
      sumTarget := sums.sumTarget + (setCompact entry.nBits).value / divisor }
  if divisor = 0 then none else some updated

def lwmaLoop (blocks : BlockMap) (pindexLast : Uint256) (params : Params) : Nat → Int → LwmaSums → Option LwmaSums
  | 0, _, sums => some sums
  | count + 1, i, sums => do
    let sums ← lwmaBlock blocks pindexLast params i sums
    lwmaLoop blocks pindexLast params count (i + 1) sums

def lwmaCalculateNextWorkRequired (blocks : BlockMap) (pindexLast : Uint256) (params : Params) : Option UInt32 := do
  let last ← blocks.lookup pindexLast
  let height := last.nHeight + 1
  if ¬ height > params.nLwmaAveragingWindow ∨ params.nLwmaMinDenominator = 0 then none
  else do
    let sums ← lwmaLoop blocks pindexLast params params.nLwmaAveragingWindow.toNat
      (height - params.nLwmaAveragingWindow) {}
    let tMin := (params.nLwmaAveragingWindow * params.nLwmaAdjustedWeight).tdiv params.nLwmaMinDenominator
    let t := if sums.t < tMin then tMin else sums.t
    let powLimit := uintToArith256 params.powLimit
    let nextTarget := arithOfInt64 t * sums.sumTarget
    some (getCompact (if nextTarget > powLimit then powLimit else nextTarget))

/-- `none` where the source would dereference a null ancestor. -/
def getNextWorkRequired (blocks : BlockMap) (pindexLast : Uint256) (params : Params) : Option UInt32 := do
  let last ← blocks.lookup pindexLast
  if params.fPowNoRetargeting then some last.nBits
  else if last.nHeight + 1 ≤ params.nLwmaAveragingWindow then do
    let first ← getAncestor blocks pindexLast 0
    let entry ← blocks.lookup first
    some entry.nBits
  else lwmaCalculateNextWorkRequired blocks pindexLast params

/-! ## Checking a header -/

def deriveTarget (nBits : UInt32) (powLimit : Uint256) : Option ArithUint256 :=
  let bnTarget := setCompact nBits
  if bnTarget.fNegative || bnTarget.value == 0 || bnTarget.fOverflow ||
      decide (bnTarget.value > uintToArith256 powLimit) then none
  else some bnTarget.value

def targetToBoundary (target : ArithUint256) : Bytes := (arithToUint256 target).data.reverse

def epochLength : Int := 7500

def getEpochNumber (blockNumber : Int) : Int :=
  if blockNumber ≠ 0 then blockNumber.tdiv epochLength else 0

/-- What header validation takes from outside: the double SHA-256 and
`progpow::verify` on the context of an epoch. -/
structure HashEnv where
  sha256d : Bytes → Uint256
  progpowVerify : (epoch blockNumber : Int) → (headerHash mixHash : Uint256) → (nonce : UInt64) →
    (boundary : Bytes) → Bool

def checkProofOfWorkImpl (env : HashEnv) (block : CBlockHeader) (nBits : UInt32) (params : Params) : Bool × List Int :=
  match deriveTarget nBits params.powLimit with
  | none => (false, [])
  | some bnTarget =>
    let blockNumber := castInt block.nHeight
    let epoch := getEpochNumber blockNumber
    (env.progpowVerify epoch blockNumber (block.getPoWHeaderHash env.sha256d) block.mixHash
      block.nNonce64 (targetToBoundary bnTarget), [epoch])

def checkProofOfWork (env : HashEnv) (block : CBlockHeader) (nBits : UInt32) (params : Params) : Bool × List Int :=
  checkProofOfWorkImpl env block nBits params

def hasValidProofOfWork (env : HashEnv) (params : Params) : List CBlockHeader → Bool × List Int
  | [] => (true, [])
  | header :: headers =>
    match checkProofOfWork env header header.nBits params with
    | (false, epochs) => (false, epochs)
    | (true, epochs) =>
      let rest := hasValidProofOfWork env params headers
      (rest.1, epochs ++ rest.2)

end Sharecoin
