import Sharecoin.Chain.BlockIndex

/-! Version bits: the state of a deployment for the block after a given one, computed with a cache that
all queries share. A block pointer is the hash of its entry and the null pointer is `none`. Outside
that, `none` stands for reading through a null pointer or a failed assertion. -/

set_option autoImplicit false

namespace Sharecoin

open Lib

inductive ThresholdState where
  | DEFINED
  | STARTED
  | LOCKED_IN
  | ACTIVE
  | FAILED
deriving DecidableEq

def ALWAYS_ACTIVE : Int := -1
def NEVER_ACTIVE : Int := -2

structure BIP9Deployment where
  bit : UInt32 := 28
  nStartTime : Int := NEVER_ACTIVE
  nTimeout : Int := NEVER_ACTIVE
  minActivationHeight : Int := 0
  period : UInt32 := 2016
  threshold : UInt32 := 1916

/-- `AbstractThresholdConditionChecker`, by what its virtual functions answer. -/
structure ThresholdConditionChecker where
  condition : CBlockIndex → Bool
  beginTime : Int
  endTime : Int
  minActivationHeight : Int
  period : Int
  threshold : Int

def VERSIONBITS_TOP_BITS : UInt32 := 0x20000000
def VERSIONBITS_TOP_MASK : UInt32 := 0xe0000000

namespace BIP9Deployment

def mask (dep : BIP9Deployment) : UInt32 := 1 <<< dep.bit

/-- `VersionBitsConditionChecker`. Period and threshold are `uint32_t` fields read as `int`. -/
def checker (dep : BIP9Deployment) : ThresholdConditionChecker :=
  { condition := fun pindex =>
      (pindex.nVersion.toUInt32 &&& VERSIONBITS_TOP_MASK) == VERSIONBITS_TOP_BITS &&
        (pindex.nVersion.toUInt32 &&& dep.mask) != 0
    beginTime := dep.nStartTime
    endTime := dep.nTimeout
    minActivationHeight := dep.minActivationHeight
    period := castInt dep.period
    threshold := castInt dep.threshold }

end BIP9Deployment

/-- The state of the period that starts after a block, by that block. -/
abbrev ThresholdConditionCache := AList fun _ : Option Uint256 => ThresholdState

namespace ThresholdConditionChecker

variable (checker : ThresholdConditionChecker) (blocks : BlockMap)

/-- The last block of the period before the one the next block is in. -/
def lastOfPeriod : Option Uint256 → Option (Option Uint256)
  | none => some none
  | some pindexPrev => do
    let entry ← blocks.lookup pindexPrev
    some (getAncestor blocks pindexPrev (entry.nHeight - (entry.nHeight + 1).tmod checker.period))

/-- Walks back in steps of a period to a block whose state is known. Every turn lowers the height. -/
def walkBack : Nat → Option Uint256 → List Uint256 → ThresholdConditionCache →
    Option (Option Uint256 × List Uint256 × ThresholdConditionCache)
  | 0, _, _, _ => none
  | turns + 1, pindexPrev, vToCompute, cache =>
    if (cache.lookup pindexPrev).isSome then some (pindexPrev, vToCompute, cache)
    else
      match pindexPrev with
      | none => some (none, vToCompute, cache.insert none .DEFINED)
      | some hash =>
        match blocks.lookup hash with
        | none => none
        | some entry =>
          if getMedianTimePast blocks hash < checker.beginTime then
            some (some hash, vToCompute, cache.insert (some hash) .DEFINED)
          else
            walkBack turns (getAncestor blocks hash (entry.nHeight - checker.period)) (hash :: vToCompute) cache

def countConditions : Nat → Option Uint256 → Option Nat
  | 0, _ => some 0
  | _ + 1, none => none
  | turns + 1, some pindexCount => do
    let entry ← blocks.lookup pindexCount
    let rest ← countConditions turns entry.pprev
    some (rest + if checker.condition entry then 1 else 0)

/-- The state after a period that ends with the given block. -/
def stateNext (state : ThresholdState) (pindexPrev : Uint256) : Option ThresholdState :=
  match state with
  | .DEFINED =>
    some (if getMedianTimePast blocks pindexPrev ≥ checker.beginTime then .STARTED else .DEFINED)
  | .STARTED => do
    let count ← checker.countConditions blocks checker.period.toNat (some pindexPrev)
    some (if count ≥ checker.threshold then .LOCKED_IN
      else if getMedianTimePast blocks pindexPrev ≥ checker.endTime then .FAILED
      else .STARTED)
  | .LOCKED_IN => do
    let entry ← blocks.lookup pindexPrev
    some (if entry.nHeight + 1 ≥ checker.minActivationHeight then .ACTIVE else .LOCKED_IN)
  | .ACTIVE => some .ACTIVE
  | .FAILED => some .FAILED

def walkForward (state : ThresholdState) :
    List Uint256 → ThresholdConditionCache → Option (ThresholdState × ThresholdConditionCache)
  | [], cache => some (state, cache)
  | pindexPrev :: vToCompute, cache => do
    let next ← checker.stateNext blocks state pindexPrev
    walkForward next vToCompute (cache.insert (some pindexPrev) next)

/-- More turns than there are periods up to a block. -/
def walkTurns (pindexPrev : Option Uint256) : Nat :=
  match pindexPrev.bind blocks.lookup with
  | none => 1
  | some entry => entry.nHeight.toNat + 2

def getStateFor (pindexPrev : Option Uint256) (cache : ThresholdConditionCache) :
    Option (ThresholdState × ThresholdConditionCache) :=
  if checker.beginTime = ALWAYS_ACTIVE then some (.ACTIVE, cache)
  else if checker.beginTime = NEVER_ACTIVE then some (.FAILED, cache)
  else do
    let last ← checker.lastOfPeriod blocks pindexPrev
    let (known, vToCompute, cache) ← checker.walkBack blocks (walkTurns blocks last) last [] cache
    let state ← cache.lookup known
    checker.walkForward blocks state vToCompute cache

/-- Steps back while the period before is in the same state. -/
def sinceLoop (initialState : ThresholdState) :
    Nat → Uint256 → ThresholdConditionCache → Option (Int × ThresholdConditionCache)
  | 0, _, _ => none
  | turns + 1, pindexPrev, cache => do
    let entry ← blocks.lookup pindexPrev
    match getAncestor blocks pindexPrev (entry.nHeight - checker.period) with
    | none => some (entry.nHeight + 1, cache)
    | some previousPeriodParent => do
      let (state, cache) ← checker.getStateFor blocks (some previousPeriodParent) cache
      if state = initialState then sinceLoop initialState turns previousPeriodParent cache
      else some (entry.nHeight + 1, cache)

def getStateSinceHeightFor (pindexPrev : Option Uint256) (cache : ThresholdConditionCache) :
    Option (Int × ThresholdConditionCache) :=
  if checker.beginTime = ALWAYS_ACTIVE ∨ checker.beginTime = NEVER_ACTIVE then some (0, cache)
  else do
    let (initialState, cache) ← checker.getStateFor blocks pindexPrev cache
    if initialState = .DEFINED then some (0, cache)
    else do
      let last ← checker.lastOfPeriod blocks pindexPrev
      let pindexPrev ← last
      checker.sinceLoop blocks initialState (walkTurns blocks (some pindexPrev)) pindexPrev cache

/-! ## Queries that share a cache -/

inductive Query where
  | stateFor (pindexPrev : Option Uint256)
  | sinceHeightFor (pindexPrev : Option Uint256)

inductive Answer where
  | state (state : ThresholdState)
  | height (height : Int)
deriving DecidableEq

def answer (cache : ThresholdConditionCache) : Query → Option (Answer × ThresholdConditionCache)
  | .stateFor pindexPrev => do
    let (state, cache) ← checker.getStateFor blocks pindexPrev cache
    some (.state state, cache)
  | .sinceHeightFor pindexPrev => do
    let (height, cache) ← checker.getStateSinceHeightFor blocks pindexPrev cache
    some (.height height, cache)

def answers : List Query → ThresholdConditionCache → Option (List Answer × ThresholdConditionCache)
  | [], cache => some ([], cache)
  | query :: queries, cache => do
    let (first, cache) ← checker.answer blocks cache query
    let (rest, cache) ← answers queries cache
    some (first :: rest, cache)

end ThresholdConditionChecker

end Sharecoin
