import Sharecoin.Consensus.Params
import Sharecoin.Lib.Machine
import Mathlib.Data.List.AList
import Mathlib.Data.List.Sort

/-! The in-memory block index. A pointer to an index entry is the hash the entry
is stored under, so a null pointer is `none` and dereferencing is a lookup. -/

set_option autoImplicit false

namespace Sharecoin

open Lib

/-! ## 256-bit arithmetic -/

abbrev ArithUint256 := BitVec 256

def uintToArith256 (blob : Uint256) : ArithUint256 := BitVec.ofNat 256 blob.toNat

def arithToUint256 (number : ArithUint256) : Uint256 := .ofNat number.toNat

/-- The value of a compact target and the two flags `SetCompact` reports. -/
structure Compact where
  value : ArithUint256
  fNegative : Bool
  fOverflow : Bool

def setCompact (nCompact : UInt32) : Compact :=
  let nSize := (nCompact >>> 24).toNat
  let nWord := (nCompact &&& 0x007fffff).toNat
  let nWord := if nSize ≤ 3 then nWord >>> (8 * (3 - nSize)) else nWord
  { value :=
      if nSize ≤ 3 then BitVec.ofNat 256 nWord
      else BitVec.ofNat 256 nWord <<< (8 * (nSize - 3))
    fNegative := nWord != 0 && (nCompact &&& 0x00800000) != 0
    fOverflow := nWord != 0 && (decide (nSize > 34) || (decide (nWord > 0xff) && decide (nSize > 33)) ||
      (decide (nWord > 0xffff) && decide (nSize > 32))) }

def bits (number : ArithUint256) : Nat :=
  if number.toNat = 0 then 0 else Nat.log2 number.toNat + 1

def getCompact (number : ArithUint256) : UInt32 :=
  let nSize := (bits number + 7) / 8
  let nCompact : UInt32 :=
    if nSize ≤ 3 then UInt32.ofNat (number.toNat <<< (8 * (3 - nSize)))
    else UInt32.ofNat (number.toNat >>> (8 * (nSize - 3)))
  if (nCompact &&& 0x00800000) != 0 then
    (nCompact >>> 8) ||| (UInt32.ofNat (nSize + 1) <<< 24)
  else
    nCompact ||| (UInt32.ofNat nSize <<< 24)

def getBitsProof (bits : UInt32) : ArithUint256 :=
  let compact := setCompact bits
  if compact.fNegative || compact.fOverflow || compact.value == 0 then 0
  else (~~~compact.value) / (compact.value + 1) + 1

/-! ## Index entries -/

def BLOCK_VALID_TREE : UInt32 := 2
def BLOCK_VALID_SCRIPTS : UInt32 := 5
def BLOCK_VALID_MASK : UInt32 := 7
def BLOCK_HAVE_DATA : UInt32 := 8
def BLOCK_HAVE_UNDO : UInt32 := 16
def BLOCK_FAILED_VALID : UInt32 := 32
def BLOCK_FAILED_CHILD : UInt32 := 64

def SEQ_ID_INIT_FROM_DISK : Int := 1

def castUInt32 (value : Int) : UInt32 := UInt32.ofNat (value % 2 ^ 32).toNat

def castInt (value : UInt32) : Int := wrap32 value.toNat

theorem castUInt32_wrap32 (value : Int) : castUInt32 (wrap32 value) = castUInt32 value := by
  rw [castUInt32, castUInt32, wrap32_emod]

theorem castUInt32_succ (value : Int) : castUInt32 (value + 1) = castUInt32 value + 1 := by
  apply UInt32.toNat_inj.mp
  simp only [castUInt32, UInt32.toNat_add, UInt32.toNat_ofNat', UInt32.toNat_one]
  omega

structure CBlockIndex where
  pprev : Option Uint256 := none
  pskip : Option Uint256 := none
  nHeight : Int := 0
  nFile : Int := 0
  nDataPos : UInt32 := 0
  nUndoPos : UInt32 := 0
  nChainWork : ArithUint256 := 0
  nTx : UInt32 := 0
  mChainTxCount : UInt64 := 0
  nStatus : UInt32 := 0
  nVersion : Int32 := 0
  hashMerkleRoot : Uint256 := .zero
  nTime : UInt32 := 0
  nBits : UInt32 := 0
  nNonce64 : UInt64 := 0
  mixHash : Uint256 := .zero
  nSequenceId : Int := SEQ_ID_INIT_FROM_DISK
  nTimeMax : UInt32 := 0
deriving DecidableEq

abbrev BlockMap := AList fun _ : Uint256 => CBlockIndex

namespace CBlockIndex

/-- The constructor from a header. It drops `hashPrevBlock` and `nHeight`. -/
def ofHeader (block : CBlockHeader) : CBlockIndex :=
  { nVersion := block.nVersion
    hashMerkleRoot := block.hashMerkleRoot
    nTime := block.nTime
    nBits := block.nBits
    nNonce64 := block.nNonce64
    mixHash := block.mixHash }

def getBlockHeader (entry : CBlockIndex) : CBlockHeader :=
  { nVersion := entry.nVersion
    hashPrevBlock := entry.pprev.getD .zero
    hashMerkleRoot := entry.hashMerkleRoot
    nTime := entry.nTime
    nBits := entry.nBits
    nHeight := castUInt32 entry.nHeight
    nNonce64 := entry.nNonce64
    mixHash := entry.mixHash }

def getBlockTime (entry : CBlockIndex) : Int := entry.nTime.toNat

def failed (entry : CBlockIndex) : Bool := entry.nStatus &&& BLOCK_FAILED_VALID != 0

def raiseValidity (entry : CBlockIndex) (nUpTo : UInt32) : CBlockIndex :=
  if entry.failed then entry
  else if entry.nStatus &&& BLOCK_VALID_MASK < nUpTo then
    { entry with nStatus := (entry.nStatus &&& ~~~BLOCK_VALID_MASK) ||| nUpTo }
  else entry

end CBlockIndex

/-! ## Ancestors -/

def invertLowestOne (n : Nat) : Nat := n &&& (n - 1)

def getSkipHeight (height : Int) : Int :=
  if height < 2 then 0
  else if height.toNat &&& 1 = 1 then
    invertLowestOne (invertLowestOne (height.toNat - 1)) + 1
  else invertLowestOne height.toNat

def followsSkip (heightWalk height : Int) : Bool :=
  let heightSkip := getSkipHeight heightWalk
  let heightSkipPrev := getSkipHeight (heightWalk - 1)
  heightSkip == height || (decide (heightSkip > height) &&
      !(decide (heightSkipPrev < heightSkip - 2) && decide (heightSkipPrev ≥ height)))

/-- The loop of `GetAncestor`. Every turn lowers `heightWalk`, so a count of
turns above the distance never runs out. -/
def getAncestorLoop (blocks : BlockMap) (height : Int) : Nat → Uint256 → Int → Option Uint256
  | 0, _, _ => none
  | turns + 1, pindexWalk, heightWalk =>
    if heightWalk > height then
      match blocks.lookup pindexWalk with
      | none => none
      | some entry =>
        match entry.pskip, followsSkip heightWalk height with
        | some pskip, true => getAncestorLoop blocks height turns pskip (getSkipHeight heightWalk)
        | _, _ =>
          match entry.pprev with
          | none => none
          | some pprev => getAncestorLoop blocks height turns pprev (heightWalk - 1)
    else
      some pindexWalk

/-- `none` also stands for the failed assertion on a missing `pprev`. -/
def getAncestor (blocks : BlockMap) (pindex : Uint256) (height : Int) : Option Uint256 :=
  match blocks.lookup pindex with
  | none => none
  | some entry =>
    if height > entry.nHeight ∨ height < 0 then none
    else getAncestorLoop blocks height ((entry.nHeight - height).toNat + 1) pindex entry.nHeight

def blockTimes (blocks : BlockMap) : Nat → Option Uint256 → List Int
  | count + 1, some pindex =>
    match blocks.lookup pindex with
    | none => []
    | some entry => entry.getBlockTime :: blockTimes blocks count entry.pprev
  | _, _ => []

def nMedianTimeSpan : Nat := 11

def MAX_TIMEWARP : Int := 600

def getMedianTimePast (blocks : BlockMap) (pindex : Uint256) : Int :=
  let times := (blockTimes blocks nMedianTimeSpan (some pindex)).insertionSort (· ≤ ·)
  times.getD (times.length / 2) 0

/-! ## The active chain -/

/-- The blocks of a chain by height. `SetTip` forms the size as `nHeight + 1` in
`int`, so it is an `int` value. -/
structure CChain where
  vChain : List CBlockIndex
  size_lt : vChain.length < 2 ^ 31

namespace CChain

def entryAt (chain : CChain) (nHeight : Int) : Option CBlockIndex :=
  if nHeight < 0 ∨ nHeight ≥ chain.vChain.length then none else chain.vChain[nHeight.toNat]?

def height (chain : CChain) : Int := chain.vChain.length - 1

theorem entryAt_isSome_iff (chain : CChain) (nHeight : Int) :
    (chain.entryAt nHeight).isSome ↔ 0 ≤ nHeight ∧ nHeight ≤ chain.height := by
  unfold entryAt height
  split
  · simp only [Option.isSome_none, Bool.false_eq_true, false_iff]
    omega
  · simp only [isSome_getElem?]
    omega

end CChain

end Sharecoin
