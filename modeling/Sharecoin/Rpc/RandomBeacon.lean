import Sharecoin.Chain.BlockIndex

/-! The `getrandombeacon` RPC, and the value its specification promises. -/

set_option autoImplicit false

namespace Sharecoin.Rpc

open Lib Sha256

inductive BeaconError where
  | negativeStart
  | windowSize
  | notConfirmed (blocksNeeded startHeight endHeight tipHeight : Int)
  | nullIndex
deriving DecidableEq

structure BeaconResult where
  startHeight : Int
  endHeight : Int
  windowSize : Int
  beacon : String
deriving DecidableEq

def beaconLoop (activeChain : CChain) : Nat → Int → HashWriter → Except BeaconError HashWriter
  | 0, _, hw => .ok hw
  | count + 1, h, hw =>
    match activeChain.entryAt h with
    | none => .error .nullIndex
    | some pindex => beaconLoop activeChain count (h + 1) (hw.write pindex.mixHash.data)

def getrandombeacon (activeChain : CChain) (startHeight windowSize : Int32) : Except BeaconError BeaconResult :=
  let start := startHeight.toInt
  let window := windowSize.toInt
  if start < 0 then .error .negativeStart
  else if window < 1 ∨ window > 10000 then .error .windowSize
  else
    let endHeight := wrap32 (start + window - 1)
    let tipHeight := activeChain.height
    if endHeight > tipHeight then
      .error (.notConfirmed (wrap32 (endHeight - tipHeight)) start endHeight tipHeight)
    else
      match beaconLoop activeChain (endHeight + 1 - start).toNat start .new with
      | .error error => .error error
      | .ok hw => .ok ⟨start, endHeight, window, hw.getHash.getHex⟩

/-! ## The specification -/

def windowMixHashes (activeChain : CChain) (startHeight windowSize : Int32) : List Uint256 :=
  (List.range windowSize.toInt.toNat).filterMap fun offset : Nat =>
    (activeChain.entryAt (startHeight.toInt + offset)).map CBlockIndex.mixHash

def windowMessage (activeChain : CChain) (startHeight windowSize : Int32) : Bytes :=
  (windowMixHashes activeChain startHeight windowSize).flatMap Uint256.data

/-- The published value: one SHA-256 over the window. -/
def specBeacon (activeChain : CChain) (startHeight windowSize : Int32) : String :=
  (digest (windowMessage activeChain startHeight windowSize)).getHex

end Sharecoin.Rpc
