import Sharecoin.Coins.Cache
import Sharecoin.Lib.Program

/-! Code that runs over a `CCoinsViewCache`: the operations of the view as programs,
and the functions of `coins.cpp` that work on whole transactions. -/

set_option autoImplicit false

namespace Sharecoin

open Lib

/-- What ends the process: an exception of the coins code, a failed assertion or an
exception elsewhere. -/
inductive Abort where
  | coins (error : CoinsError)
  | assertion (condition : String)
  | exception (message : String)
deriving DecidableEq

abbrev ViewM (φ α : Type) := Program CCoinsView Abort φ α

namespace ViewM

open Program

variable {φ : Type}

def haveCoin (outpoint : COutPoint) : ViewM φ Bool := onState fun view => view.haveCoin outpoint

def accessCoin (outpoint : COutPoint) : ViewM φ Coin := onState fun view => view.accessCoin outpoint

def spendCoin (outpoint : COutPoint) : ViewM φ (Option Coin) :=
  onState fun view => view.spendCoin outpoint

def addCoin (outpoint : COutPoint) (coin : Coin) (possibleOverwrite : Bool) : ViewM φ Unit :=
  change fun view =>
    match view.addCoin outpoint coin possibleOverwrite with
    | .error error => .error (.coins error)
    | .ok view => .ok view

def getBestBlock : ViewM φ Uint256 := onState CCoinsView.getBestBlock

def setBestBlock (blockHash : Uint256) : ViewM φ Unit :=
  onState fun view => ((), view.setBestBlock blockHash)

/-! ## Whole transactions -/

def haveAll : List CTxIn → ViewM φ Bool
  | [] => pure true
  | txin :: vin => do
    let found ← haveCoin txin.prevout
    if found then haveAll vin else pure false

def haveInputs (tx : CTransaction) : ViewM φ Bool :=
  if tx.isCoinBase then pure true else haveAll tx.vin

def spentOutputs : List CTxIn → ViewM φ (List CTxOut)
  | [] => pure []
  | txin :: vin => do
    let coin ← accessCoin txin.prevout
    insist (!coin.isSpent) (.assertion "!coin.IsSpent()")
    let outputs ← spentOutputs vin
    pure (coin.out :: outputs)

/-- The loop of `AddCoins`, from output `i` on. -/
def addOutputs (txid : Uint256) (nHeight : Int) (fCoinbase checkForOverwrite : Bool) : Nat → List CTxOut → ViewM φ Unit
  | _, [] => pure ()
  | i, txout :: vout => do
    let outpoint : COutPoint := ⟨txid, UInt32.ofNat i⟩
    -- coinbases may overwrite, for the duplicates from before BIP30
    let overwrite ← (if checkForOverwrite then haveCoin outpoint else pure fCoinbase)
    addCoin outpoint (.ofOutput txout nHeight fCoinbase) overwrite
    addOutputs txid nHeight fCoinbase checkForOverwrite (i + 1) vout

def addCoins (sha256d : Bytes → Uint256) (tx : CTransaction) (nHeight : Int)
    (checkForOverwrite : Bool) : ViewM φ Unit :=
  addOutputs (tx.getHash sha256d) nHeight tx.isCoinBase checkForOverwrite 0 tx.vout

def MIN_TRANSACTION_OUTPUT_WEIGHT : Nat :=
  WITNESS_SCALE_FACTOR * (CTxOut.serialize {}).length

def MAX_OUTPUTS_PER_BLOCK : Nat := MAX_BLOCK_WEIGHT / MIN_TRANSACTION_OUTPUT_WEIGHT

def accessOutputs (txid : Uint256) : Nat → Nat → ViewM φ Coin
  | 0, _ => pure coinEmpty
  | count + 1, n => do
    let alternate ← accessCoin ⟨txid, UInt32.ofNat n⟩
    if alternate.isSpent then accessOutputs txid count (n + 1) else pure alternate

def accessByTxid (txid : Uint256) : ViewM φ Coin := accessOutputs txid MAX_OUTPUTS_PER_BLOCK 0

end ViewM

end Sharecoin
