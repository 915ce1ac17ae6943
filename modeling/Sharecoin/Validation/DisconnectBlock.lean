import Sharecoin.Validation.ConnectBlock

/-! `DisconnectBlock`: the outputs of a block are taken out of a coins view and the
coins it spent are put back from its undo data, last transaction first. -/

set_option autoImplicit false

namespace Sharecoin

open Lib Program

inductive DisconnectResult where
  | disconnectOk
  | disconnectUnclean
  | disconnectFailed
deriving DecidableEq

/-- A failure of a `DisconnectM` program is `DISCONNECT_FAILED`; what it returns is
whether everything was clean so far. -/
abbrev DisconnectM := ViewM Unit Bool

/-- Undo data without a height takes it, and the coinbase mark, from another output of
the same transaction. -/
def fillUndo (undo : Coin) (out : COutPoint) : ViewM Unit Coin :=
  if undo.nHeight = 0 then do
    let alternate ← ViewM.accessByTxid out.hash
    require (!alternate.isSpent) ()
    pure { undo with nHeight := alternate.nHeight, fCoinBase := alternate.fCoinBase }
  else pure undo

def applyTxInUndo (undo : Coin) (out : COutPoint) : DisconnectM := do
  let overwrites ← ViewM.haveCoin out
  let undo ← fillUndo undo out
  ViewM.addCoin out undo overwrites
  pure (!overwrites)

def restoreInputs : List (CTxIn × Coin) → DisconnectM :=
  allOf fun input => applyTxInUndo input.2 input.1.prevout

def matchesOutput (txout : CTxOut) (nHeight : Int) (isCoinbase : Bool) : Option Coin → Bool
  | none => false
  | some coin =>
    decide (txout = coin.out) && decide (nHeight = coin.nHeight.toNat) && isCoinbase == coin.fCoinBase

/-- Spends the outputs from `o` on and compares them with the block's. -/
def removeOutputs (txid : Uint256) (nHeight : Int) (isCoinbase isBip30Exception : Bool) :
    Nat → List CTxOut → DisconnectM
  | _, [] => pure true
  | o, txout :: vout => do
    let fClean ← (if CScript.isUnspendable txout.scriptPubKey then pure true
      else do
        let moved ← ViewM.spendCoin ⟨txid, UInt32.ofNat o⟩
        pure (matchesOutput txout nHeight isCoinbase moved || isBip30Exception))
    let rest ← removeOutputs txid nHeight isCoinbase isBip30Exception (o + 1) vout
    pure (fClean && rest)

def isBIP30Unspendable (blockHash : Uint256) (blockHeight : Int) : Bool :=
  (decide (blockHeight = 91722) && decide (blockHash =
      .ofNat 0x00000000000271a2dc26e7667f8419f2e15416dc6955e5a6c6cdf3f2574dd08e)) ||
    (decide (blockHeight = 91812) && decide (blockHash =
      .ofNat 0x00000000000af0aed4792b1acee3d966af36cf5def14935db8de83d6f9306f2f))

section Disconnect

variable (sha256d : Bytes → Uint256) (nHeight : Int) (fEnforceBIP30 : Bool)

def disconnectTransaction (tx : CTransaction) (undo : Option CTxUndo) : DisconnectM := do
  let isBip30Exception := tx.isCoinBase && !fEnforceBIP30
  let outputs ← removeOutputs (tx.getHash sha256d) nHeight tx.isCoinBase isBip30Exception 0 tx.vout
  match undo with
  | none => pure outputs
  | some txundo => do
    require (txundo.vprevout.length = tx.vin.length) ()
    let inputs ← restoreInputs (tx.vin.zip txundo.vprevout).reverse
    pure (outputs && inputs)

def disconnectTransactions : List (CTransaction × Option CTxUndo) → DisconnectM :=
  allOf fun record => disconnectTransaction sha256d nHeight fEnforceBIP30 record.1 record.2

end Disconnect

def disconnectRecords (sha256d : Bytes → Uint256) (block : CBlock) (pindex : Uint256)
    (entry : CBlockIndex) (blockUndo : Option CBlockUndo) : DisconnectM :=
  match blockUndo with
  | none => throw ()
  | some undo => do
    require (undo.vtxundo.length + 1 = block.vtx.length) ()
    let records := block.vtx.zip (none :: undo.vtxundo.map some)
    let fClean ← disconnectTransactions sha256d entry.nHeight (!isBIP30Unspendable pindex entry.nHeight) records.reverse
    match entry.pprev with
    | none => abort (.assertion "pindex->pprev")
    | some pprev => do
      ViewM.setBestBlock pprev
      pure fClean

/-- `DisconnectBlock` with what `ReadBlockUndo` returned. -/
def disconnectBlock (sha256d : Bytes → Uint256) (block : CBlock) (pindex : Uint256)
    (entry : CBlockIndex) (blockUndo : Option CBlockUndo) (view : CCoinsView) :
    Except Abort (DisconnectResult × CCoinsView) :=
  match (disconnectRecords sha256d block pindex entry blockUndo).exec view with
  | .error error => .error error
  | .ok (.error (), view) => .ok (.disconnectFailed, view)
  | .ok (.ok true, view) => .ok (.disconnectOk, view)
  | .ok (.ok false, view) => .ok (.disconnectUnclean, view)

end Sharecoin
