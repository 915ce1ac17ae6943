import Mathlib.Data.List.AList
import Sharecoin.Primitives.Transaction

/-! The coins views: a bottom map of unspent outputs and any number of
`CCoinsViewCache` layers over it. Reading through a layer fills it, so every
operation returns the view it leaves. The running estimate of memory use is left
out. -/

set_option autoImplicit false

namespace Sharecoin

open Lib

/-! ## Coins -/

/-- A transaction output with its origin. The height is a 31 bit field. -/
structure Coin where
  out : CTxOut := {}
  fCoinBase : Bool := false
  nHeight : BitVec 31 := 0
deriving DecidableEq

namespace Coin

def ofOutput (out : CTxOut) (nHeight : Int) (fCoinBase : Bool) : Coin :=
  ⟨out, fCoinBase, BitVec.ofInt 31 nHeight⟩

def isSpent (coin : Coin) : Bool := coin.out.isNull

end Coin

def coinEmpty : Coin := {}

/-! ## Errors -/

inductive CoinsError where
  | addSpentCoin
  | overwriteUnspent
  | freshMisapplied
  | flaggedEntriesLeft
  | nullBlockHash
deriving DecidableEq

/-! ## The bottom view -/

/-- The coin records at the bottom of a stack. No record is a spent coin. -/
structure CoinsDB where
  coins : AList fun _ : COutPoint => Coin
  unspent : ∀ outpoint coin, coins.lookup outpoint = some coin → coin.isSpent = false
  bestBlock : Uint256 := .zero

def CoinsDB.single (outpoint : COutPoint) (coin : Coin) (unspent : coin.isSpent = false)
    (bestBlock : Uint256 := .zero) : CoinsDB where
  coins := AList.singleton outpoint coin
  unspent := by
    intro other found read
    rw [← AList.insert_empty] at read
    by_cases same : other = outpoint
    · rw [same, AList.lookup_insert] at read
      cases read
      exact unspent
    · rw [AList.lookup_insert_ne same, AList.lookup_empty] at read
      cases read
  bestBlock

/-! ## One layer -/

structure CCoinsCacheEntry where
  coin : Coin := coinEmpty
  dirty : Bool := false
  fresh : Bool := false
deriving DecidableEq

def CCoinsCacheEntry.flagged (entry : CCoinsCacheEntry) : Bool := entry.dirty || entry.fresh

def CCoinsCacheEntry.dirtyWeight (entry : CCoinsCacheEntry) : Nat := if entry.dirty then 1 else 0

/-- The linked list of flagged entries is the list of their outpoints, in order. -/
structure CCoinsViewCache where
  cacheCoins : AList fun _ : COutPoint => CCoinsCacheEntry := ∅
  mSentinel : List COutPoint := []
  mDirtyCount : Nat := 0
  mBlockHash : Uint256 := .zero

namespace CCoinsViewCache

variable (layer : CCoinsViewCache) (outpoint : COutPoint)

def put (entry : CCoinsCacheEntry) : CCoinsViewCache :=
  { layer with
    cacheCoins := layer.cacheCoins.insert outpoint entry
    mSentinel :=
      if entry.flagged && !((layer.cacheCoins.lookup outpoint).any CCoinsCacheEntry.flagged) then
        layer.mSentinel ++ [outpoint]
      else layer.mSentinel }

/-- Erases an entry, whose destructor takes it out of the list. -/
def erase : CCoinsViewCache :=
  { layer with
    cacheCoins := layer.cacheCoins.erase outpoint
    mSentinel := layer.mSentinel.erase outpoint }

def addCoin (coin : Coin) (possibleOverwrite : Bool) : Except CoinsError CCoinsViewCache :=
  if coin.isSpent then .error .addSpentCoin
  else if CScript.isUnspendable coin.out.scriptPubKey then .ok layer
  else
    let entry := (layer.cacheCoins.lookup outpoint).getD {}
    if !possibleOverwrite && !entry.coin.isSpent then .error .overwriteUnspent
    else
      -- an entry whose spentness is not flushed yet must not become fresh
      let fresh := !possibleOverwrite && !entry.dirty
      let added := layer.put outpoint { coin, dirty := true, fresh := entry.fresh || fresh }
      .ok { added with mDirtyCount := layer.mDirtyCount - entry.dirtyWeight + 1 }

def spendEntry (entry : CCoinsCacheEntry) : CCoinsViewCache :=
  let count := layer.mDirtyCount - entry.dirtyWeight
  if entry.fresh then { layer.erase outpoint with mDirtyCount := count }
  else
    { layer.put outpoint { coin := coinEmpty, dirty := true, fresh := entry.fresh } with
      mDirtyCount := count + 1 }

def uncache : CCoinsViewCache :=
  match layer.cacheCoins.lookup outpoint with
  | none => layer
  | some entry => if entry.dirty then layer else layer.erase outpoint

/-- The body of `BatchWrite` for one entry of the child. -/
def writeEntry (child : CCoinsCacheEntry) : Except CoinsError CCoinsViewCache :=
  if !child.dirty then .ok layer
  else
    match layer.cacheCoins.lookup outpoint with
    | none =>
      if child.fresh && child.coin.isSpent then .ok layer
      else
        let entry := { coin := child.coin, dirty := true, fresh := child.fresh }
        .ok { layer.put outpoint entry with mDirtyCount := layer.mDirtyCount + 1 }
    | some us =>
      if child.fresh && !us.coin.isSpent then .error .freshMisapplied
      else if us.fresh && child.coin.isSpent then
        .ok { layer.erase outpoint with mDirtyCount := layer.mDirtyCount - us.dirtyWeight }
      else
        let entry := { coin := child.coin, dirty := true, fresh := us.fresh }
        .ok { layer.put outpoint entry with
          mDirtyCount := layer.mDirtyCount + if us.dirty then 0 else 1 }

def cursor : List (COutPoint × CCoinsCacheEntry) :=
  layer.mSentinel.filterMap fun outpoint =>
    (layer.cacheCoins.lookup outpoint).map (outpoint, ·)

def nextAndMaybeErase : CCoinsViewCache :=
  match layer.cacheCoins.lookup outpoint with
  | none => layer
  | some entry =>
    let settled :=
      if entry.coin.isSpent then layer.erase outpoint
      else
        { layer with
          cacheCoins := layer.cacheCoins.insert outpoint { coin := entry.coin }
          mSentinel := layer.mSentinel.erase outpoint }
    { settled with mDirtyCount := layer.mDirtyCount - entry.dirtyWeight }

def cleared : CCoinsViewCache :=
  { layer with
    cacheCoins := ∅
    mSentinel := []
    mDirtyCount := layer.cursor.foldl (fun count entry => count - entry.2.dirtyWeight) layer.mDirtyCount }

/-- `SanityCheck`, as far as it is about flags. -/
def sanityCheck : Bool :=
  layer.cacheCoins.entries.all (fun record =>
      if record.2.coin.isSpent then record.2.dirty && !record.2.fresh
      else record.2.dirty || !record.2.fresh) &&
    layer.mSentinel.all (fun outpoint =>
      (layer.cacheCoins.lookup outpoint).any CCoinsCacheEntry.dirty) &&
    (layer.cacheCoins.entries.countP fun record => record.2.dirty) == layer.mSentinel.length &&
    layer.mSentinel.length == layer.mDirtyCount

end CCoinsViewCache

/-! ## Views -/

/-- A stack of views. Operations that only caches have leave the bottom view alone. -/
inductive CCoinsView where
  | db (base : CoinsDB)
  | cache (layer : CCoinsViewCache) (base : CCoinsView)

namespace CCoinsView

/-- `FetchCoin`. On a miss it takes what the base view answers, and the base view as
that answer leaves it. -/
def fetchCoin (layer : CCoinsViewCache) (base : CCoinsView)
    (fromBase : Option Coin × CCoinsView) (outpoint : COutPoint) :
    Option CCoinsCacheEntry × CCoinsViewCache × CCoinsView :=
  match layer.cacheCoins.lookup outpoint with
  | some entry => (some entry, layer, base)
  | none =>
    match fromBase.1 with
    | some coin => (some { coin }, layer.put outpoint { coin }, fromBase.2)
    | none => (none, layer, fromBase.2)

def unspentCoin (entry : CCoinsCacheEntry) : Option Coin :=
  if entry.coin.isSpent then none else some entry.coin

def getCoin : CCoinsView → COutPoint → Option Coin × CCoinsView
  | .db base, outpoint => (base.coins.lookup outpoint, .db base)
  | .cache layer base, outpoint =>
    let (it, layer, base) := fetchCoin layer base (base.getCoin outpoint) outpoint
    (it.bind unspentCoin, .cache layer base)

def haveCoin (view : CCoinsView) (outpoint : COutPoint) : Bool × CCoinsView :=
  let (coin, view) := view.getCoin outpoint
  (coin.isSome, view)

/-- `AccessCoin`: the entry as it is, spent or not. -/
def accessCoin : CCoinsView → COutPoint → Coin × CCoinsView
  | .db base, outpoint => ((base.coins.lookup outpoint).getD coinEmpty, .db base)
  | .cache layer base, outpoint =>
    let (it, layer, base) := fetchCoin layer base (base.getCoin outpoint) outpoint
    (it.elim coinEmpty CCoinsCacheEntry.coin, .cache layer base)

def addCoin (view : CCoinsView) (outpoint : COutPoint) (coin : Coin) (possibleOverwrite : Bool) :
    Except CoinsError CCoinsView :=
  match view with
  | .db base => .ok (.db base)
  | .cache layer base =>
    match layer.addCoin outpoint coin possibleOverwrite with
    | .error error => .error error
    | .ok layer => .ok (.cache layer base)

/-- `SpendCoin`: the coin it moves out, or `none` where it returns false. -/
def spendCoin (view : CCoinsView) (outpoint : COutPoint) : Option Coin × CCoinsView :=
  match view with
  | .db base => (none, .db base)
  | .cache layer base =>
    match fetchCoin layer base (base.getCoin outpoint) outpoint with
    | (none, layer, base) => (none, .cache layer base)
    | (some entry, layer, base) => (some entry.coin, .cache (layer.spendEntry outpoint entry) base)

def uncache (view : CCoinsView) (outpoint : COutPoint) : CCoinsView :=
  match view with
  | .db base => .db base
  | .cache layer base => .cache (layer.uncache outpoint) base

end CCoinsView

/-! ## Writing back -/

def CoinsDB.writeEntry (db : CoinsDB) (outpoint : COutPoint) (child : CCoinsCacheEntry) : CoinsDB :=
  if !child.dirty then db
  else if spent : child.coin.isSpent = true then
    { db with
      coins := db.coins.erase outpoint
      unspent := by
        intro other coin found
        by_cases same : other = outpoint
        · rw [same, AList.lookup_erase] at found
          cases found
        · rw [AList.lookup_erase_ne same] at found
          exact db.unspent other coin found }
  else
    { db with
      coins := db.coins.insert outpoint child.coin
      unspent := by
        intro other coin found
        by_cases same : other = outpoint
        · rw [same, AList.lookup_insert] at found
          cases found
          exact Bool.eq_false_iff.mpr spent
        · rw [AList.lookup_insert_ne same] at found
          exact db.unspent other coin found }

namespace CCoinsViewCache

def writeEntries : List (COutPoint × CCoinsCacheEntry) → CCoinsViewCache → Except CoinsError CCoinsViewCache
  | [], layer => .ok layer
  | (outpoint, child) :: entries, layer =>
    match layer.writeEntry outpoint child with
    | .error error => .error error
    | .ok layer => writeEntries entries layer

end CCoinsViewCache

namespace CCoinsView

/-- The bottom view may be any map of coins. `CCoinsViewDB` asserts that a block is named. -/
def batchWrite (view : CCoinsView) (entries : List (COutPoint × CCoinsCacheEntry)) (blockHash : Uint256)
    (isDatabase : Bool := false) : Except CoinsError CCoinsView :=
  match view with
  | .db base =>
    let written := entries.foldl (fun db entry => db.writeEntry entry.1 entry.2) base
    if isDatabase && blockHash.isNull then .error .nullBlockHash
    else .ok (.db { written with bestBlock := blockHash })
  | .cache layer base =>
    match CCoinsViewCache.writeEntries entries layer with
    | .error error => .error error
    | .ok layer => .ok (.cache { layer with mBlockHash := blockHash } base)

def flush (view : CCoinsView) (isDatabase : Bool := false) : Except CoinsError CCoinsView :=
  match view with
  | .db base => .ok (.db base)
  | .cache layer base =>
    match base.batchWrite layer.cursor layer.mBlockHash isDatabase with
    | .error error => .error error
    | .ok base => .ok (.cache layer.cleared base)

def sync (view : CCoinsView) (isDatabase : Bool := false) : Except CoinsError CCoinsView :=
  match view with
  | .db base => .ok (.db base)
  | .cache layer base =>
    match base.batchWrite layer.cursor layer.mBlockHash isDatabase with
    | .error error => .error error
    | .ok base =>
      let settled := layer.mSentinel.foldl CCoinsViewCache.nextAndMaybeErase layer
      if settled.mSentinel.isEmpty then .ok (.cache settled base)
      else .error .flaggedEntriesLeft

def reset : CCoinsView → CCoinsView
  | .db base => .db base
  | .cache _ base => .cache {} base

/-! ## The block a view belongs to -/

def getBestBlock : CCoinsView → Uint256 × CCoinsView
  | .db base => (base.bestBlock, .db base)
  | .cache layer base =>
    if layer.mBlockHash.isNull then
      let (blockHash, base) := base.getBestBlock
      (blockHash, .cache { layer with mBlockHash := blockHash } base)
    else (layer.mBlockHash, .cache layer base)

def setBestBlock (view : CCoinsView) (blockHash : Uint256) : CCoinsView :=
  match view with
  | .db base => .db base
  | .cache layer base => .cache { layer with mBlockHash := blockHash } base

end CCoinsView

end Sharecoin
