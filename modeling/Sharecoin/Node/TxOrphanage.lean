import Sharecoin.Lib.Tally
import Sharecoin.Policy.FeeRate
import Sharecoin.Primitives.Block
import Mathlib.Data.List.AList

/-! The transaction orphanage: announcements of orphans by peers, the counters and indexes
kept beside them, and the eviction that keeps the whole within its limits. Weights are below
`2 ^ 31` for every transaction a message can carry, so they are plain numbers here. -/

set_option autoImplicit false

namespace Sharecoin

open Lib

abbrev NodeId := Int

def getTransactionWeight (tx : CTransaction) : Nat :=
  (tx.serialize false).length * (WITNESS_SCALE_FACTOR - 1) + (tx.serialize true).length

/-- A transaction with its identifiers, which are computed when it is made. -/
structure CTransactionRef (sha256d : Bytes → Uint256) where
  tx : CTransaction
  hash : Uint256
  witnessHash : Uint256
  hash_eq : hash = tx.getHash sha256d
  witnessHash_eq : witnessHash = tx.getWitnessHash sha256d
deriving DecidableEq

variable {sha256d : Bytes → Uint256}

structure Announcement (sha256d : Bytes → Uint256) where
  tx : CTransactionRef sha256d
  announcer : NodeId
  entrySequence : Nat
  reconsider : Bool := false
deriving DecidableEq

namespace Announcement

def getMemUsage (ann : Announcement sha256d) : Int := getTransactionWeight ann.tx.tx

def getLatencyScore (ann : Announcement sha256d) : Nat := 1 + ann.tx.tx.vin.length / 10

def byWtxid (ann : Announcement sha256d) : Uint256 × NodeId := (ann.tx.witnessHash, ann.announcer)

def byPeer (ann : Announcement sha256d) : NodeId × Bool × Nat :=
  (ann.announcer, ann.reconsider, ann.entrySequence)

/-- Whether an announcement of one peer comes after another one in the index by peer:
those to reconsider come last, then the more recent ones. -/
def laterFromPeer (left right : Announcement sha256d) : Bool :=
  (right.reconsider < left.reconsider) ||
    (left.reconsider == right.reconsider && decide (right.entrySequence < left.entrySequence))

end Announcement

structure PeerDoSInfo where
  totalUsage : Int := 0
  countAnnouncements : Nat := 0
  totalLatencyScore : Nat := 0
deriving DecidableEq

/-- How a call can leave the paths on which the source continues. -/
inductive OrphanageFailure where
  | limitNotPositive
  | emptyHeap
  | worstPeerWithinLimits
  | unknownPeer
  | noAnnouncement
  | outOfFuel
deriving DecidableEq

namespace PeerDoSInfo

def add (info : PeerDoSInfo) (ann : Announcement sha256d) : PeerDoSInfo :=
  { totalUsage := info.totalUsage + ann.getMemUsage
    countAnnouncements := info.countAnnouncements + 1
    totalLatencyScore := info.totalLatencyScore + ann.getLatencyScore }

def subtract (info : PeerDoSInfo) (ann : Announcement sha256d) : PeerDoSInfo :=
  { totalUsage := info.totalUsage - ann.getMemUsage
    countAnnouncements := info.countAnnouncements - 1
    totalLatencyScore := info.totalLatencyScore - ann.getLatencyScore }

/-- The sizes of the two fractions are of type `int32_t`. -/
def getDosScore (info : PeerDoSInfo) (maxPeerLatencyScore : Nat) (maxPeerMemory : Int) :
    Except OrphanageFailure FeeFrac :=
  if ¬ 0 < maxPeerLatencyScore ∨ ¬ 0 < maxPeerMemory then throw .limitNotPositive
  else
    let latencyScore : FeeFrac := ⟨info.totalLatencyScore, wrap32 maxPeerLatencyScore⟩
    let memScore : FeeFrac := ⟨info.totalUsage, wrap32 maxPeerMemory⟩
    return latencyScore.maxByRatioNegSize memScore

end PeerDoSInfo

structure OrphanageLimits where
  maxGlobalLatencyScore : Nat
  reservedUsagePerPeer : Int
deriving DecidableEq

structure TxOrphanage (sha256d : Bytes → Uint256) where
  currentSequence : Nat := 0
  orphans : List (Announcement sha256d) := []
  uniqueOrphans : Nat := 0
  uniqueOrphanUsage : Int := 0
  uniqueRoundedInputScores : Nat := 0
  outpointToOrphanWtxids : AList fun _ : COutPoint => List Uint256 := ∅
  reconsiderableWtxids : List Uint256 := []
  peerOrphanageInfo : AList fun _ : NodeId => PeerDoSInfo := ∅

/-- The calls of the orphanage that change it. `randrange` gives the random numbers a call
draws, to be reduced to their range. -/
inductive OrphanageCall (sha256d : Bytes → Uint256) where
  | addTx (tx : CTransactionRef sha256d) (peer : NodeId)
  | addAnnouncer (wtxid : Uint256) (peer : NodeId)
  | eraseTx (wtxid : Uint256)
  | eraseForPeer (peer : NodeId)
  | eraseForBlock (block : CBlock)
  | addChildrenToWorkSet (tx : CTransactionRef sha256d) (randrange : Nat → Nat)
  | getTxToReconsider (peer : NodeId)

namespace TxOrphanage

variable (limits : OrphanageLimits) (orphanage : TxOrphanage sha256d)

/-! ## Sizes and limits -/

def announcementsOf (wtxid : Uint256) : List (Announcement sha256d) :=
  orphanage.orphans.filter fun ann => ann.tx.witnessHash = wtxid

def announcementsFrom (peer : NodeId) : List (Announcement sha256d) :=
  orphanage.orphans.filter fun ann => ann.announcer = peer

def haveTx (wtxid : Uint256) : Bool :=
  !(orphanage.announcementsOf wtxid).isEmpty

def isUnique (ann : Announcement sha256d) : Bool :=
  (orphanage.announcementsOf ann.tx.witnessHash).length == 1

def totalLatencyScore : Nat :=
  orphanage.uniqueRoundedInputScores + orphanage.orphans.length

def usageByPeer (peer : NodeId) : Int :=
  ((orphanage.peerOrphanageInfo.lookup peer).map PeerDoSInfo.totalUsage).getD 0

def latencyScoreFromPeer (peer : NodeId) : Nat :=
  ((orphanage.peerOrphanageInfo.lookup peer).map PeerDoSInfo.totalLatencyScore).getD 0

def maxPeerLatencyScore : Nat :=
  limits.maxGlobalLatencyScore / max orphanage.peerOrphanageInfo.keys.length 1

def maxGlobalUsage : Int :=
  limits.reservedUsagePerPeer * max orphanage.peerOrphanageInfo.keys.length 1

def needsTrim : Bool :=
  decide (orphanage.totalLatencyScore > limits.maxGlobalLatencyScore) ||
    decide (orphanage.uniqueOrphanUsage > orphanage.maxGlobalUsage limits)

/-! ## Removing announcements -/

/-- Takes a wtxid out of the set of one outpoint, and the set out of the index when it
is empty. -/
def eraseReference (wtxid : Uint256) (index : AList fun _ : COutPoint => List Uint256)
    (prevout : COutPoint) : AList fun _ : COutPoint => List Uint256 :=
  match index.lookup prevout with
  | none => index
  | some wtxids =>
    if (wtxids.erase wtxid).isEmpty then index.erase prevout
    else index.insert prevout (wtxids.erase wtxid)

/-- The part of `Erase` that runs for the last announcement of a transaction. -/
def eraseUnique (ann : Announcement sha256d) : TxOrphanage sha256d :=
  { orphanage with
    uniqueOrphans := orphanage.uniqueOrphans - 1
    uniqueRoundedInputScores := orphanage.uniqueRoundedInputScores - (ann.getLatencyScore - 1)
    uniqueOrphanUsage := orphanage.uniqueOrphanUsage - ann.getMemUsage
    outpointToOrphanWtxids := (ann.tx.tx.vin.map CTxIn.prevout).foldl
      (eraseReference ann.tx.witnessHash) orphanage.outpointToOrphanWtxids }

/-- The part of `Erase` that updates the announcer's entry. -/
def erasePeerInfo (info : AList fun _ : NodeId => PeerDoSInfo) (ann : Announcement sha256d) :
    AList fun _ : NodeId => PeerDoSInfo :=
  match info.lookup ann.announcer with
  | none => info
  | some peer =>
    if (peer.subtract ann).countAnnouncements = 0 then info.erase ann.announcer
    else info.insert ann.announcer (peer.subtract ann)

def erase (ann : Announcement sha256d) : TxOrphanage sha256d :=
  let shared := if orphanage.isUnique ann then orphanage.eraseUnique ann else orphanage
  { shared with
    peerOrphanageInfo := erasePeerInfo orphanage.peerOrphanageInfo ann
    reconsiderableWtxids :=
      if ann.reconsider then orphanage.reconsiderableWtxids.erase ann.tx.witnessHash
      else orphanage.reconsiderableWtxids
    orphans := orphanage.orphans.erase ann }

def eraseTxInternal (wtxid : Uint256) : TxOrphanage sha256d :=
  (orphanage.announcementsOf wtxid).foldl erase orphanage

/-! ## Keeping the limits -/

/-- `compare_score`: whether the first peer is less to blame. -/
def compareScore (left right : NodeId × FeeFrac) : Bool :=
  if left.2 ≠ right.2 then left.2.compareByRatioNegSize right.2 == .lt
  else decide (left.1 < right.1)

def oldestFrom (peer : NodeId) : Option (Announcement sha256d) :=
  greatest Announcement.laterFromPeer (orphanage.announcementsFrom peer)

/-- The inner loop of `LimitOrphans`, which evicts announcements of one peer. -/
def evictFrom (limits : OrphanageLimits) (maxLat : Nat) (maxMem : Int) (worstPeer : NodeId)
    (dosThreshold : FeeFrac) : Nat → TxOrphanage sha256d → Except OrphanageFailure (TxOrphanage sha256d)
  | 0, orphanage => if orphanage.needsTrim limits then throw .outOfFuel else return orphanage
  | fuel + 1, orphanage =>
    if orphanage.needsTrim limits then
      match orphanage.oldestFrom worstPeer with
      | none => throw .noAnnouncement
      | some ann =>
        match (orphanage.erase ann).peerOrphanageInfo.lookup worstPeer with
        | none => return orphanage.erase ann
        | some info => do
          let score ← info.getDosScore maxLat maxMem
          if score.compareByRatioNegSize dosThreshold ≠ .gt then return orphanage.erase ann
          else evictFrom limits maxLat maxMem worstPeer dosThreshold fuel (orphanage.erase ann)
    else return orphanage

/-- The outer loop of `LimitOrphans`. The heap is a list of which the worst is taken. -/
def evictWorst (limits : OrphanageLimits) (maxLat : Nat) (maxMem : Int) :
    Nat → List (NodeId × FeeFrac) → TxOrphanage sha256d → Except OrphanageFailure (TxOrphanage sha256d)
  | 0, _, _ => throw .outOfFuel
  | fuel + 1, heap, orphanage =>
    match greatest compareScore heap with
    | none => throw .emptyHeap
    | some worst => do
      if worst.2.compareByRatio ⟨1, 1⟩ ≠ .gt then throw .worstPeerWithinLimits
      if (orphanage.peerOrphanageInfo.lookup worst.1).isNone then throw .unknownPeer
      let rest := heap.erase worst
      let dosThreshold := ((greatest compareScore rest).map Prod.snd).getD ⟨1, 1⟩
      let next ← evictFrom limits maxLat maxMem worst.1 dosThreshold orphanage.orphans.length orphanage
      if ¬ next.needsTrim limits then return next
      match next.peerOrphanageInfo.lookup worst.1 with
      | none => evictWorst limits maxLat maxMem fuel rest next
      | some info =>
        if 0 < info.countAnnouncements then
          let score ← info.getDosScore maxLat maxMem
          evictWorst limits maxLat maxMem fuel ((worst.1, score) :: rest) next
        else evictWorst limits maxLat maxMem fuel rest next

/-- The peers whose score is above one. -/
def offenders (maxLat : Nat) (maxMem : Int) : List ((_ : NodeId) × PeerDoSInfo) →
    Except OrphanageFailure (List (NodeId × FeeFrac))
  | [] => return []
  | ⟨peer, info⟩ :: peers => do
    let score ← info.getDosScore maxLat maxMem
    let rest ← offenders maxLat maxMem peers
    return if score.compareByRatio ⟨1, 1⟩ = .gt then (peer, score) :: rest else rest

/-- Every round evicts an announcement, so there are at most as many rounds as
announcements. -/
def limitOrphans : Except OrphanageFailure (TxOrphanage sha256d) :=
  if orphanage.needsTrim limits then do
    let maxLat := orphanage.maxPeerLatencyScore limits
    let maxMem := limits.reservedUsagePerPeer
    let heap ← offenders maxLat maxMem orphanage.peerOrphanageInfo.entries
    evictWorst limits maxLat maxMem orphanage.orphans.length heap orphanage
  else return orphanage

/-! ## The calls -/

/-- Adds an announcement to the set and to its peer's entry. -/
def announce (ann : Announcement sha256d) : TxOrphanage sha256d :=
  { orphanage with
    currentSequence := orphanage.currentSequence + 1
    orphans := ann :: orphanage.orphans
    peerOrphanageInfo := orphanage.peerOrphanageInfo.insert ann.announcer
      (((orphanage.peerOrphanageInfo.lookup ann.announcer).getD {}).add ann) }

/-- Whether an announcement has both its keys to itself, so that it can be emplaced. -/
def emplaceable (ann : Announcement sha256d) : Bool :=
  orphanage.orphans.all fun other => other.byWtxid != ann.byWtxid && other.byPeer != ann.byPeer

def addReference (wtxid : Uint256) (index : AList fun _ : COutPoint => List Uint256)
    (prevout : COutPoint) : AList fun _ : COutPoint => List Uint256 :=
  index.insert prevout (((index.lookup prevout).getD []).insert wtxid)

/-- The part of `AddTx` that runs for a transaction that is brand new. -/
def addUnique (ann : Announcement sha256d) : TxOrphanage sha256d :=
  { orphanage with
    uniqueOrphans := orphanage.uniqueOrphans + 1
    uniqueOrphanUsage := orphanage.uniqueOrphanUsage + ann.getMemUsage
    uniqueRoundedInputScores := orphanage.uniqueRoundedInputScores + (ann.getLatencyScore - 1)
    outpointToOrphanWtxids := (ann.tx.tx.vin.map CTxIn.prevout).foldl
      (addReference ann.tx.witnessHash) orphanage.outpointToOrphanWtxids }

/-- What a call does before `LimitOrphans`, and whether it gets there. -/
def addTx (tx : CTransactionRef sha256d) (peer : NodeId) : TxOrphanage sha256d × Bool :=
  if (getTransactionWeight tx.tx : Int) > MAX_STANDARD_TX_WEIGHT then (orphanage, false)
  else
    let ann : Announcement sha256d := ⟨tx, peer, orphanage.currentSequence, false⟩
    if !orphanage.emplaceable ann then (orphanage, false)
    else if orphanage.haveTx tx.witnessHash then (orphanage.announce ann, true)
    else ((orphanage.announce ann).addUnique ann, true)

def addAnnouncer (wtxid : Uint256) (peer : NodeId) : TxOrphanage sha256d × Bool :=
  match orphanage.announcementsOf wtxid with
  | [] => (orphanage, false)
  | known :: _ =>
    let ann : Announcement sha256d := ⟨known.tx, peer, orphanage.currentSequence, false⟩
    if !orphanage.emplaceable ann then (orphanage, false) else (orphanage.announce ann, true)

def eraseForPeer (peer : NodeId) : TxOrphanage sha256d × Bool :=
  if (orphanage.announcementsFrom peer).isEmpty then (orphanage, false)
  else ((orphanage.announcementsFrom peer).foldl erase orphanage, true)

/-- The wtxids of the orphans that spend an outpoint a block spends. -/
def wtxidsToErase (block : CBlock) : List Uint256 :=
  (block.vtx.flatMap fun tx => tx.vin.flatMap fun txin =>
    (orphanage.outpointToOrphanWtxids.lookup txin.prevout).getD []).dedup

def eraseForBlock (block : CBlock) : TxOrphanage sha256d × Bool :=
  if orphanage.orphans.isEmpty then (orphanage, false)
  else ((orphanage.wtxidsToErase block).foldl eraseTxInternal orphanage, true)

def setReconsider (ann : Announcement sha256d) (reconsider : Bool) : TxOrphanage sha256d :=
  { orphanage with
    orphans := orphanage.orphans.map fun other =>
      if other = ann then { other with reconsider := reconsider } else other }

/-- Marks an announcement of an orphan for reconsideration, of a peer drawn at random. -/
def markChild (random : Nat) (orphanage : TxOrphanage sha256d) (wtxid : Uint256) : TxOrphanage sha256d :=
  if orphanage.reconsiderableWtxids.contains wtxid then orphanage
  else
    match (orphanage.announcementsOf wtxid)[random % (orphanage.announcementsOf wtxid).length]? with
    | none => orphanage
    | some ann =>
      { orphanage.setReconsider ann true with
        reconsiderableWtxids := orphanage.reconsiderableWtxids.insert wtxid }

def addChildrenToWorkSet (tx : CTransactionRef sha256d) (randrange : Nat → Nat) : TxOrphanage sha256d :=
  let children := (List.range tx.tx.vout.length).flatMap fun i =>
    (orphanage.outpointToOrphanWtxids.lookup ⟨tx.hash, .ofNat i⟩).getD []
  children.zipIdx.foldl (fun orphanage child => orphanage.markChild (randrange child.2) child.1)
    orphanage

def getTxToReconsider (peer : NodeId) : Option (CTransactionRef sha256d) × TxOrphanage sha256d :=
  match greatest Announcement.laterFromPeer ((orphanage.announcementsFrom peer).filter Announcement.reconsider) with
  | none => (none, orphanage)
  | some ann =>
    (some ann.tx, { orphanage.setReconsider ann false with
      reconsiderableWtxids := orphanage.reconsiderableWtxids.erase ann.tx.witnessHash })

/-- A call up to `LimitOrphans`, and whether it gets there. -/
def begin : OrphanageCall sha256d → TxOrphanage sha256d × Bool
  | .addTx tx peer => orphanage.addTx tx peer
  | .addAnnouncer wtxid peer => orphanage.addAnnouncer wtxid peer
  | .eraseTx wtxid => (orphanage.eraseTxInternal wtxid, true)
  | .eraseForPeer peer => orphanage.eraseForPeer peer
  | .eraseForBlock block => orphanage.eraseForBlock block
  | .addChildrenToWorkSet tx randrange => (orphanage.addChildrenToWorkSet tx randrange, false)
  | .getTxToReconsider peer => ((orphanage.getTxToReconsider peer).2, false)

def perform (call : OrphanageCall sha256d) : Except OrphanageFailure (TxOrphanage sha256d) :=
  let (changed, limited) := orphanage.begin call
  if limited then changed.limitOrphans limits else return changed

end TxOrphanage

end Sharecoin
