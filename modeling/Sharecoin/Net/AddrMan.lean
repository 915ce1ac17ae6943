import Mathlib.Data.List.AList
import Mathlib.Data.List.Sort
import Sharecoin.Uint256

/-! The address manager: addresses under increasing ids, the tables of new and tried addresses with
their buckets, and the counts and orders that are kept beside them. `none` stands for an assertion
that fails, and for a read of `mapInfo` or of a slot that is not there. Random choices and readings of
the clock are arguments. Logging and serialization are left out. -/

set_option autoImplicit false

namespace Sharecoin

inductive Network where
  | NET_UNROUTABLE | NET_IPV4 | NET_IPV6 | NET_ONION | NET_I2P | NET_CJDNS | NET_INTERNAL | NET_MAX
deriving DecidableEq

abbrev ADDRMAN_TRIED_BUCKET_COUNT : Nat := 2 ^ 8
abbrev ADDRMAN_NEW_BUCKET_COUNT : Nat := 2 ^ 10
abbrev ADDRMAN_BUCKET_SIZE : Nat := 2 ^ 6

def ADDRMAN_NEW_BUCKETS_PER_ADDRESS : Int := 8
def ADDRMAN_HORIZON : Int := 30 * 24 * 60 * 60
def ADDRMAN_RETRIES : Int := 3
def ADDRMAN_MAX_FAILURES : Int := 10
def ADDRMAN_MIN_FAIL : Int := 7 * 24 * 60 * 60
def ADDRMAN_REPLACEMENT : Int := 4 * 60 * 60
def ADDRMAN_SET_TRIED_COLLISION_SIZE : Nat := 10
def ADDRMAN_TEST_WINDOW : Int := 40 * 60

abbrev TriedSlot := Fin ADDRMAN_TRIED_BUCKET_COUNT × Fin ADDRMAN_BUCKET_SIZE
abbrev NewSlot := Fin ADDRMAN_NEW_BUCKET_COUNT × Fin ADDRMAN_BUCKET_SIZE

structure CService (NetAddr : Type) where
  host : NetAddr
  port : UInt16
deriving DecidableEq

structure CAddress (NetAddr : Type) where
  addr : CService NetAddr
  nTime : Int
  nServices : UInt64

structure AddrInfo (NetAddr : Type) extends CAddress NetAddr where
  source : NetAddr
  mLastTry : Int := 0
  mLastCountAttempt : Int := 0
  mLastSuccess : Int := 0
  nAttempts : Int := 0
  nRefCount : Int := 0
  fInTried : Bool := false
  nRandomPos : Nat

@[ext] structure NewTriedCount where
  nNew : Int := 0
  nTried : Int := 0
deriving DecidableEq

/-- What addresses answer, and where the hashes under the key put them. -/
structure NetGroups (NetAddr : Type) where
  isRoutable : NetAddr → Bool
  isValid : NetAddr → Bool
  getNetwork : NetAddr → Network
  getNetClass : NetAddr → Network
  getTriedBucket : Uint256 → CService NetAddr → Fin ADDRMAN_TRIED_BUCKET_COUNT
  getNewBucket : Uint256 → CService NetAddr → NetAddr → Fin ADDRMAN_NEW_BUCKET_COUNT
  getBucketPosition : Uint256 → Bool → Nat → CService NetAddr → Fin ADDRMAN_BUCKET_SIZE

namespace NetGroups

variable {NetAddr : Type} (groups : NetGroups NetAddr) (nKey : Uint256)

def triedSlot (addr : CService NetAddr) : TriedSlot :=
  let bucket := groups.getTriedBucket nKey addr
  (bucket, groups.getBucketPosition nKey false bucket addr)

def slotIn (addr : CService NetAddr) (bucket : Fin ADDRMAN_NEW_BUCKET_COUNT) : NewSlot :=
  (bucket, groups.getBucketPosition nKey true bucket addr)

def newSlot (addr : CService NetAddr) (source : NetAddr) : NewSlot :=
  groups.slotIn nKey addr (groups.getNewBucket nKey addr source)

end NetGroups

def AddrInfo.isTerrible {NetAddr : Type} (info : AddrInfo NetAddr) (now : Int) : Bool :=
  if now - info.mLastTry ≤ 60 then false
  else if info.nTime > now + 10 * 60 then true
  else if now - info.nTime > ADDRMAN_HORIZON then true
  else if info.mLastSuccess = 0 ∧ info.nAttempts ≥ ADDRMAN_RETRIES then true
  else
    decide (now - info.mLastSuccess > ADDRMAN_MIN_FAIL ∧ info.nAttempts ≥ ADDRMAN_MAX_FAILURES)

structure AddrMan (NetAddr : Type) where
  nKey : Uint256
  nIdCount : Nat := 0
  mapInfo : AList fun _ : Nat => AddrInfo NetAddr := ∅
  mapAddr : AList fun _ : CService NetAddr => Nat := ∅
  vRandom : List Nat := []
  nTried : Int := 0
  vvTried : TriedSlot → Option Nat := fun _ => none
  nNew : Int := 0
  vvNew : NewSlot → Option Nat := fun _ => none
  mLastGood : Int := 1
  mTriedCollisions : List Nat := []
  mNetworkCounts : AList fun _ : Network => NewTriedCount := ∅

namespace AddrMan

variable {NetAddr : Type} [DecidableEq NetAddr] (groups : NetGroups NetAddr) (addrman : AddrMan NetAddr)

/-! ## Entries -/

def setInfo (nId : Nat) (info : AddrInfo NetAddr) : AddrMan NetAddr :=
  { addrman with mapInfo := addrman.mapInfo.insert nId info }

def countNew (network : Network) (change : Int) : AddrMan NetAddr :=
  let counts := (addrman.mNetworkCounts.lookup network).getD {}
  { addrman with
    nNew := addrman.nNew + change
    mNetworkCounts := addrman.mNetworkCounts.insert network { counts with nNew := counts.nNew + change } }

def countTried (network : Network) (change : Int) : AddrMan NetAddr :=
  let counts := (addrman.mNetworkCounts.lookup network).getD {}
  { addrman with
    nTried := addrman.nTried + change
    mNetworkCounts := addrman.mNetworkCounts.insert network { counts with nTried := counts.nTried + change } }

def find (addr : CService NetAddr) : Option (Nat × AddrInfo NetAddr) := do
  let nId ← addrman.mapAddr.lookup addr
  let info ← addrman.mapInfo.lookup nId
  some (nId, info)

/-- `Create`; the new entry has the id `nIdCount`. -/
def create (address : CAddress NetAddr) (addrSource : NetAddr) : AddrMan NetAddr :=
  let nId := addrman.nIdCount
  let info : AddrInfo NetAddr := { address with source := addrSource, nRandomPos := addrman.vRandom.length }
  { addrman with
    nIdCount := nId + 1
    mapInfo := addrman.mapInfo.insert nId info
    mapAddr := addrman.mapAddr.insert address.addr nId
    vRandom := addrman.vRandom ++ [nId] }.countNew (groups.getNetwork address.addr.host) 1

def swapRandom (nRndPos1 nRndPos2 : Nat) : Option (AddrMan NetAddr) :=
  if nRndPos1 = nRndPos2 then some addrman
  else do
    let nId1 ← addrman.vRandom[nRndPos1]?
    let nId2 ← addrman.vRandom[nRndPos2]?
    let info1 ← addrman.mapInfo.lookup nId1
    let info2 ← addrman.mapInfo.lookup nId2
    some { addrman with
      mapInfo := (addrman.mapInfo.insert nId1 { info1 with nRandomPos := nRndPos2 }).insert nId2
        { info2 with nRandomPos := nRndPos1 }
      vRandom := (addrman.vRandom.set nRndPos1 nId2).set nRndPos2 nId1 }

def popEntry (nId : Nat) (addr : CService NetAddr) : AddrMan NetAddr :=
  let counted := addrman.countNew (groups.getNetwork addr.host) (-1)
  { counted with
    vRandom := counted.vRandom.dropLast
    mapAddr := counted.mapAddr.erase addr
    mapInfo := counted.mapInfo.erase nId }

def delete (nId : Nat) : Option (AddrMan NetAddr) := do
  let info ← addrman.mapInfo.lookup nId
  if info.fInTried = true ∨ info.nRefCount ≠ 0 then none
  else
    let swapped ← addrman.swapRandom info.nRandomPos (addrman.vRandom.length - 1)
    some (swapped.popEntry groups nId info.addr)

/-! ## Slots -/

def leaveSlot (nId : Nat) (info : AddrInfo NetAddr) (slot : NewSlot) : AddrMan NetAddr :=
  { addrman with
    mapInfo := addrman.mapInfo.insert nId { info with nRefCount := info.nRefCount - 1 }
    vvNew := Function.update addrman.vvNew slot none }

def enterSlot (nId : Nat) (info : AddrInfo NetAddr) (slot : NewSlot) (nRefCount : Int) : AddrMan NetAddr :=
  { addrman with
    mapInfo := addrman.mapInfo.insert nId { info with nRefCount }
    vvNew := Function.update addrman.vvNew slot (some nId) }

def clearNew (slot : NewSlot) : Option (AddrMan NetAddr) :=
  match addrman.vvNew slot with
  | none => some addrman
  | some nIdDelete => do
    let infoDelete ← addrman.mapInfo.lookup nIdDelete
    if infoDelete.nRefCount > 0 then
      let left := addrman.leaveSlot nIdDelete infoDelete slot
      if infoDelete.nRefCount - 1 = 0 then left.delete groups nIdDelete else some left
    else none

/-- The loop of `MakeTried` over the buckets, which stops with the last reference. -/
def leaveBuckets (nId : Nat) : List (Fin ADDRMAN_NEW_BUCKET_COUNT) → AddrMan NetAddr → Option (AddrMan NetAddr)
  | [], addrman => some addrman
  | bucket :: buckets, addrman => do
    let info ← addrman.mapInfo.lookup nId
    let slot := groups.slotIn addrman.nKey info.addr bucket
    if addrman.vvNew slot = some nId then
      let left := addrman.leaveSlot nId info slot
      if info.nRefCount - 1 = 0 then some left else leaveBuckets nId buckets left
    else leaveBuckets nId buckets addrman

def bucketsFrom (startBucket : Fin ADDRMAN_NEW_BUCKET_COUNT) : List (Fin ADDRMAN_NEW_BUCKET_COUNT) :=
  (List.finRange ADDRMAN_NEW_BUCKET_COUNT).map fun n => startBucket + n

def leaveTried (nId : Nat) (info : AddrInfo NetAddr) (slot : TriedSlot) : AddrMan NetAddr :=
  { addrman with
    mapInfo := addrman.mapInfo.insert nId { info with fInTried := false }
    vvTried := Function.update addrman.vvTried slot none }.countTried (groups.getNetwork info.addr.host) (-1)

def enterTried (nId : Nat) (info : AddrInfo NetAddr) (slot : TriedSlot) : AddrMan NetAddr :=
  { addrman with
    mapInfo := addrman.mapInfo.insert nId { info with fInTried := true }
    vvTried := Function.update addrman.vvTried slot (some nId) }.countTried (groups.getNetwork info.addr.host) 1

/-- Moves the entry of a tried slot, if there is one, back to the new addresses. -/
def evictTried (slot : TriedSlot) : Option (AddrMan NetAddr) :=
  match addrman.vvTried slot with
  | none => some addrman
  | some nIdEvict => do
    let infoOld ← addrman.mapInfo.lookup nIdEvict
    let removed := addrman.leaveTried groups nIdEvict infoOld slot
    let uSlot := groups.newSlot addrman.nKey infoOld.addr infoOld.source
    let cleared ← removed.clearNew groups uSlot
    if cleared.vvNew uSlot ≠ none then none
    else
      let infoOld ← cleared.mapInfo.lookup nIdEvict
      some ((cleared.enterSlot nIdEvict infoOld uSlot 1).countNew (groups.getNetwork infoOld.addr.host) 1)

def makeTried (nId : Nat) : Option (AddrMan NetAddr) := do
  let info ← addrman.mapInfo.lookup nId
  let left ← leaveBuckets groups nId (bucketsFrom (groups.getNewBucket addrman.nKey info.addr info.source)) addrman
  let uncounted := left.countNew (groups.getNetwork info.addr.host) (-1)
  let info ← uncounted.mapInfo.lookup nId
  if info.nRefCount ≠ 0 then none
  else
    let slot := groups.triedSlot addrman.nKey info.addr
    let evicted ← uncounted.evictTried groups slot
    if evicted.vvTried slot ≠ none then none
    else
      let info ← evicted.mapInfo.lookup nId
      some (evicted.enterTried groups nId info slot)

/-! ## Adding addresses -/

/-- The second half of `AddSingle`: the slot for the source, if its entry gives way. -/
def placeNew (nId : Nat) (source : NetAddr) (now : Int) : Option (AddrMan NetAddr × Bool) := do
  let info ← addrman.mapInfo.lookup nId
  let slot := groups.newSlot addrman.nKey info.addr source
  match addrman.vvNew slot with
  | none => some (addrman.enterSlot nId info slot (info.nRefCount + 1), true)
  | some other =>
    if other = nId then some (addrman, false)
    else
      let infoExisting ← addrman.mapInfo.lookup other
      if infoExisting.isTerrible now = true ∨ infoExisting.nRefCount > 1 ∧ info.nRefCount = 0 then
        let cleared ← addrman.clearNew groups slot
        let info ← cleared.mapInfo.lookup nId
        some (cleared.enterSlot nId info slot (info.nRefCount + 1), true)
      else if info.nRefCount = 0 then
        let deleted ← addrman.delete groups nId
        some (deleted, false)
      else some (addrman, false)

/-- What an address that is known already learns from being added again. -/
def refresh (address : CAddress NetAddr) (timePenalty now : Int) (info : AddrInfo NetAddr) : AddrInfo NetAddr :=
  let updateInterval := if now - address.nTime < 24 * 60 * 60 then 60 * 60 else 24 * 60 * 60
  { info with
    nTime :=
      if info.nTime < address.nTime - updateInterval - timePenalty then
        max 0 (address.nTime - timePenalty)
      else info.nTime
    nServices := info.nServices ||| address.nServices }

/-- `AddSingle`, with the readings of the clock, the second one for `IsTerrible`, and the number drawn for
the stochastic test. -/
def addSingle (address : CAddress NetAddr) (source : NetAddr) (timePenalty now later : Int) (draw : Nat) :
    Option (AddrMan NetAddr × Bool) :=
  if groups.isRoutable address.addr.host = false then some (addrman, false)
  else
    let timePenalty := if address.addr.host = source then 0 else timePenalty
    match addrman.find address.addr with
    | some (nId, known) =>
      let info := refresh address timePenalty now known
      let updated := addrman.setInfo nId info
      if address.nTime ≤ info.nTime then some (updated, false)
      else if info.fInTried then some (updated, false)
      else if info.nRefCount = ADDRMAN_NEW_BUCKETS_PER_ADDRESS then some (updated, false)
      else if info.nRefCount > 0 ∧ draw % 2 ^ info.nRefCount.toNat ≠ 0 then some (updated, false)
      else updated.placeNew groups nId source later
    | none =>
      let penalized := { address with nTime := max 0 (address.nTime - timePenalty) }
      (addrman.create groups penalized source).placeNew groups addrman.nIdCount source later

structure Addition (NetAddr : Type) where
  address : CAddress NetAddr
  now : Int
  later : Int
  draw : Nat

def add (additions : List (Addition NetAddr)) (source : NetAddr) (timePenalty : Int) :
    Option (AddrMan NetAddr × Bool) :=
  additions.foldlM (fun (found : AddrMan NetAddr × Bool) addition => do
    let result ← found.1.addSingle groups addition.address source timePenalty addition.now
      addition.later addition.draw
    some (result.1, found.2 || result.2)) (addrman, false)

/-! ## Trying addresses -/

def insertId (nId : Nat) (ids : List Nat) : List Nat :=
  if nId ∈ ids then ids else ids.orderedInsert (· ≤ ·) nId

/-- `Good_`. The reference count is assumed to be positive. -/
def good (addr : CService NetAddr) (testBeforeEvict : Bool) (time : Int) : Option (AddrMan NetAddr × Bool) :=
  let addrman := { addrman with mLastGood := time }
  match addrman.find addr with
  | none => some (addrman, false)
  | some (nId, known) =>
    let info := { known with mLastSuccess := time, mLastTry := time, nAttempts := 0 }
    let updated := addrman.setInfo nId info
    if info.fInTried then some (updated, false)
    else if info.nRefCount ≤ 0 then none
    else
      let slot := groups.triedSlot addrman.nKey info.addr
      if testBeforeEvict = true ∧ updated.vvTried slot ≠ none then
        some ({ updated with
          mTriedCollisions :=
            if updated.mTriedCollisions.length < ADDRMAN_SET_TRIED_COLLISION_SIZE then
              insertId nId updated.mTriedCollisions
            else updated.mTriedCollisions }, false)
      else do
        let tried ← updated.makeTried groups nId
        some (tried, true)

def attempt (addr : CService NetAddr) (fCountFailure : Bool) (time : Int) : AddrMan NetAddr :=
  match addrman.find addr with
  | none => addrman
  | some (nId, info) =>
    let info := { info with mLastTry := time }
    addrman.setInfo nId (if fCountFailure = true ∧ info.mLastCountAttempt < addrman.mLastGood then
        { info with mLastCountAttempt := time, nAttempts := info.nAttempts + 1 }
      else info)

def connected (addr : CService NetAddr) (time : Int) : AddrMan NetAddr :=
  match addrman.find addr with
  | none => addrman
  | some (nId, info) =>
    addrman.setInfo nId (if time - info.nTime > 20 * 60 then { info with nTime := time } else info)

def setServices (addr : CService NetAddr) (nServices : UInt64) : AddrMan NetAddr :=
  match addrman.find addr with
  | none => addrman
  | some (nId, info) => addrman.setInfo nId { info with nServices }

/-! ## Collisions -/

def eraseCollision (nId : Nat) : AddrMan NetAddr :=
  { addrman with mTriedCollisions := addrman.mTriedCollisions.erase nId }

/-- Moves an entry to the tried addresses, whatever is in its slot, and ends its collision. -/
def replaceTried (nId : Nat) (addr : CService NetAddr) (time : Int) : Option (AddrMan NetAddr) := do
  let result ← addrman.good groups addr false time
  some (result.1.eraseCollision nId)

/-- One turn of the loop of `ResolveCollisions_`. -/
def resolveCollision (currentTime : Int) (addrman : AddrMan NetAddr) (idNew : Nat) : Option (AddrMan NetAddr) :=
  match addrman.mapInfo.lookup idNew with
  | none => some (addrman.eraseCollision idNew)
  | some infoNew =>
    if groups.isValid infoNew.addr.host = false then some (addrman.eraseCollision idNew)
    else
      match addrman.vvTried (groups.triedSlot addrman.nKey infoNew.addr) with
      | none => addrman.replaceTried groups idNew infoNew.addr currentTime
      | some idOld => do
        let infoOld ← addrman.mapInfo.lookup idOld
        if currentTime - infoOld.mLastSuccess < ADDRMAN_REPLACEMENT then
          some (addrman.eraseCollision idNew)
        else if currentTime - infoOld.mLastTry < ADDRMAN_REPLACEMENT then
          if currentTime - infoOld.mLastTry > 60 then
            addrman.replaceTried groups idNew infoNew.addr currentTime
          else some addrman
        else if currentTime - infoNew.mLastSuccess > ADDRMAN_TEST_WINDOW then
          addrman.replaceTried groups idNew infoNew.addr currentTime
        else some addrman

/-- `ResolveCollisions_`, with the reading of the clock in the turn of each id. -/
def resolveCollisions (clock : Nat → Int) : Option (AddrMan NetAddr) :=
  addrman.mTriedCollisions.foldlM (fun addrman nId => addrman.resolveCollision groups (clock nId) nId) addrman

/-- `SelectTriedCollision_`, with the number drawn. -/
def selectTriedCollision (draw : Nat) : Option (AddrMan NetAddr × Option (AddrInfo NetAddr)) :=
  match addrman.mTriedCollisions[draw % addrman.mTriedCollisions.length]? with
  | none => some (addrman, none)
  | some idNew =>
    match addrman.mapInfo.lookup idNew with
    | none => some (addrman.eraseCollision idNew, none)
    | some newInfo => do
      let idOld ← addrman.vvTried (groups.triedSlot addrman.nKey newInfo.addr)
      let infoOld ← addrman.mapInfo.lookup idOld
      some (addrman, some infoOld)

/-! ## Selecting addresses -/

def getEntry (useTried : Bool) (bucket position : Nat) : Option Nat :=
  if small : position < ADDRMAN_BUCKET_SIZE then
    if useTried then
      if inside : bucket < ADDRMAN_TRIED_BUCKET_COUNT then
        addrman.vvTried (⟨bucket, inside⟩, ⟨position, small⟩)
      else none
    else
      if inside : bucket < ADDRMAN_NEW_BUCKET_COUNT then
        addrman.vvNew (⟨bucket, inside⟩, ⟨position, small⟩)
      else none
  else none

/-- Whether an entry is on one of the networks; all are without networks. The entry is assumed to
be there. -/
def onNetworks (networks : List Network) (nodeId : Nat) : Option Bool :=
  if networks.isEmpty then some true
  else do
    let info ← addrman.mapInfo.lookup nodeId
    some (networks.contains (groups.getNetwork info.addr.host))

/-- The loop of `Select_` over the positions of a bucket. -/
def searchBucket (addrman : AddrMan NetAddr) (networks : List Network) (searchTried : Bool)
    (bucket : Nat) : List Nat → Option (Option Nat)
  | [] => some none
  | position :: positions =>
    match addrman.getEntry searchTried bucket position with
    | none => searchBucket addrman networks searchTried bucket positions
    | some nodeId => do
      let fits ← addrman.onNetworks groups networks nodeId
      if fits then some (some nodeId)
      else searchBucket addrman networks searchTried bucket positions

/-- The random choices of one turn of the loop of `Select_`: a bucket, a position, and whether the
chance of the entry is taken. -/
structure SelectTurn where
  bucket : Nat
  position : Nat
  accepted : Bool

/-- The loop of `Select_`, as far as the turns go. -/
def selectTurns (addrman : AddrMan NetAddr) (networks : List Network) (searchTried : Bool) :
    List SelectTurn → Option (Option (AddrInfo NetAddr))
  | [] => some none
  | turn :: turns => do
    let bucketCount := if searchTried then ADDRMAN_TRIED_BUCKET_COUNT else ADDRMAN_NEW_BUCKET_COUNT
    let positions := (List.range ADDRMAN_BUCKET_SIZE).map fun i =>
      (turn.position % ADDRMAN_BUCKET_SIZE + i) % ADDRMAN_BUCKET_SIZE
    let found ← addrman.searchBucket groups networks searchTried (turn.bucket % bucketCount) positions
    match found with
    | none => selectTurns addrman networks searchTried turns
    | some nodeId =>
      let info ← addrman.mapInfo.lookup nodeId
      if turn.accepted then some (some info) else selectTurns addrman networks searchTried turns

/-- `Select_`, with the choice of the table. -/
def select (newOnly : Bool) (networks : List Network) (randbool : Bool) (turns : List SelectTurn) :
    Option (Option (AddrInfo NetAddr)) :=
  let counts := networks.map fun network => (addrman.mNetworkCounts.lookup network).getD {}
  let newCount := if networks.isEmpty then addrman.nNew else (counts.map NewTriedCount.nNew).sum
  let triedCount := if networks.isEmpty then addrman.nTried else (counts.map NewTriedCount.nTried).sum
  if addrman.vRandom.isEmpty then some none
  else if newOnly = true ∧ newCount = 0 then some none
  else if newCount + triedCount = 0 then some none
  else
    let searchTried := if newOnly = true ∨ triedCount = 0 then false else if newCount = 0 then true else randbool
    addrman.selectTurns groups networks searchTried turns

/-- The loop of `GetAddr_`, from the given position on. -/
def getAddrTurns (network : Option Network) (filtered : Bool) (now : Int) (draw : Nat → Nat)
    (nNodes : Nat) : Nat → Nat → AddrMan NetAddr → List (CAddress NetAddr) →
      Option (AddrMan NetAddr × List (CAddress NetAddr))
  | 0, _, addrman, addresses => some (addrman, addresses)
  | turns + 1, n, addrman, addresses =>
    if addresses.length ≥ nNodes then some (addrman, addresses)
    else do
      let nRndPos := draw n % (addrman.vRandom.length - n) + n
      let swapped ← addrman.swapRandom n nRndPos
      let nId ← swapped.vRandom[n]?
      let info ← swapped.mapInfo.lookup nId
      if network.any fun network => groups.getNetClass info.addr.host != network then
        getAddrTurns network filtered now draw nNodes turns (n + 1) swapped addresses
      else if info.isTerrible now && filtered then
        getAddrTurns network filtered now draw nNodes turns (n + 1) swapped addresses
      else
        getAddrTurns network filtered now draw nNodes turns (n + 1) swapped (addresses ++ [info.toCAddress])

/-- `GetAddr_`, with the reading of the clock and the numbers drawn. -/
def getAddr (maxAddresses maxPct : Nat) (network : Option Network) (filtered : Bool) (now : Int) (draw : Nat → Nat) :
    Option (AddrMan NetAddr × List (CAddress NetAddr)) :=
  let size := addrman.vRandom.length
  let share := if maxPct ≠ 0 then min maxPct 100 * size / 100 else size
  let nNodes := if maxAddresses ≠ 0 then min share maxAddresses else share
  if maxPct > 100 then none
  else getAddrTurns groups network filtered now draw nNodes size 0 addrman []

/-! ## The check -/

/-- What the first loop of `CheckAddrman` gathers. -/
structure Gathered where
  setTried : List Nat := []
  mapNew : AList (fun _ : Nat => Int) := ∅
  localCounts : AList (fun _ : Network => NewTriedCount) := ∅

def refuse (condition : Prop) [Decidable condition] (err : Int) : Except Int Unit :=
  if condition then .error err else .ok ()

def Gathered.count (gathered : Gathered) (network : Network) (nNew nTried : Int) : Gathered :=
  let counts := (gathered.localCounts.lookup network).getD {}
  { gathered with
    localCounts := gathered.localCounts.insert network ⟨counts.nNew + nNew, counts.nTried + nTried⟩ }

def gather (gathered : Gathered) (n : Nat) (info : AddrInfo NetAddr) : Except Int Gathered :=
  let network := groups.getNetwork info.addr.host
  if info.fInTried then do
    refuse (info.mLastSuccess = 0) (-1)
    refuse (info.nRefCount ≠ 0) (-2)
    .ok { gathered.count network 0 1 with setTried := n :: gathered.setTried }
  else do
    refuse (info.nRefCount < 0 ∨ info.nRefCount > ADDRMAN_NEW_BUCKETS_PER_ADDRESS) (-3)
    refuse (info.nRefCount = 0) (-4)
    .ok { gathered.count network 1 0 with mapNew := gathered.mapNew.insert n info.nRefCount }

/-- The first loop, over `mapInfo`. -/
def checkInfo (gathered : Gathered) (entry : (_ : Nat) × AddrInfo NetAddr) : Except Int Gathered := do
  let n := entry.1
  let info := entry.2
  let gathered ← gather groups gathered n info
  refuse (addrman.mapAddr.lookup info.addr ≠ some n) (-5)
  refuse (addrman.vRandom[info.nRandomPos]? ≠ some n) (-14)
  refuse (info.mLastTry < 0) (-6)
  refuse (info.mLastSuccess < 0) (-8)
  .ok gathered

/-- The second loop, over the slots of tried addresses. -/
def checkTried (setTried : List Nat) (slot : TriedSlot) : Except Int (List Nat) :=
  match addrman.vvTried slot with
  | none => .ok setTried
  | some n => do
    refuse (n ∉ setTried) (-11)
    match addrman.mapInfo.lookup n with
    | none => .error (-17)
    | some info => do
      refuse (groups.getTriedBucket addrman.nKey info.addr ≠ slot.1) (-17)
      refuse (groups.getBucketPosition addrman.nKey false slot.1 info.addr ≠ slot.2) (-18)
      .ok (setTried.erase n)

/-- The third loop, over the slots of new addresses. -/
def checkNew (mapNew : AList fun _ : Nat => Int) (slot : NewSlot) : Except Int (AList fun _ : Nat => Int) :=
  match addrman.vvNew slot with
  | none => .ok mapNew
  | some n =>
    match mapNew.lookup n with
    | none => .error (-12)
    | some count =>
      match addrman.mapInfo.lookup n with
      | none => .error (-19)
      | some info => do
        refuse (groups.getBucketPosition addrman.nKey true slot.1 info.addr ≠ slot.2) (-19)
        .ok (if count - 1 = 0 then mapNew.erase n else mapNew.insert n (count - 1))

def slots (bucketCount : Nat) : List (Fin bucketCount × Fin ADDRMAN_BUCKET_SIZE) :=
  List.finRange bucketCount ×ˢ List.finRange ADDRMAN_BUCKET_SIZE

def checkAll : Except Int Unit := do
  refuse ((addrman.vRandom.length : Int) ≠ addrman.nTried + addrman.nNew) (-7)
  let gathered ← addrman.mapInfo.entries.foldlM (addrman.checkInfo groups) {}
  refuse ((gathered.setTried.length : Int) ≠ addrman.nTried) (-9)
  refuse ((gathered.mapNew.entries.length : Int) ≠ addrman.nNew) (-10)
  let setTried ← (slots ADDRMAN_TRIED_BUCKET_COUNT).foldlM (addrman.checkTried groups) gathered.setTried
  let mapNew ← (slots ADDRMAN_NEW_BUCKET_COUNT).foldlM (addrman.checkNew groups) gathered.mapNew
  refuse (setTried ≠ []) (-13)
  refuse (mapNew.entries.length ≠ 0) (-15)
  refuse (addrman.nKey.isNull = true) (-16)
  refuse (addrman.mNetworkCounts.entries.length < gathered.localCounts.entries.length) (-20)
  refuse (∃ entry ∈ addrman.mNetworkCounts.entries, (gathered.localCounts.lookup entry.1).getD {} ≠ entry.2) (-21)

def checkAddrman : Int :=
  match addrman.checkAll groups with
  | .ok _ => 0
  | .error err => err

/-! ## Runs -/

inductive Call (NetAddr : Type) where
  | add (additions : List (Addition NetAddr)) (source : NetAddr) (timePenalty : Int)
  | good (addr : CService NetAddr) (time : Int)
  | attempt (addr : CService NetAddr) (fCountFailure : Bool) (time : Int)
  | connected (addr : CService NetAddr) (time : Int)
  | setServices (addr : CService NetAddr) (nServices : UInt64)
  | resolveCollisions (clock : Nat → Int)
  | selectTriedCollision (draw : Nat)
  | select (newOnly : Bool) (networks : List Network) (randbool : Bool) (turns : List SelectTurn)
  | getAddr (maxAddresses maxPct : Nat) (network : Option Network) (filtered : Bool) (now : Int)
      (draw : Nat → Nat)

def call : Call NetAddr → Option (AddrMan NetAddr)
  | .add additions source timePenalty => (addrman.add groups additions source timePenalty).map Prod.fst
  | .good addr time => (addrman.good groups addr true time).map Prod.fst
  | .attempt addr fCountFailure time => some (addrman.attempt addr fCountFailure time)
  | .connected addr time => some (addrman.connected addr time)
  | .setServices addr nServices => some (addrman.setServices addr nServices)
  | .resolveCollisions clock => addrman.resolveCollisions groups clock
  | .selectTriedCollision draw => (addrman.selectTriedCollision groups draw).map Prod.fst
  | .select newOnly networks randbool turns =>
    (addrman.select groups newOnly networks randbool turns).map fun _ => addrman
  | .getAddr maxAddresses maxPct network filtered now draw =>
    (addrman.getAddr groups maxAddresses maxPct network filtered now draw).map Prod.fst

/-- `Check`, which asserts that `CheckAddrman` finds nothing if its turn is drawn. -/
def check (drawn : Bool) : Option (AddrMan NetAddr) :=
  if drawn = true ∧ addrman.checkAddrman groups ≠ 0 then none else some addrman

/-- A call from outside, and whether the checks before and after it are drawn. -/
structure Request (NetAddr : Type) where
  call : Call NetAddr
  before : Bool := false
  after : Bool := false

def answer (request : Request NetAddr) : Option (AddrMan NetAddr) := do
  let addrman ← addrman.check groups request.before
  let addrman ← addrman.call groups request.call
  addrman.check groups request.after

def run (nKey : Uint256) (requests : List (Request NetAddr)) : Option (AddrMan NetAddr) :=
  requests.foldlM (answer groups) { nKey }

end AddrMan

end Sharecoin
