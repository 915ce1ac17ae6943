import Sharecoin.Chain.AcceptHeader
import Sharecoin.Crypto.SipHash

/-! Headers synchronisation with a low-work peer. The peer serves its chain twice: in
the first pass one bit is kept for some of the headers, in the second pass the headers
are buffered, compared with those bits and handed out once enough others follow them. -/

set_option autoImplicit false

namespace Sharecoin

open Lib

/-! ## Parameters and state -/

structure HeadersSyncParams where
  commitmentPeriod : Nat
  redownloadBufferSize : Nat
deriving DecidableEq

/-- A header without the hash of its predecessor. -/
structure CompressedHeader where
  nVersion : Int32
  hashMerkleRoot : Uint256
  nTime : UInt32
  nBits : UInt32
  nHeight : UInt32
  nNonce64 : UInt64
  mixHash : Uint256
deriving DecidableEq

namespace CompressedHeader

def ofHeader (header : CBlockHeader) : CompressedHeader :=
  { nVersion := header.nVersion
    hashMerkleRoot := header.hashMerkleRoot
    nTime := header.nTime
    nBits := header.nBits
    nHeight := header.nHeight
    nNonce64 := header.nNonce64
    mixHash := header.mixHash }

def getFullHeader (compressed : CompressedHeader) (hashPrevBlock : Uint256) : CBlockHeader :=
  { nVersion := compressed.nVersion
    hashPrevBlock := hashPrevBlock
    hashMerkleRoot := compressed.hashMerkleRoot
    nTime := compressed.nTime
    nBits := compressed.nBits
    nHeight := compressed.nHeight
    nNonce64 := compressed.nNonce64
    mixHash := compressed.mixHash }

end CompressedHeader

inductive DownloadState where
  | presync
  | redownload
  | final
deriving DecidableEq

/-- The constant members of a `HeadersSyncState`, with what its constructor takes from
outside: the random offset and salt, the clock, and the median time past of the chain
start. `chainStartHash` is what the entry's `GetBlockHash` answers. -/
structure HeadersSyncEnv where
  sha256d : Bytes → Uint256
  k0 : UInt64
  k1 : UInt64
  commitOffset : Nat
  consensusParams : Params
  params : HeadersSyncParams
  chainStart : CBlockIndex
  chainStartHash : Uint256
  chainStartMedianTimePast : Int
  now : Int
  minimumRequiredWork : ArithUint256

/-- Heights are `int64_t` members; no run is long enough to exceed them. -/
structure HeadersSyncState where
  currentChainWork : ArithUint256
  headerCommitments : List Bool := []
  lastHeaderReceived : CBlockHeader
  currentHeight : Int
  redownloadedHeaders : List CompressedHeader := []
  redownloadBufferLastHeight : Int := 0
  redownloadBufferLastHash : Uint256 := .zero
  redownloadBufferFirstPrevHash : Uint256 := .zero
  redownloadChainWork : ArithUint256 := 0
  processAllRemainingHeaders : Bool := false
  downloadState : DownloadState := .presync
deriving DecidableEq

structure ProcessingResult where
  powValidatedHeaders : List CBlockHeader := []
  success : Bool := false
  requestMore : Bool := false
deriving DecidableEq

def getBlockProof (header : CBlockHeader) : ArithUint256 := getBitsProof header.nBits

/-- Retargeting at every block leaves nothing to check here. -/
def permittedDifficultyTransition (_params : Params) (_height : Int) (_oldNbits _newNbits : UInt32) :
    Bool := true

namespace HeadersSyncEnv

variable (env : HeadersSyncEnv)

/-- At most six blocks a second, up to the furthest time a header may have. The product
is a signed number that the division makes a `size_t`. -/
def maxCommitments : Nat :=
  (6 * (env.now - env.chainStartMedianTimePast + MAX_FUTURE_BLOCK_TIME) % 2 ^ 64).toNat / env.params.commitmentPeriod

def initial : HeadersSyncState :=
  { currentChainWork := env.chainStart.nChainWork
    lastHeaderReceived := env.chainStart.getBlockHeader
    currentHeight := env.chainStart.nHeight }

def commitment (header : CBlockHeader) : Bool :=
  presaltedSipHash env.k0 env.k1 (header.getHash env.sha256d) &&& 1 != 0

/-- The remainder is taken of the height as a `size_t`. -/
def commitsAt (height : Int) : Bool :=
  (height % 2 ^ 64).toNat % env.params.commitmentPeriod == env.commitOffset

end HeadersSyncEnv

/-! ## Processing headers -/

namespace HeadersSyncState

variable (env : HeadersSyncEnv)

def finalize (sync : HeadersSyncState) : HeadersSyncState :=
  { sync with
    headerCommitments := []
    lastHeaderReceived := .null
    redownloadedHeaders := []
    redownloadBufferLastHash := .zero
    redownloadBufferFirstPrevHash := .zero
    processAllRemainingHeaders := false
    currentHeight := 0
    downloadState := .final }

/-- The next height is an `int` here. -/
def validateAndProcessSingleHeader (sync : HeadersSyncState) (current : CBlockHeader) : Bool × HeadersSyncState :=
  if sync.downloadState ≠ .presync then (false, sync)
  else
    let nextHeight := wrap32 (sync.currentHeight + 1)
    if !permittedDifficultyTransition env.consensusParams nextHeight sync.lastHeaderReceived.nBits
        current.nBits then (false, sync)
    else
      let headerCommitments :=
        if env.commitsAt nextHeight then sync.headerCommitments ++ [env.commitment current]
        else sync.headerCommitments
      if env.commitsAt nextHeight && decide (headerCommitments.length > env.maxCommitments) then
        (false, { sync with headerCommitments := headerCommitments })
      else
        (true, { sync with
          headerCommitments := headerCommitments
          currentChainWork := sync.currentChainWork + getBlockProof current
          lastHeaderReceived := current
          currentHeight := nextHeight })

/-- A loop over headers that stops at the first that is refused. -/
def checkEach (check : HeadersSyncState → CBlockHeader → Bool × HeadersSyncState) :
    List CBlockHeader → HeadersSyncState → Bool × HeadersSyncState
  | [], sync => (true, sync)
  | header :: headers, sync =>
    let (valid, next) := check sync header
    if valid then checkEach check headers next else (false, next)

def beginRedownload (sync : HeadersSyncState) : HeadersSyncState :=
  { sync with
    redownloadedHeaders := []
    redownloadBufferLastHeight := env.chainStart.nHeight
    redownloadBufferFirstPrevHash := env.chainStartHash
    redownloadBufferLastHash := env.chainStartHash
    redownloadChainWork := env.chainStart.nChainWork
    downloadState := .redownload }

def validateAndStoreHeadersCommitments (sync : HeadersSyncState) (headers : List CBlockHeader) :
    Bool × HeadersSyncState :=
  match headers with
  | [] => (true, sync)
  | first :: _ =>
    if sync.downloadState ≠ .presync then (false, sync)
    else if first.hashPrevBlock ≠ sync.lastHeaderReceived.getHash env.sha256d then (false, sync)
    else
      let (valid, next) := checkEach (validateAndProcessSingleHeader env) headers sync
      if !valid then (false, next)
      else if next.currentChainWork ≥ env.minimumRequiredWork then (true, next.beginRedownload env)
      else (true, next)

def previousNBits (sync : HeadersSyncState) : UInt32 :=
  match sync.redownloadedHeaders.getLast? with
  | some last => last.nBits
  | none => env.chainStart.nBits

/-- The bit kept for a header is popped and compared, until the redownloaded chain has
the work asked for. -/
def validateAndStoreRedownloadedHeader (sync : HeadersSyncState) (header : CBlockHeader) : Bool × HeadersSyncState :=
  if sync.downloadState ≠ .redownload then (false, sync)
  else
    let nextHeight := sync.redownloadBufferLastHeight + 1
    if header.hashPrevBlock ≠ sync.redownloadBufferLastHash then (false, sync)
    else if !permittedDifficultyTransition env.consensusParams nextHeight (sync.previousNBits env)
        header.nBits then (false, sync)
    else
      let redownloadChainWork := sync.redownloadChainWork + getBlockProof header
      let processAllRemainingHeaders :=
        sync.processAllRemainingHeaders || decide (redownloadChainWork ≥ env.minimumRequiredWork)
      let counted := { sync with
        redownloadChainWork := redownloadChainWork
        processAllRemainingHeaders := processAllRemainingHeaders }
      let stored (headerCommitments : List Bool) := { counted with
        headerCommitments := headerCommitments
        redownloadedHeaders := sync.redownloadedHeaders ++ [.ofHeader header]
        redownloadBufferLastHeight := nextHeight
        redownloadBufferLastHash := header.getHash env.sha256d }
      if !processAllRemainingHeaders && env.commitsAt nextHeight then
        match sync.headerCommitments with
        | [] => (false, counted)
        | expectedCommitment :: rest =>
          if env.commitment header = expectedCommitment then (true, stored rest)
          else (false, { counted with headerCommitments := rest })
      else (true, stored sync.headerCommitments)

/-- The loop of `PopHeadersReadyForAcceptance` over the buffer, with the hash that precedes
its first header. -/
def popReady (all : Bool) : List CompressedHeader → Uint256 → List CBlockHeader × List CompressedHeader × Uint256
  | [], prevHash => ([], [], prevHash)
  | front :: rest, prevHash =>
    if decide ((front :: rest).length > env.params.redownloadBufferSize) || all then
      let header := front.getFullHeader prevHash
      let (headers, kept) := popReady all rest (header.getHash env.sha256d)
      (header :: headers, kept)
    else ([], front :: rest, prevHash)

def popHeadersReadyForAcceptance (sync : HeadersSyncState) : List CBlockHeader × HeadersSyncState :=
  if sync.downloadState ≠ .redownload then ([], sync)
  else
    let (headers, kept, prevHash) := popReady env sync.processAllRemainingHeaders
      sync.redownloadedHeaders sync.redownloadBufferFirstPrevHash
    (headers, { sync with redownloadedHeaders := kept, redownloadBufferFirstPrevHash := prevHash })

def processPresync (sync : HeadersSyncState) (receivedHeaders : List CBlockHeader)
    (fullHeadersMessage : Bool) : ProcessingResult × HeadersSyncState :=
  let (success, next) := sync.validateAndStoreHeadersCommitments env receivedHeaders
  ({ success := success
     requestMore := success && (fullHeadersMessage || next.downloadState == .redownload) }, next)

def processRedownload (sync : HeadersSyncState) (receivedHeaders : List CBlockHeader)
    (fullHeadersMessage : Bool) : ProcessingResult × HeadersSyncState :=
  let (success, next) := checkEach (validateAndStoreRedownloadedHeader env) receivedHeaders sync
  if success then
    let (headers, popped) := next.popHeadersReadyForAcceptance env
    ({ powValidatedHeaders := headers
       success := true
       requestMore := !(popped.redownloadedHeaders.isEmpty && popped.processAllRemainingHeaders) &&
        fullHeadersMessage }, popped)
  else ({}, next)

def processNextHeaders (sync : HeadersSyncState) (receivedHeaders : List CBlockHeader)
    (fullHeadersMessage : Bool) : ProcessingResult × HeadersSyncState :=
  if receivedHeaders.isEmpty then ({}, sync)
  else
    match sync.downloadState with
    | .final => ({}, sync)
    | .presync =>
      let (ret, next) := sync.processPresync env receivedHeaders fullHeadersMessage
      (ret, if ret.success && ret.requestMore then next else next.finalize)
    | .redownload =>
      let (ret, next) := sync.processRedownload env receivedHeaders fullHeadersMessage
      (ret, if ret.success && ret.requestMore then next else next.finalize)

end HeadersSyncState

end Sharecoin
