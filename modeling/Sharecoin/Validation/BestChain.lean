import Sharecoin.Chain.AcceptHeaderProperties
import Sharecoin.Validation.Chainstate

/-! The choice of the active chain: `FindMostWorkChain`, `ActivateBestChain`,
`InvalidateBlock` and `ResetBlockFailureFlags`. Which blocks `ConnectBlock` accepts is a
parameter, disconnecting and reading blocks does not fail, and `none` stands for a failed
assertion or undefined behaviour. -/

set_option autoImplicit false

namespace Sharecoin

open Lib CBlockIndex

namespace Chainstate

/-! ## Candidates -/

/-- The first block on the way down from a candidate that makes it unusable, and the blocks
passed before it, the candidate first. -/
structure Obstacle where
  pindexTest : Uint256
  fFailedChain : Bool
  passed : List Uint256

section Candidates

variable (addresses : Addresses) (state : Chainstate)

/-- The walk from a candidate to the active chain. -/
def findObstacle : Nat → Option Uint256 → List Uint256 → Option (Option Obstacle)
  | _, none, _ => some none
  | 0, some _, _ => none
  | turns + 1, some pindexTest, passed =>
    if state.contains pindexTest then some none
    else
      match state.blocks.lookup pindexTest with
      | none => none
      | some entry =>
        if !(entry.haveNumChainTxs || entry.nHeight == 0) then none
        else if entry.failed || !entry.haveData then
          some (some ⟨pindexTest, entry.failed, passed⟩)
        else findObstacle turns entry.pprev (passed ++ [pindexTest])

def heightOf (pindex : Uint256) : Int := ((state.blocks.lookup pindex).map nHeight).getD 0

def bestCandidate : Option Uint256 :=
  greatest (workComparator addresses state.blocks) state.setBlockIndexCandidates

/-- Removes an unusable candidate and the blocks passed on the way to what makes it so. -/
def discardCandidate (pindexNew : Uint256) (obstacle : Obstacle) : Chainstate :=
  let unlinked :=
    if obstacle.fFailedChain then state.noteBestInvalid pindexNew
    else obstacle.passed.foldl addUnlinkedBlock state
  (obstacle.passed.foldl eraseCandidate unlinked).eraseCandidate obstacle.pindexTest

end Candidates

/-- The loop of `FindMostWorkChain`. Every turn but the last removes a candidate. -/
def findMostWorkChainLoop (addresses : Addresses) : Nat → Chainstate → Option (Option Uint256 × Chainstate)
  | 0, _ => none
  | turns + 1, state =>
    match state.bestCandidate addresses with
    | none => some (none, state)
    | some pindexNew =>
      match state.findObstacle ((state.heightOf pindexNew).toNat + 1) (some pindexNew) [] with
      | none => none
      | some none => some (some pindexNew, state)
      | some (some obstacle) =>
        findMostWorkChainLoop addresses turns (state.discardCandidate pindexNew obstacle)

def findMostWorkChain (addresses : Addresses) (state : Chainstate) : Option (Option Uint256 × Chainstate) :=
  findMostWorkChainLoop addresses (state.setBlockIndexCandidates.length + 1) state

def pruneBlockIndexCandidates (addresses : Addresses) (state : Chainstate) : Option Chainstate :=
  match state.tip with
  | none => none
  | some tip =>
    let left := state.setBlockIndexCandidates.filter fun candidate =>
      !workComparator addresses state.blocks candidate tip
    if left.isEmpty then none else some { state with setBlockIndexCandidates := left }

/-! ## One step of activation -/

/-- `ConnectTip` of a block that `ConnectBlock` accepts and whose parent is the tip. The genesis
block is connected without being checked. -/
def connectTip (state : Chainstate) (pindexNew : Uint256) : Chainstate :=
  { state.changeEntries (fun key entry => key == pindexNew && entry.pprev.isSome && !entry.isValid BLOCK_VALID_SCRIPTS)
      (raiseValidity · BLOCK_VALID_SCRIPTS) with
    mChain := state.mChain ++ [pindexNew] }

structure StepResult where
  state : Chainstate
  fInvalidFound : Bool
  fContinue : Bool

section Step

variable (addresses : Addresses) (connects : Uint256 → Bool)

def findForkLoop (state : Chainstate) : Nat → Option Uint256 → Option Uint256
  | turns + 1, some pindex =>
    if state.contains pindex then some pindex
    else findForkLoop state turns (parentOf state.blocks pindex)
  | _, _ => none

def findFork (state : Chainstate) (index : Uint256) : Option Uint256 :=
  let height : Int := (state.mChain.length : Int) - 1
  state.findForkLoop ((state.heightOf index).toNat + 1)
    (if state.heightOf index > height then getAncestor state.blocks index height else some index)

/-- Disconnects the blocks above the fork. The genesis block has no parent to go back to. -/
def disconnectTo (state : Chainstate) : Option Uint256 → Option Chainstate
  | some pindexFork =>
    some { state with mChain := state.mChain.take ((state.heightOf pindexFork).toNat + 1) }
  | none => if state.mChain.isEmpty then some state else none

/-- `vpindexToConnect`: the blocks from a height up to a block, highest first. -/
def blocksToConnect (blocks : BlockMap) (nHeight : Int) : Nat → Option Uint256 → List Uint256
  | turns + 1, some pindexIter =>
    match blocks.lookup pindexIter with
    | none => []
    | some entry =>
      if entry.nHeight = nHeight then []
      else pindexIter :: blocksToConnect blocks nHeight turns entry.pprev
  | _, _ => []

/-- Whether the tip has more work than the one the step started from. -/
def improvesOn (state : Chainstate) (oldTip : Option ArithUint256) : Bool :=
  oldTip.all fun work => decide (state.tipWork > work)

/-- Connects blocks one after the other; `front` is the highest of them. -/
def connectBlocks (oldTip : Option ArithUint256) (front : Uint256) : List Uint256 → Chainstate → Option StepResult
  | [], state => some ⟨state, false, true⟩
  | pindexConnect :: rest, state =>
    if parentOf state.blocks pindexConnect ≠ state.tip then none
    else if connects pindexConnect || (parentOf state.blocks pindexConnect).isNone then
      match (state.connectTip pindexConnect).pruneBlockIndexCandidates addresses with
      | none => none
      | some pruned =>
        if pruned.improvesOn oldTip then some ⟨pruned, false, false⟩
        else connectBlocks oldTip front rest pruned
    else
      some ⟨(state.invalidBlockFound pindexConnect .blockConsensus).invalidChainFound front, true, false⟩

/-- Connects the blocks below the target, at most 32 heights at a time. -/
def connectChunks (oldTip : Option ArithUint256) (target : Uint256) : Nat → Int → Chainstate → Option StepResult
  | 0, _, _ => none
  | turns + 1, nHeight, state =>
    if nHeight = state.heightOf target then some ⟨state, false, true⟩
    else if nHeight + 32 ≥ 2 ^ 31 then none
    else
      let nTargetHeight := min (nHeight + 32) (state.heightOf target)
      let pending := blocksToConnect state.blocks nHeight ((nTargetHeight - nHeight).toNat + 1)
        (getAncestor state.blocks target nTargetHeight)
      match connectBlocks addresses connects oldTip (pending.headD target) pending.reverse state with
      | none => none
      | some result =>
        if result.fContinue then connectChunks oldTip target turns nTargetHeight result.state
        else some result

/-- The new state and `fInvalidFound`. -/
def activateBestChainStep (state : Chainstate) (target : Uint256) : Option (Chainstate × Bool) :=
  let oldTip := (state.tip.bind state.blocks.lookup).map nChainWork
  let pindexFork := state.findFork target
  match state.disconnectTo pindexFork with
  | none => none
  | some forked =>
    let nHeight := (pindexFork.map state.heightOf).getD (-1)
    match connectChunks addresses connects oldTip target
        ((state.heightOf target - nHeight).toNat + 1) nHeight forked with
    | none => none
    | some result => some (result.state, result.fInvalidFound)

end Step

/-! ## Activation -/

structure Progress where
  state : Chainstate
  pindexMostWork : Option Uint256
  blocksConnected : Bool

section Activate

variable (addresses : Addresses) (connects : Uint256 → Bool)

/-- The loop that holds the lock: steps until the tip is no worse than it was at the start. -/
def advance (startingTip : Option Uint256) : Nat → Progress → Option Progress
  | 0, _ => none
  | turns + 1, progress =>
    let found :=
      match progress.pindexMostWork with
      | some pindexMostWork => some (some pindexMostWork, progress.state)
      | none => progress.state.findMostWorkChain addresses
    match found with
    | none => none
    | some (none, state) => some ⟨state, none, progress.blocksConnected⟩
    | some (some pindexMostWork, state) =>
      if state.tip = some pindexMostWork then
        some ⟨state, some pindexMostWork, progress.blocksConnected⟩
      else
        match state.activateBestChainStep addresses connects pindexMostWork with
        | none => none
        | some (stepped, fInvalidFound) =>
          let next : Progress := ⟨stepped, if fInvalidFound then none else some pindexMostWork, true⟩
          match stepped.tip with
          | none => advance startingTip turns next
          | some tip =>
            if startingTip.any fun start => workComparator addresses stepped.blocks tip start
            then advance startingTip turns next
            else some next

/-- One round of the outer loop, in which the lock is held. `returned` says that the call
ends with it. -/
structure Round where
  state : Chainstate
  pindexMostWork : Option Uint256
  returned : Bool

def activateRound (turns : Nat) (pindexMostWork : Option Uint256) (state : Chainstate) : Option Round :=
  match advance addresses connects state.tip turns ⟨state, pindexMostWork, false⟩ with
  | none => none
  | some progress =>
    some ⟨progress.state, progress.pindexMostWork,
      !progress.blocksConnected || progress.state.tip == progress.pindexMostWork⟩

/-- The rounds of one call. A shutdown request ends it after a number of them; the flag says
whether it ended by itself. -/
def activateRounds (turns : Nat) : Nat → Option Uint256 → Chainstate → Option (Chainstate × Bool)
  | 0, _, state => some (state, false)
  | rounds + 1, pindexMostWork, state =>
    match activateRound addresses connects turns pindexMostWork state with
    | none => none
    | some round =>
      if round.returned then some (round.state, true)
      else activateRounds turns rounds round.pindexMostWork round.state

/-- `ActivateBestChain`, when nothing happens between its rounds. Interrupts are looked at
after the first one. -/
def activateBestChain (turns rounds : Nat) (state : Chainstate) : Option (Chainstate × Bool) :=
  activateRounds addresses connects turns (rounds + 1) none state

end Activate

/-! ## Invalidation -/

section Invalidate

variable (addresses : Addresses)

def highpowOutofchainHeaders (state : Chainstate) (pprev : Uint256) : List Uint256 :=
  ((state.blocks.entries.filter fun entry =>
      !state.contains entry.1 && !workComparator addresses state.blocks entry.1 pprev &&
        !entry.2.failed).insertionSort fun left right => left.2.nChainWork ≤ right.2.nChainWork).map
    Sigma.fst

def setBestHeader (state : Chainstate) (pindex : Uint256) : Chainstate :=
  { state with chainman := { state.chainman with mBestHeader := some pindex } }

def workOf (state : Chainstate) (pindex : Uint256) : ArithUint256 :=
  ((state.blocks.lookup pindex).map nChainWork).getD 0

/-- One header outside the chain, after a block has been disconnected: it is marked with the
block, or may become a candidate. -/
def visitHeader (disconnectedTip newTip : Uint256) (needsUpdate : Bool) (state : Chainstate)
    (candidate : Uint256) : Chainstate :=
  if descendsFrom state.blocks candidate disconnectedTip then
    state.changeEntry candidate markFailed
  else
    let inserted :=
      if !workComparator addresses state.blocks candidate newTip && (state.blocks.lookup candidate).any fun entry =>
            entry.isValid BLOCK_VALID_TRANSACTIONS && entry.haveNumChainTxs then
        state.insertCandidate candidate
      else state
    if needsUpdate && decide ((inserted.chainman.mBestHeader.map inserted.workOf).getD 0 <
        inserted.workOf candidate) then
      inserted.setBestHeader candidate
    else inserted

/-- Disconnects the tip, marks it and looks at the headers with as much work as its parent.
The second part is what is left of these. -/
def invalidateTip (headers : List Uint256) (state : Chainstate) (disconnectedTip newTip : Uint256) :
    Chainstate × List Uint256 :=
  let popped := { state with mChain := state.mChain.dropLast }
  let marked := ((popped.changeEntry disconnectedTip markFailed).eraseCandidate
    disconnectedTip).insertCandidate newTip
  let needsUpdate := marked.chainman.mBestHeader.any fun best =>
    descendsFrom marked.blocks best disconnectedTip
  let headed := if needsUpdate then marked.setBestHeader newTip else marked
  let high := headers.filter fun header => decide (headed.workOf newTip ≤ headed.workOf header)
  (high.foldl (visitHeader addresses disconnectedTip newTip needsUpdate) headed,
    headers.filter fun header => !(high.contains header && descendsFrom headed.blocks header disconnectedTip))

/-- What `InvalidateBlock` carries from one locked section to the next. -/
structure Invalidation where
  pindex : Uint256
  headers : List Uint256
  toMarkFailed : Uint256
  pindexWasInChain : Bool
deriving DecidableEq

/-- The genesis block cannot be invalidated. -/
def startInvalidation (state : Chainstate) (pindex : Uint256) : Option Invalidation :=
  if state.heightOf pindex = 0 then none
  else
    match parentOf state.blocks pindex with
    | none => none
    | some pprev => some ⟨pindex, state.highpowOutofchainHeaders addresses pprev, pindex, false⟩

/-- One turn of the loop, while the block is in the chain. -/
def invalidateRound (state : Chainstate) (call : Invalidation) : Option (Chainstate × Invalidation) :=
  if state.contains call.pindex then
    match state.tip with
    | none => none
    | some disconnectedTip =>
      match parentOf state.blocks disconnectedTip with
      | none => none
      | some newTip =>
        let marked := invalidateTip addresses call.headers state disconnectedTip newTip
        some (marked.1, ⟨call.pindex, marked.2, disconnectedTip, true⟩)
  else some (state, call)

/-- The blocks that could be the tip and are no worse than it. -/
def missedCandidates (state : Chainstate) : List Uint256 :=
  (state.blocks.entries.filter fun entry =>
    entry.2.isValid BLOCK_VALID_TRANSACTIONS && entry.2.haveNumChainTxs &&
      !state.tip.any fun tip => workComparator addresses state.blocks entry.1 tip).map Sigma.fst

/-- The last section of `InvalidateBlock`, after the loop or a shutdown request. -/
def finishInvalidation (state : Chainstate) (call : Invalidation) : Chainstate :=
  if state.contains call.toMarkFailed then state
  else
    let marked :=
      if !call.pindexWasInChain && !(state.blocks.lookup call.pindex).any failed then
        (state.changeEntry call.pindex markFailed).eraseCandidate call.pindex
      else state
    ((marked.missedCandidates addresses).foldl insertCandidate marked).invalidChainFound call.toMarkFailed

/-! ## Reconsideration -/

def resetBlockFailureFlags (state : Chainstate) (pindex : Uint256) : Chainstate :=
  let affected (key : Uint256) (entry : CBlockIndex) : Bool :=
    entry.failed && (descendsFrom state.blocks key pindex || descendsFrom state.blocks pindex key)
  let cleared := state.changeEntries affected clearFailed
  let returned := (state.blocks.entries.filter fun entry =>
    affected entry.1 entry.2 && entry.2.clearFailed.isValid BLOCK_VALID_TRANSACTIONS && entry.2.haveNumChainTxs &&
      state.tip.any fun tip => workComparator addresses state.blocks tip entry.1).map Sigma.fst
  let best := state.mBestInvalid.any fun best => (state.blocks.lookup best).any (affected best)
  { returned.foldl insertCandidate cleared with
    mBestInvalid := if best then none else state.mBestInvalid }

end Invalidate

end Chainstate

/-! ## Events -/

/-- What holds `m_chainstate_mutex`. Both calls release `cs_main` between their sections, and
headers, block data and reconsiderations may come in there. -/
inductive Underway where
  | nothing
  | activation (pindexMostWork : Option Uint256)
  | invalidation (call : Chainstate.Invalidation)
deriving DecidableEq

structure ChainNode where
  chainstate : Chainstate
  underway : Underway := .nothing

/-- The sections in which `cs_main` is held, and the interrupt of an activation. -/
inductive ChainEvent where
  | acceptBlockHeader (input : HeaderInput)
  | receivedBlockTransactions (pindex : Uint256) (nTx : UInt32) (pos : Chainstate.FlatFilePos)
  | resetBlockFailureFlags (pindex : Uint256)
  | activateRound (turns : Nat)
  | activateInterrupt
  | invalidateStart (pindex : Uint256)
  | invalidateRound
  | invalidateFinish

section Events

variable (env : HashEnv) (addresses : Addresses) (params : CChainParams env.sha256d) (connects : Uint256 → Bool)

/-- The height of a new entry is computed as an `int`. -/
def heightOverflows (blocks : BlockMap) (header : CBlockHeader) : Bool :=
  (blocks.lookup (header.getHash env.sha256d)).isNone &&
    (blocks.lookup header.hashPrevBlock).any fun parent => decide (parent.nHeight = 2 ^ 31 - 1)

/-- `AcceptBlock` passes the data of a block on when its entry is not failed and has no data
yet; a block that passes the checks has a transaction. -/
def takesData (blocks : BlockMap) (pindex : Uint256) (nTx : UInt32) : Bool :=
  nTx != 0 && (blocks.lookup pindex).any fun entry => !entry.failed && !entry.haveData

/-- `none` when the event cannot come now, or is undefined behaviour. -/
def chainStep (node : ChainNode) : ChainEvent → Option ChainNode
  | .acceptBlockHeader input =>
    if heightOverflows env node.chainstate.blocks input.block then none
    else some { node with chainstate := { node.chainstate with
      chainman := (acceptBlockHeader env params.consensus input node.chainstate.chainman).2 } }
  | .receivedBlockTransactions pindex nTx pos =>
    if takesData node.chainstate.blocks pindex nTx then
      some { node with chainstate :=
        node.chainstate.receivedBlockTransactions addresses params.consensus nTx pindex pos }
    else none
  | .resetBlockFailureFlags pindex =>
    if (node.chainstate.blocks.lookup pindex).isSome then
      some { node with chainstate := node.chainstate.resetBlockFailureFlags addresses pindex }
    else none
  | .activateRound turns =>
    let cached :=
      match node.underway with
      | .nothing => some none
      | .activation pindexMostWork => some pindexMostWork
      | .invalidation _ => none
    match cached with
    | none => none
    | some pindexMostWork =>
      match node.chainstate.activateRound addresses connects turns pindexMostWork with
      | none => none
      | some round =>
        some ⟨round.state, if round.returned then .nothing else .activation round.pindexMostWork⟩
  | .activateInterrupt =>
    match node.underway with
    | .activation _ => some ⟨node.chainstate, .nothing⟩
    | _ => none
  | .invalidateStart pindex =>
    match node.underway, node.chainstate.startInvalidation addresses pindex with
    | .nothing, some call => some ⟨node.chainstate, .invalidation call⟩
    | _, _ => none
  | .invalidateRound =>
    match node.underway with
    | .invalidation call =>
      (node.chainstate.invalidateRound addresses call).map fun next =>
        ⟨next.1, .invalidation next.2⟩
    | _ => none
  | .invalidateFinish =>
    match node.underway with
    | .invalidation call => some ⟨node.chainstate.finishInvalidation addresses call, .nothing⟩
    | _ => none

/-- A run of the events the condition allows. -/
def runChain (allowed : ChainNode → ChainEvent → Bool) : List ChainEvent → ChainNode → Option ChainNode
  | [], node => some node
  | event :: events, node =>
    if allowed node event then
      match chainStep env addresses params connects node event with
      | none => none
      | some next => runChain allowed events next
    else none

/-- `LoadGenesisBlock`: the genesis header and its data. -/
def loadGenesisBlock (pos : Chainstate.FlatFilePos) : Chainstate :=
  Chainstate.receivedBlockTransactions addresses params.consensus
    { chainman := genesisChainman env params } 1 params.consensus.hashGenesisBlock pos

def genesisNode (pos : Chainstate.FlatFilePos) : ChainNode :=
  { chainstate := (loadGenesisBlock env addresses params pos).connectTip
      params.consensus.hashGenesisBlock }

end Events

end Sharecoin
