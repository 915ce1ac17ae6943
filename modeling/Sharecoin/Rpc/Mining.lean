import Sharecoin.Node.Miner

/-! The mining RPCs `setprogpowminingaddress`, `getblocktemplate` and `pprpcsb`, over
the globals and function statics they share. -/

set_option autoImplicit false

namespace Sharecoin.Rpc

open Lib

/-! ## Arguments -/

def hexDigit (c : Char) : Option Nat :=
  if '0' ≤ c ∧ c ≤ '9' then some (c.toNat - '0'.toNat)
  else if 'a' ≤ c ∧ c ≤ 'f' then some (c.toNat - 'a'.toNat + 10)
  else if 'A' ≤ c ∧ c ≤ 'F' then some (c.toNat - 'A'.toNat + 10)
  else none

def hexNumber (text : List Char) : Option Nat :=
  text.foldlM (fun number c => (hexDigit c).map (16 * number + ·)) 0

/-- `ParseHashV`; `none` where it throws. -/
def parseHash (text : List Char) : Option Uint256 :=
  if text.length = 64 then (hexNumber text).map Uint256.ofNat else none

def parseHexNonce (str : List Char) : Option UInt64 :=
  let digits :=
    match str with
    | '0' :: 'x' :: c :: rest => c :: rest
    | '0' :: 'X' :: c :: rest => c :: rest
    | _ => str
  if digits.isEmpty then none
  else
    match hexNumber digits with
    | none => none
    | some number => if number < 2 ^ 64 then some (UInt64.ofNat number) else none

/-! ## Shared state -/

/-- The globals of the mining RPCs and the statics of `getblocktemplate`. A pointer
to an index entry is the entry's hash. -/
structure MiningState where
  gProgpowBlockTemplates : AList fun _ : String => CBlock := ∅
  gProgpowCoinbaseScript : CScript := []
  nTransactionsUpdatedLast : UInt32 := 0
  pindexPrev : Option Uint256 := none
  timeStart : Int := 0
  blockTemplate : Option CBlock := none

/-! ## `setprogpowminingaddress` -/

inductive AddressError where
  | invalidAddress
deriving DecidableEq

/-- Addresses are decoded by a parameter. -/
def setprogpowminingaddress (decodeDestination : String → CTxDestination) (address : String)
    (state : MiningState) : Except AddressError Unit × MiningState :=
  let destination := decodeDestination address
  if !isValidDestination destination then (.error .invalidAddress, state)
  else (.ok (), { state with gProgpowCoinbaseScript := getScriptForDestination destination })

/-! ## `getblocktemplate` -/

inductive TemplateError where
  | invalidMode
  | notConnected
  | initialDownload
  | longpollid (text : List Char)
  | shuttingDown
  | missingSignetRule
  | missingSegwitRule
  | createNewBlock
  | nullIndex
  | unsupportedRule (name : String)
deriving DecidableEq

inductive LongPollId where
  | text (lpstr : List Char)
  | other
deriving DecidableEq

structure TemplateRequest where
  mode : String := "template"
  rules : List String := []
  longpollid : Option LongPollId := none
deriving DecidableEq

/-- The fields of the reply, without transactions, rules and the texts that spell
the header for other mining protocols. -/
structure TemplateResult where
  version : Int32
  previousblockhash : String
  coinbasevalue : Int
  longpollid : String
  pprpcheader : String
  pprpcepoch : Int
  mintime : Int
  curtime : UInt32
  bits : UInt32
  height : Int
deriving DecidableEq

inductive TemplateReply where
  | proposal
  | template (result : TemplateResult)
deriving DecidableEq

section Template

variable (sha256d : Bytes → Uint256) (params : Params)

def checkTemplateCall (isTestChain : Bool) (entry : NodeView) (request : TemplateRequest) : Except TemplateError Unit :=
  if request.mode ≠ "template" then .error .invalidMode
  else if !isTestChain && entry.nodeCount == 0 then .error .notConnected
  else if !isTestChain && entry.isInitialBlockDownload then .error .initialDownload
  else .ok ()

/-- Long polling and the client's rules. A poll waits without the lock, so `view` is
the node state when the wait is over. -/
def checkTemplateRules (view : NodeView) (request : TemplateRequest) : Except TemplateError Unit :=
  let unparsed :=
    match request.longpollid with
    | some (.text lpstr) =>
      if (parseHash (lpstr.take 64)).isNone then some (lpstr.take 64) else none
    | _ => none
  if let some text := unparsed then .error (.longpollid text)
  else if request.longpollid.isSome && !view.isRPCRunning then .error .shuttingDown
  else if params.signetBlocks && !request.rules.contains "signet" then .error .missingSignetRule
  else if !request.rules.contains "segwit" then .error .missingSegwitRule
  else .ok ()

def needsNewTemplate (view : NodeView) (state : MiningState) : Bool :=
  state.pindexPrev != some view.tip ||
    view.transactionsUpdated != state.nTransactionsUpdatedLast && view.now - state.timeStart > 5

/-- The payout script is read here and nowhere else. -/
def refreshTemplate (view : NodeView) (state : MiningState) : Except TemplateError Unit × MiningState :=
  if needsNewTemplate view state then
    let cleared : MiningState :=
      { state with
        pindexPrev := none
        nTransactionsUpdatedLast := view.transactionsUpdated
        timeStart := view.now }
    match createNewBlock sha256d params view state.gProgpowCoinbaseScript with
    | none => (.error .createNewBlock, cleared)
    | some block => (.ok (), { cleared with blockTemplate := some block, pindexPrev := some view.tip })
  else (.ok (), state)

def maskVersion (rules : List String) (nVersion : Int32) (name : String) (info : DeploymentInfo) : Int32 :=
  if !info.gbtOptionalRule && !rules.contains name then
    (nVersion.toUInt32 &&& ~~~info.mask).toInt32
  else nVersion

def templateVersion (gbtstatus : BIP9GBTStatus) (rules : List String) (nVersion : Int32) : Int32 :=
  let signalled := gbtstatus.signalling.foldl (fun version entry => maskVersion rules version entry.1 entry.2) nVersion
  gbtstatus.lockedIn.foldl (fun version entry =>
      maskVersion rules (version.toUInt32 ||| entry.2.mask).toInt32 entry.1 entry.2)
    signalled

def unsupportedRule (gbtstatus : BIP9GBTStatus) (rules : List String) : Option String :=
  (gbtstatus.active.find? fun entry => !entry.2.gbtOptionalRule && !rules.contains entry.1).map
    Prod.fst

/-- The block that is handed out: the template with a new time, version and merkle
root, and no solution. -/
def assembleBlock (view : NodeView) (request : TemplateRequest) (pindexPrev : Uint256)
    (prev : CBlockIndex) (template : CBlock) : Except TemplateError CBlock :=
  match updateTime params view.blocks pindexPrev prev view.now template.header with
  | none => .error .nullIndex
  | some header =>
    match unsupportedRule view.gbtstatus request.rules with
    | some name => .error (.unsupportedRule name)
    | none =>
      let nVersion := templateVersion view.gbtstatus request.rules header.nVersion
      let hashMerkleRoot := (blockMerkleRoot sha256d template).1
      .ok { template with
        header := { header with nVersion, hashMerkleRoot, nNonce64 := 0, mixHash := .zero } }

def pprpcheader (block : CBlock) : String := (block.header.getPoWHeaderHash sha256d).getHex

def templateResult (view : NodeView) (state : MiningState) (pindexPrev : Uint256)
    (prev : CBlockIndex) (block : CBlock) : TemplateResult :=
  { version := block.header.nVersion
    previousblockhash := block.header.hashPrevBlock.getHex
    coinbasevalue := ((block.vtx.head?.bind fun coinbase => coinbase.vout.head?).map
      CTxOut.nValue).getD 0
    longpollid := view.tip.getHex ++ toString state.nTransactionsUpdatedLast
    pprpcheader := pprpcheader sha256d block
    pprpcepoch := getEpochNumber (castInt block.header.nHeight)
    mintime := getMinimumTime view.blocks pindexPrev prev params.difficultyAdjustmentInterval
    curtime := block.header.nTime
    bits := block.header.nBits
    height := wrap32 (prev.nHeight + 1) }

def serveTemplate (view : NodeView) (request : TemplateRequest) (state : MiningState) :
    Except TemplateError TemplateReply × MiningState :=
  match state.pindexPrev, state.blockTemplate with
  | some pindexPrev, some template =>
    match view.blocks.lookup pindexPrev with
    | none => (.error .nullIndex, state)
    | some prev =>
      match assembleBlock sha256d params view request pindexPrev prev template with
      | .error error => (.error error, state)
      | .ok block =>
        (.ok (.template (templateResult sha256d params view state pindexPrev prev block)),
          { state with
            gProgpowBlockTemplates := state.gProgpowBlockTemplates.insert (pprpcheader sha256d block) block })
  | _, _ => (.error .nullIndex, state)

/-- A call that entered in the node state `entry` and took the lock in `view`. -/
def getblocktemplate (isTestChain : Bool) (entry view : NodeView) (request : TemplateRequest)
    (state : MiningState) : Except TemplateError TemplateReply × MiningState :=
  if request.mode = "proposal" then (.ok .proposal, state)
  else
    match checkTemplateCall isTestChain entry request with
    | .error error => (.error error, state)
    | .ok () =>
      match checkTemplateRules params view request with
      | .error error => (.error error, state)
      | .ok () =>
        match refreshTemplate sha256d params view state with
        | (.error error, cleared) => (.error error, cleared)
        | (.ok (), refreshed) => serveTemplate sha256d params view request refreshed

end Template

/-! ## `pprpcsb` -/

inductive SubmitError where
  | mixHash (text : List Char)
  | nonce
  | notCached
  | noCoinbase
deriving DecidableEq

def pprpcsb (params : Params) (view : NodeView) (headerHash mixHash nonce : String)
    (state : MiningState) : Except SubmitError CBlock :=
  match parseHash mixHash.toList, parseHexNonce nonce.toList with
  | none, _ => .error (.mixHash mixHash.toList)
  | some _, none => .error .nonce
  | some mix, some nonce64 =>
    match state.gProgpowBlockTemplates.lookup headerHash with
    | none => .error .notCached
    | some cached =>
      let block : CBlock := { cached with header := { cached.header with nNonce64 := nonce64, mixHash := mix } }
      match block.vtx with
      | [] => .error .noCoinbase
      | coinbase :: _ =>
        if !coinbase.isCoinBase then .error .noCoinbase
        else
          match view.blocks.lookup block.header.hashPrevBlock with
          | none => .ok block
          | some pindex => .ok (updateUncommittedBlockStructures params pindex block)

end Sharecoin.Rpc
