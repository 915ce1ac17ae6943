import Sharecoin.Rpc.Mining

/-! Which address the blocks handed out by `getblocktemplate` and submitted by
`pprpcsb` pay, along every interleaving of the mining RPCs with changes of the
node. The static template keeps the script it was built with, so the address in
force is paid exactly as long as no call is served from a template built for
another script. -/

set_option autoImplicit false

namespace Sharecoin.Rpc

open Lib

/-! ## Runs -/

inductive MiningCall where
  | setprogpowminingaddress (address : String)
  | getblocktemplate (entry : NodeView) (request : TemplateRequest)
  | pprpcsb (headerHash mixHash nonce : String)
  | nodeChanged (view : NodeView)

structure MiningEnv where
  sha256d : Bytes → Uint256
  params : Params
  isTestChain : Bool
  decodeDestination : String → CTxDestination

/-- A run: the node, the RPC state, and three facts about its history. `configured`
is the address of the last successful `setprogpowminingaddress`, `builtFor` the
payout script when the static template was last built, and `promised` the address
in force when a header was last handed out. -/
structure MiningRun where
  view : NodeView
  state : MiningState
  configured : Option CTxDestination
  builtFor : CScript
  promised : AList fun _ : String => CTxDestination

def payoutScript (block : CBlock) : Option CScript :=
  (block.vtx.head?.bind fun coinbase => coinbase.vout.head?).map CTxOut.scriptPubKey

section Runs

variable (env : MiningEnv)

def MiningRun.serve (run : MiningRun) (entry : NodeView) (request : TemplateRequest) :
    Except TemplateError TemplateReply × MiningState :=
  getblocktemplate env.sha256d env.params env.isTestChain entry run.view request run.state

def MiningRun.create (run : MiningRun) : Option CBlock :=
  createNewBlock env.sha256d env.params run.view run.state.gProgpowCoinbaseScript

def MiningRun.rebuilds (run : MiningRun) (entry : NodeView) (request : TemplateRequest) : Bool :=
  request.mode ≠ "proposal" && (checkTemplateCall env.isTestChain entry request).isOk &&
    (checkTemplateRules env.params run.view request).isOk &&
    needsNewTemplate run.view run.state && (run.create env).isSome

def MiningRun.promise (run : MiningRun) (reply : Except TemplateError TemplateReply) :
    AList fun _ : String => CTxDestination :=
  match reply, run.configured with
  | .ok (.template result), some destination => run.promised.insert result.pprpcheader destination
  | .ok (.template result), none => run.promised.erase result.pprpcheader
  | _, _ => run.promised

def miningStep (run : MiningRun) : MiningCall → MiningRun
  | .setprogpowminingaddress address =>
    let outcome := Rpc.setprogpowminingaddress env.decodeDestination address run.state
    { run with
      state := outcome.2
      configured := if outcome.1.isOk then some (env.decodeDestination address) else run.configured }
  | .getblocktemplate entry request =>
    let outcome := run.serve env entry request
    { run with
      state := outcome.2
      builtFor := if run.rebuilds env entry request then run.state.gProgpowCoinbaseScript else run.builtFor
      promised := run.promise outcome.1 }
  | .pprpcsb _ _ _ => run
  | .nodeChanged view => { run with view }

def runMining (view : NodeView) (calls : List MiningCall) : MiningRun :=
  calls.foldl (miningStep env) ⟨view, {}, none, [], ∅⟩

/-- A handed out block pays the address in force, and a submitted block pays the
address in force when its header was handed out. -/
def StepPays (run : MiningRun) : MiningCall → Prop
  | .getblocktemplate entry request =>
    ∀ destination result, run.configured = some destination → (run.serve env entry request).1 = .ok (.template result) →
      ∃ block, (run.serve env entry request).2.gProgpowBlockTemplates.lookup result.pprpcheader = some block ∧
          payoutScript block = some (getScriptForDestination destination)
  | .pprpcsb headerHash mixHash nonce =>
    ∀ destination block, run.promised.lookup headerHash = some destination →
      pprpcsb env.params run.view headerHash mixHash nonce run.state = .ok block →
      payoutScript block = some (getScriptForDestination destination)
  | _ => True

/-- The payout address takes effect: every call of the run pays as promised. -/
def PayoutEffective (view : NodeView) (calls : List MiningCall) : Prop :=
  ∀ before call after, calls = before ++ call :: after → StepPays env (runMining env view before) call

/-- A call is not served from a template built for another script: it builds a new
one, or the payout script is the one of the last build. -/
def StepFresh (run : MiningRun) : MiningCall → Prop
  | .getblocktemplate entry request =>
    ∀ destination result, run.configured = some destination → (run.serve env entry request).1 = .ok (.template result) →
      needsNewTemplate run.view run.state = true ∨ run.builtFor = run.state.gProgpowCoinbaseScript
  | _ => True

def AlwaysFresh (view : NodeView) (calls : List MiningCall) : Prop :=
  ∀ before call after, calls = before ++ call :: after → StepFresh env (runMining env view before) call

end Runs

/-! ## What the functions do to the payout -/

variable {block template : CBlock} {script : CScript} {params : Params} {sha256d : Bytes → Uint256}
  {view : NodeView} {request : TemplateRequest} {state : MiningState}

theorem payoutScript_eq : payoutScript block = some script ↔ ∃ coinbase vtx txout vout,
      block.vtx = coinbase :: vtx ∧ coinbase.vout = txout :: vout ∧ txout.scriptPubKey = script := by
  constructor
  · intro pays
    obtain ⟨txout, found, same⟩ := Option.map_eq_some_iff.mp pays
    obtain ⟨coinbase, first, output⟩ := Option.bind_eq_some_iff.mp found
    obtain ⟨vtx, transactions⟩ := List.head?_eq_some_iff.mp first
    obtain ⟨vout, outputs⟩ := List.head?_eq_some_iff.mp output
    exact ⟨coinbase, vtx, txout, vout, transactions, outputs, same⟩
  · rintro ⟨coinbase, vtx, txout, vout, transactions, outputs, same⟩
    simp [payoutScript, transactions, outputs, same]

theorem payoutScript_updateUncommitted (pindexPrev : CBlockIndex) (block : CBlock) :
    payoutScript (updateUncommittedBlockStructures params pindexPrev block) = payoutScript block := by
  unfold updateUncommittedBlockStructures
  cases transactions : block.vtx with
  | nil => rfl
  | cons coinbase vtx =>
    dsimp only
    split
    · simp [payoutScript, transactions]
    · rfl

theorem payoutScript_generateCoinbaseCommitment (pindexPrev : CBlockIndex)
    (pays : payoutScript block = some script) :
    payoutScript (generateCoinbaseCommitment sha256d params pindexPrev block) = some script := by
  obtain ⟨coinbase, vtx, txout, vout, transactions, outputs, same⟩ := payoutScript_eq.mp pays
  rw [generateCoinbaseCommitment, payoutScript_updateUncommitted, transactions]
  dsimp only
  split
  · exact pays
  · simp [payoutScript, outputs, same]

theorem createNewBlock_pays (created : createNewBlock sha256d params view script = some block) :
    payoutScript block = some script := by
  unfold createNewBlock at created
  obtain ⟨prev, _, created⟩ := Option.bind_eq_some_iff.mp created
  dsimp only at created
  split at created
  · cases created
  obtain ⟨timed, _, created⟩ := Option.bind_eq_some_iff.mp created
  obtain ⟨nBits, _, created⟩ := Option.bind_eq_some_iff.mp created
  split at created
  · cases created
    exact payoutScript_generateCoinbaseCommitment prev rfl
  · cases created

theorem assembleBlock_vtx {pindexPrev : Uint256} {prev : CBlockIndex}
    (assembled : assembleBlock sha256d params view request pindexPrev prev template = .ok block) :
    block.vtx = template.vtx := by
  unfold assembleBlock at assembled
  split at assembled
  · cases assembled
  split at assembled
  · cases assembled
  · cases assembled
    rfl

theorem pprpcsb_pays {headerHash mixHash nonce : String}
    (submitted : pprpcsb params view headerHash mixHash nonce state = .ok block) :
    ∃ cached, state.gProgpowBlockTemplates.lookup headerHash = some cached ∧
      payoutScript block = payoutScript cached := by
  unfold pprpcsb at submitted
  split at submitted
  · cases submitted
  · cases submitted
  cases found : state.gProgpowBlockTemplates.lookup headerHash with
  | none =>
    rw [found] at submitted
    cases submitted
  | some cached =>
    rw [found] at submitted
    refine ⟨cached, rfl, ?_⟩
    dsimp only at submitted
    cases transactions : cached.vtx with
    | nil =>
      rw [transactions] at submitted
      cases submitted
    | cons coinbase vtx =>
      rw [transactions] at submitted
      dsimp only at submitted
      split at submitted
      · cases submitted
      split at submitted
      · cases submitted
        simp [payoutScript, transactions]
      · cases submitted
        rw [payoutScript_updateUncommitted]
        simp [payoutScript, transactions]

/-! ## One call -/

variable {entry : NodeView} {result : TemplateResult} {run : MiningRun} {env : MiningEnv}

theorem serveTemplate_spec {outcome : Except TemplateError TemplateReply × MiningState}
    (ran : outcome = serveTemplate sha256d params view request state) :
    outcome.2.gProgpowCoinbaseScript = state.gProgpowCoinbaseScript ∧ outcome.2.blockTemplate = state.blockTemplate ∧
      ((outcome.1.isOk = false ∧ outcome.2 = state) ∨ ∃ result template block, outcome.1 = .ok (.template result) ∧
        state.blockTemplate = some template ∧ payoutScript block = payoutScript template ∧
        outcome.2.gProgpowBlockTemplates = state.gProgpowBlockTemplates.insert result.pprpcheader block) := by
  unfold serveTemplate at ran
  split at ran
  next pindexPrev template prevFound built =>
    split at ran
    · cases ran
      exact ⟨rfl, rfl, .inl ⟨rfl, rfl⟩⟩
    split at ran
    · cases ran
      exact ⟨rfl, rfl, .inl ⟨rfl, rfl⟩⟩
    next block assembled =>
      cases ran
      have transactions := assembleBlock_vtx assembled
      exact ⟨rfl, rfl, .inr ⟨_, template, block, rfl, built, by simp [payoutScript, transactions], rfl⟩⟩
  next =>
    cases ran
    exact ⟨rfl, rfl, .inl ⟨rfl, rfl⟩⟩

structure Served (env : MiningEnv) (run : MiningRun) (entry : NodeView)
    (request : TemplateRequest) : Prop where
  script : (run.serve env entry request).2.gProgpowCoinbaseScript = run.state.gProgpowCoinbaseScript
  template : (run.serve env entry request).2.blockTemplate =
    if run.rebuilds env entry request then run.create env else run.state.blockTemplate
  renewed : ∀ result, (run.serve env entry request).1 = .ok (.template result) →
    run.rebuilds env entry request = needsNewTemplate run.view run.state
  cached : ∀ result, (run.serve env entry request).1 = .ok (.template result) →
    ∃ template block, (run.serve env entry request).2.blockTemplate = some template ∧
      payoutScript block = payoutScript template ∧
      (run.serve env entry request).2.gProgpowBlockTemplates =
        run.state.gProgpowBlockTemplates.insert result.pprpcheader block
  kept : (∀ result, (run.serve env entry request).1 ≠ .ok (.template result)) →
    (run.serve env entry request).2.gProgpowBlockTemplates = run.state.gProgpowBlockTemplates

theorem served_of_unreplied (rebuilt : run.rebuilds env entry request = false)
    (replies : ∀ result, (run.serve env entry request).1 ≠ .ok (.template result))
    (script : (run.serve env entry request).2.gProgpowCoinbaseScript = run.state.gProgpowCoinbaseScript)
    (template : (run.serve env entry request).2.blockTemplate = run.state.blockTemplate)
    (cache : (run.serve env entry request).2.gProgpowBlockTemplates =
      run.state.gProgpowBlockTemplates) : Served env run entry request where
  script := script
  template := by rw [template, rebuilt]; rfl
  renewed result replied := absurd replied (replies result)
  cached result replied := absurd replied (replies result)
  kept _ := cache

theorem served_of_serveTemplate (refreshed : MiningState) (serves : run.serve env entry request =
      serveTemplate env.sha256d env.params run.view request refreshed)
    (script : refreshed.gProgpowCoinbaseScript = run.state.gProgpowCoinbaseScript)
    (cache : refreshed.gProgpowBlockTemplates = run.state.gProgpowBlockTemplates)
    (template : refreshed.blockTemplate =
      if run.rebuilds env entry request then run.create env else run.state.blockTemplate)
    (renewed : run.rebuilds env entry request = needsNewTemplate run.view run.state) :
    Served env run entry request := by
  obtain ⟨keepsScript, keepsTemplate, outcome⟩ := serveTemplate_spec serves
  refine ⟨keepsScript.trans script, keepsTemplate.trans template, fun _ _ => renewed, ?_, ?_⟩
  · intro result replied
    rcases outcome with ⟨failed, _⟩ | ⟨_, template, block, reply, built, pays, inserted⟩
    · rw [replied] at failed
      cases failed
    · rw [replied] at reply
      cases reply
      exact ⟨template, block, keepsTemplate.trans built, pays, by rw [inserted, cache]⟩
  · intro unserved
    rcases outcome with ⟨_, same⟩ | ⟨result, _, _, reply, _⟩
    · rw [same, cache]
    · exact absurd reply (unserved result)

theorem serve_spec (env : MiningEnv) (run : MiningRun) (entry : NodeView)
    (request : TemplateRequest) : Served env run entry request := by
  by_cases proposal : request.mode = "proposal"
  · apply served_of_unreplied <;>
      simp [MiningRun.rebuilds, MiningRun.serve, getblocktemplate, proposal]
  cases admitted : checkTemplateCall env.isTestChain entry request with
  | error error =>
    apply served_of_unreplied <;>
      simp [MiningRun.rebuilds, MiningRun.serve, getblocktemplate, proposal, admitted, Except.isOk, Except.toBool]
  | ok _ =>
    cases ruled : checkTemplateRules env.params run.view request with
    | error error =>
      apply served_of_unreplied <;>
        simp [MiningRun.rebuilds, MiningRun.serve, getblocktemplate, proposal, admitted, ruled,
          Except.isOk, Except.toBool]
    | ok _ =>
      cases needed : needsNewTemplate run.view run.state with
      | false =>
        apply served_of_serveTemplate run.state <;>
          simp [MiningRun.rebuilds, MiningRun.serve, getblocktemplate, proposal, admitted,
            ruled, needed, refreshTemplate]
      | true =>
        cases created : createNewBlock env.sha256d env.params run.view run.state.gProgpowCoinbaseScript with
        | none =>
          apply served_of_unreplied <;>
            simp [MiningRun.rebuilds, MiningRun.create, MiningRun.serve, getblocktemplate,
              proposal, admitted, ruled, needed, refreshTemplate, created]
        | some block =>
          apply served_of_serveTemplate
            { run.state with
              pindexPrev := some run.view.tip
              nTransactionsUpdatedLast := run.view.transactionsUpdated
              timeStart := run.view.now
              blockTemplate := some block } <;>
            simp [MiningRun.rebuilds, MiningRun.create, MiningRun.serve, getblocktemplate,
              proposal, admitted, ruled, needed, refreshTemplate, created, Except.isOk,
              Except.toBool]

theorem serve_pays (built : ∀ template, run.state.blockTemplate = some template →
      payoutScript template = some run.builtFor)
    (replied : (run.serve env entry request).1 = .ok (.template result)) :
    ∃ block, (run.serve env entry request).2.gProgpowBlockTemplates =
        run.state.gProgpowBlockTemplates.insert result.pprpcheader block ∧
      payoutScript block = some (if needsNewTemplate run.view run.state then
        run.state.gProgpowCoinbaseScript else run.builtFor) := by
  have served := serve_spec env run entry request
  obtain ⟨template, block, current, pays, inserted⟩ := served.cached result replied
  refine ⟨block, inserted, ?_⟩
  rw [served.template, served.renewed result replied] at current
  rw [pays]
  cases needed : needsNewTemplate run.view run.state with
  | true =>
    rw [needed] at current
    exact createNewBlock_pays current
  | false =>
    rw [needed] at current
    exact built template current

/-! ## Whole runs -/

structure MiningRun.Consistent (run : MiningRun) : Prop where
  configured : ∀ destination, run.configured = some destination →
    run.state.gProgpowCoinbaseScript = getScriptForDestination destination
  built : ∀ template, run.state.blockTemplate = some template → payoutScript template = some run.builtFor

/-- Promised headers are cached with a block that pays as promised. -/
def MiningRun.Keeps (run : MiningRun) : Prop :=
  ∀ headerHash destination, run.promised.lookup headerHash = some destination →
    ∃ block, run.state.gProgpowBlockTemplates.lookup headerHash = some block ∧
      payoutScript block = some (getScriptForDestination destination)

theorem miningStep_consistent (consistent : run.Consistent) (call : MiningCall) :
    (miningStep env run call).Consistent := by
  cases call with
  | setprogpowminingaddress address =>
    cases valid : isValidDestination (env.decodeDestination address) with
    | false =>
      have same : miningStep env run (.setprogpowminingaddress address) = run := by
        simp [miningStep, Rpc.setprogpowminingaddress, valid, Except.isOk, Except.toBool]
      rwa [same]
    | true =>
      constructor
      · intro destination
        simp [miningStep, Rpc.setprogpowminingaddress, valid, Except.isOk, Except.toBool]
        rintro rfl
        rfl
      · intro template
        simpa [miningStep, Rpc.setprogpowminingaddress, valid] using consistent.built template
  | getblocktemplate entry request =>
    have served := serve_spec env run entry request
    constructor
    · intro destination configured
      exact served.script.trans (consistent.configured destination configured)
    intro template current
    have renewed := served.template.symm.trans current
    cases rebuilt : run.rebuilds env entry request with
    | true =>
      rw [rebuilt] at renewed
      simpa [miningStep, rebuilt] using createNewBlock_pays renewed
    | false =>
      rw [rebuilt] at renewed
      simpa [miningStep, rebuilt] using consistent.built template renewed
  | pprpcsb headerHash mixHash nonce => exact consistent
  | nodeChanged view => exact ⟨consistent.configured, consistent.built⟩

theorem runMining_consistent (env : MiningEnv) (view : NodeView) (calls : List MiningCall) :
    (runMining env view calls).Consistent := by
  induction calls using List.reverseRecOn with
  | nil => exact ⟨nofun, nofun⟩
  | append_singleton calls call ih =>
    rw [runMining, List.foldl_append]
    exact miningStep_consistent ih call

theorem StepPays.fresh (consistent : run.Consistent) (pays : StepPays env run (.getblocktemplate entry request)) :
    StepFresh env run (.getblocktemplate entry request) := by
  intro destination result configured replied
  obtain ⟨block, found, pays⟩ := pays destination result configured replied
  obtain ⟨cached, inserted, cachedPays⟩ := serve_pays consistent.built replied
  rw [inserted, AList.lookup_insert] at found
  cases found
  rw [pays] at cachedPays
  cases needed : needsNewTemplate run.view run.state with
  | true => exact .inl rfl
  | false =>
    rw [needed] at cachedPays
    rw [consistent.configured destination configured]
    exact .inr (Option.some_inj.mp cachedPays).symm

theorem StepFresh.pays (consistent : run.Consistent) (fresh : StepFresh env run (.getblocktemplate entry request))
    {destination : CTxDestination} (configured : run.configured = some destination)
    (replied : (run.serve env entry request).1 = .ok (.template result)) :
    ∃ block, (run.serve env entry request).2.gProgpowBlockTemplates =
        run.state.gProgpowBlockTemplates.insert result.pprpcheader block ∧
      payoutScript block = some (getScriptForDestination destination) := by
  obtain ⟨block, inserted, pays⟩ := serve_pays consistent.built replied
  refine ⟨block, inserted, ?_⟩
  rw [pays, ← consistent.configured destination configured]
  rcases fresh destination result configured replied with needed | same
  · rw [needed]
    rfl
  · rw [same, ite_self]

theorem promise_lookup (run : MiningRun) (result : TemplateResult) (headerHash : String) :
    (run.promise (.ok (.template result))).lookup headerHash =
      if headerHash = result.pprpcheader then run.configured else run.promised.lookup headerHash := by
  by_cases own : headerHash = result.pprpcheader
  · subst own
    cases configured : run.configured <;> simp [MiningRun.promise, configured]
  · cases configured : run.configured <;>
      simp [MiningRun.promise, configured, own, AList.lookup_erase_ne, AList.lookup_insert_ne]

theorem serve_keeps (consistent : run.Consistent) (keeps : run.Keeps)
    (fresh : StepFresh env run (.getblocktemplate entry request)) :
    (miningStep env run (.getblocktemplate entry request)).Keeps := by
  intro headerHash destination promised
  have history : (run.promise (run.serve env entry request).1).lookup headerHash = some destination := promised
  by_cases replies : ∃ result, (run.serve env entry request).1 = .ok (.template result)
  · obtain ⟨result, replied⟩ := replies
    rw [replied, promise_lookup] at history
    split at history
    next own =>
      subst own
      obtain ⟨block, inserted, pays⟩ := fresh.pays consistent history replied
      exact ⟨block, (congrArg (AList.lookup _) inserted).trans (AList.lookup_insert _), pays⟩
    next other =>
      obtain ⟨block, found, pays⟩ := keeps headerHash destination history
      obtain ⟨added, inserted, _⟩ := serve_pays consistent.built replied
      exact ⟨block, (congrArg (AList.lookup _) inserted).trans ((AList.lookup_insert_ne other).trans found), pays⟩
  · have unserved : ∀ result, (run.serve env entry request).1 ≠ .ok (.template result) := not_exists.mp replies
    have same : run.promise (run.serve env entry request).1 = run.promised := by
      unfold MiningRun.promise
      split <;> simp_all
    rw [same] at history
    obtain ⟨block, found, pays⟩ := keeps headerHash destination history
    exact ⟨block, (congrArg (AList.lookup _) ((serve_spec env run entry request).kept unserved)).trans found, pays⟩

theorem miningStep_keeps (consistent : run.Consistent) (keeps : run.Keeps) {call : MiningCall}
    (fresh : StepFresh env run call) : (miningStep env run call).Keeps := by
  cases call with
  | setprogpowminingaddress address =>
    intro headerHash destination promised
    obtain ⟨block, found, pays⟩ := keeps headerHash destination promised
    refine ⟨block, ?_, pays⟩
    rw [← found]
    refine congrArg (AList.lookup headerHash) ?_
    simp only [miningStep, setprogpowminingaddress]
    split <;> rfl
  | getblocktemplate entry request => exact serve_keeps consistent keeps fresh
  | pprpcsb headerHash mixHash nonce => exact keeps
  | nodeChanged view => exact keeps

theorem AlwaysFresh.before {before after : List MiningCall} (fresh : AlwaysFresh env view (before ++ after)) :
    AlwaysFresh env view before := by
  rintro first step rest rfl
  exact fresh first step (rest ++ after) (by rw [List.append_assoc, List.cons_append])

theorem runMining_keeps {calls : List MiningCall} (fresh : AlwaysFresh env view calls) :
    (runMining env view calls).Keeps := by
  induction calls using List.reverseRecOn with
  | nil => exact nofun
  | append_singleton calls call ih =>
    rw [runMining, List.foldl_append]
    exact miningStep_keeps (runMining_consistent env view calls) (ih fresh.before) (fresh calls call [] rfl)

/-- The payout address takes effect along a run exactly when no call of it is
served from a template built for another script. -/
theorem payoutEffective_iff (env : MiningEnv) (view : NodeView) (calls : List MiningCall) :
    PayoutEffective env view calls ↔ AlwaysFresh env view calls := by
  constructor
  · intro effective before call after split
    cases call with
    | getblocktemplate entry request =>
      exact StepPays.fresh (runMining_consistent env view before) (effective before _ after split)
    | _ => trivial
  · rintro fresh before call after rfl
    have consistent := runMining_consistent env view before
    cases call with
    | getblocktemplate entry request =>
      intro destination result configured replied
      obtain ⟨block, inserted, pays⟩ := StepFresh.pays consistent (fresh before _ after rfl) configured replied
      refine ⟨block, ?_, pays⟩
      rw [inserted, AList.lookup_insert]
    | pprpcsb headerHash mixHash nonce =>
      intro destination block promised submitted
      obtain ⟨cached, found, pays⟩ := runMining_keeps fresh.before headerHash destination promised
      obtain ⟨source, sourceFound, same⟩ := pprpcsb_pays submitted
      rw [found] at sourceFound
      cases sourceFound
      rw [same, pays]
    | setprogpowminingaddress _ | nodeChanged _ => trivial

/-! ## A stale template -/

def regtestEnv : MiningEnv :=
  { sha256d := Sha256.doubleDigest
    params := (regtestParams Sha256.doubleDigest).consensus
    isTestChain := true
    decodeDestination := fun address =>
      if address = "first" then .pkHash 1 else if address = "second" then .pkHash 2
      else .noDestination [] }

def regtestView : NodeView :=
  { blocks := AList.singleton regtestEnv.params.hashGenesisBlock
      { nVersion := 1, nTime := 1296688602, nBits := 0x207fffff, nTimeMax := 1296688602 }
    tip := regtestEnv.params.hashGenesisBlock
    now := 1296688700
    transactionsUpdated := 0
    selected := []
    nFees := 0
    blockVersion := 0x20000000
    gbtstatus := {}
    testBlockValidity := fun _ => true
    nodeCount := 0
    isInitialBlockDownload := false
    isRPCRunning := true }

def segwitRequest : TemplateRequest := { rules := ["segwit"] }

def readdressed : MiningRun :=
  runMining regtestEnv regtestView [.setprogpowminingaddress "first", .getblocktemplate regtestView segwitRequest,
      .setprogpowminingaddress "second"]

def handedOut : Except TemplateError TemplateReply → Option TemplateResult
  | .ok (.template result) => some result
  | _ => none

theorem handedOut_eq_some {reply : Except TemplateError TemplateReply}
    (handed : handedOut reply = some result) : reply = .ok (.template result) := by
  cases reply with
  | error error => cases handed
  | ok answer =>
    cases answer with
    | proposal => cases handed
    | template served =>
      cases handed
      rfl

/-- The next call still hands out a block that pays the first address. -/
theorem readdressed_not_effective : ¬ PayoutEffective regtestEnv regtestView
      [.setprogpowminingaddress "first", .getblocktemplate regtestView segwitRequest,
        .setprogpowminingaddress "second", .getblocktemplate regtestView segwitRequest] := by
  intro effective
  have configured : readdressed.configured = some (.pkHash 2) := by decide +kernel
  have handed : (handedOut (readdressed.serve regtestEnv regtestView segwitRequest).1).isSome =
      true := by decide +kernel
  obtain ⟨result, served⟩ := Option.isSome_iff_exists.mp handed
  have fresh : StepFresh regtestEnv readdressed (.getblocktemplate regtestView segwitRequest) := by
    rw [readdressed]
    exact StepPays.fresh (runMining_consistent _ _ _) (effective _ _ [] rfl)
  have stale : needsNewTemplate readdressed.view readdressed.state = false := by decide +kernel
  have different : readdressed.builtFor ≠ readdressed.state.gProgpowCoinbaseScript := by decide +kernel
  rcases fresh (.pkHash 2) result configured (handedOut_eq_some served) with needed | same
  · rw [stale] at needed
    cases needed
  · exact different same

end Sharecoin.Rpc
