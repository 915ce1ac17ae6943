import Sharecoin.Net.HeadersSync
import Mathlib.Algebra.BigOperators.Group.List.Basic
import Mathlib.Data.List.Induction

/-! What a headers synchronisation hands out, over any sequence of messages. The state
keeps neither the first chain nor the hashes between buffered headers, so a run carries
both chains as history and the invariant relates the state to them. -/

set_option autoImplicit false

namespace Sharecoin

open Lib

/-! ## Chains of headers -/

/-- Every header names the one before it, the first one `hash`. -/
def Continues (sha256d : Bytes → Uint256) : Uint256 → List CBlockHeader → Prop
  | _, [] => True
  | hash, header :: headers =>
    header.hashPrevBlock = hash ∧ Continues sha256d (header.getHash sha256d) headers

def lastHash (sha256d : Bytes → Uint256) (hash : Uint256) (headers : List CBlockHeader) : Uint256 :=
  headers.foldl (fun _ header => header.getHash sha256d) hash

/-- The work of a chain, as a number of any size. -/
def chainWork (start : ArithUint256) (headers : List CBlockHeader) : Nat :=
  start.toNat + (headers.map fun header => (getBlockProof header).toNat).sum

def countedWork (start : ArithUint256) (headers : List CBlockHeader) : ArithUint256 :=
  headers.foldl (fun work header => work + getBlockProof header) start

variable {headers : List CBlockHeader} {header : CBlockHeader} {sync : HeadersSyncState} {received : List CBlockHeader}

section Chains

variable {sha256d : Bytes → Uint256} {hash : Uint256} {start : ArithUint256} {first second : List CBlockHeader}

theorem lastHash_append :
    lastHash sha256d hash (first ++ second) = lastHash sha256d (lastHash sha256d hash first) second :=
  List.foldl_append

theorem lastHash_concat : lastHash sha256d hash (headers ++ [header]) = header.getHash sha256d := by
  rw [lastHash_append]
  rfl

theorem continues_append : Continues sha256d hash (first ++ second) ↔
      Continues sha256d hash first ∧ Continues sha256d (lastHash sha256d hash first) second := by
  induction first generalizing hash with
  | nil => simp [Continues, lastHash]
  | cons head rest ih => simp [Continues, ih, lastHash, and_assoc]

theorem continues_concat : Continues sha256d hash (headers ++ [header]) ↔
      Continues sha256d hash headers ∧ header.hashPrevBlock = lastHash sha256d hash headers := by
  simp [continues_append, Continues]

theorem chainWork_append : chainWork start (first ++ second) =
      chainWork start first + (second.map fun header => (getBlockProof header).toNat).sum := by
  simp [chainWork, Nat.add_assoc]

theorem chainWork_mono : chainWork start first ≤ chainWork start (first ++ second) := by
  rw [chainWork_append]
  exact Nat.le_add_right _ _

theorem countedWork_concat :
    countedWork start (headers ++ [header]) = countedWork start headers + getBlockProof header := by
  simp [countedWork]

theorem countedWork_toNat : (countedWork start headers).toNat = chainWork start headers % 2 ^ 256 := by
  induction headers using List.reverseRecOn with
  | nil => simp [countedWork, chainWork, Nat.mod_eq_of_lt start.isLt]
  | append_singleton headers header ih =>
    rw [countedWork_concat, BitVec.toNat_add, ih, chainWork_append]
    simp

theorem countedWork_le : (countedWork start headers).toNat ≤ chainWork start headers := by
  rw [countedWork_toNat]
  exact Nat.mod_le _ _

end Chains

/-! ## Runs -/

structure HeadersMessage where
  headers : List CBlockHeader
  full : Bool

/-- The state, the headers received in each of the two phases, and those handed out. -/
structure SyncRun where
  sync : HeadersSyncState
  presynced : List CBlockHeader := []
  redownloaded : List CBlockHeader := []
  returned : List CBlockHeader := []

namespace SyncRun

variable (env : HeadersSyncEnv)

def answer (run : SyncRun) (message : HeadersMessage) : ProcessingResult :=
  (run.sync.processNextHeaders env message.headers message.full).1

def process (run : SyncRun) (message : HeadersMessage) : SyncRun :=
  { sync := (run.sync.processNextHeaders env message.headers message.full).2
    presynced := if run.sync.downloadState = .presync then run.presynced ++ message.headers else run.presynced
    redownloaded :=
      if run.sync.downloadState = .redownload then run.redownloaded ++ message.headers
      else run.redownloaded
    returned := run.returned ++ (run.answer env message).powValidatedHeaders }

end SyncRun

def runSync (env : HeadersSyncEnv) (messages : List HeadersMessage) : SyncRun :=
  messages.foldl (SyncRun.process env) { sync := env.initial }

/-! ## Commitments -/

def bitAt (env : HeadersSyncEnv) (height : Int) (header : CBlockHeader) : List Bool :=
  if env.commitsAt height then [env.commitment header] else []

/-- The bits kept for a chain after `height`, if heights are counted by `next`. -/
def keptBits (env : HeadersSyncEnv) (next : Int → Int) : Int → List CBlockHeader → List Bool
  | _, [] => []
  | height, header :: headers =>
    bitAt env (next height) header ++ keptBits env next (next height) headers

def intSucc (height : Int) : Int := wrap32 (height + 1)

def heightAfter (next : Int → Int) (height : Int) (headers : List CBlockHeader) : Int :=
  headers.foldl (fun height _ => next height) height

variable {env : HeadersSyncEnv}

section Bits

variable {next : Int → Int} {height : Int}

theorem heightAfter_concat :
    heightAfter next height (headers ++ [header]) = next (heightAfter next height headers) := by
  simp [heightAfter]

theorem heightAfter_succ : heightAfter (· + 1) height headers = height + headers.length := by
  induction headers generalizing height with
  | nil => simp [heightAfter]
  | cons header headers ih =>
    have rest : heightAfter (· + 1) (height + 1) headers = height + 1 + headers.length := ih
    simp only [heightAfter, List.foldl_cons, List.length_cons, Nat.cast_add, Nat.cast_one] at rest ⊢
    omega

theorem keptBits_append {more : List CBlockHeader} : keptBits env next height (headers ++ more) =
      keptBits env next height headers ++ keptBits env next (heightAfter next height headers) more := by
  induction headers generalizing height with
  | nil => rfl
  | cons head headers ih => simp [keptBits, ih, heightAfter]

theorem keptBits_concat : keptBits env next height (headers ++ [header]) = keptBits env next height headers ++
      bitAt env (next (heightAfter next height headers)) header := by
  rw [keptBits_append, keptBits, keptBits, List.append_nil]

theorem keptBits_intSucc (low : -2 ^ 31 ≤ height) (fits : height + headers.length < 2 ^ 31) :
    keptBits env intSucc height headers = keptBits env (· + 1) height headers := by
  induction headers generalizing height with
  | nil => rfl
  | cons header headers ih =>
    rw [List.length_cons, Nat.cast_add, Nat.cast_one] at fits
    have same : intSucc height = height + 1 := wrap32_eq_self (by omega) (by omega)
    rw [keptBits, keptBits, same, ih (by omega) (by omega)]

/-- Where the bits of a second chain were all found at the front of the bits of a first
one, every header of the second chain with a bit agrees with the header of the first
chain at its height. -/
theorem agrees_of_keptBits {earlier later : List CBlockHeader} {rest : List Bool}
    (consumed : keptBits env (· + 1) height earlier = keptBits env (· + 1) height later ++ rest) {position : Nat}
    (found : later[position]? = some header) (commits : env.commitsAt (height + position + 1) = true) :
    ∃ other, earlier[position]? = some other ∧ env.commitment other = env.commitment header := by
  induction position generalizing height earlier later with
  | zero =>
    obtain ⟨tail, rfl⟩ := List.head?_eq_some_iff.mp (List.head?_eq_getElem?.trans found)
    have commits : env.commitsAt (height + 1) = true := by simpa using commits
    cases earlier with
    | nil => simp [keptBits, bitAt, commits] at consumed
    | cons other earlier =>
      simp only [keptBits, bitAt, commits, if_true, List.cons_append, List.cons.injEq] at consumed
      exact ⟨other, rfl, consumed.1⟩
  | succ position ih =>
    cases later with
    | nil => simp at found
    | cons head later =>
      -- The rest of the first chain, which is empty if the chain is.
      have tails : keptBits env (· + 1) (height + 1) earlier.tail =
          keptBits env (· + 1) (height + 1) later ++ rest := by
        by_cases kept : env.commitsAt (height + 1) = true <;> cases earlier <;> simp_all [keptBits, bitAt]
      obtain ⟨other, known, same⟩ := ih tails (by simpa using found) (by
        rw [← commits]
        congr 1
        push_cast
        omega)
      exact ⟨other, by simpa using known, same⟩

end Bits

/-! ## Single headers -/

open HeadersSyncState

section Steps

variable {next : HeadersSyncState}

theorem checkEach_invariant {check : HeadersSyncState → CBlockHeader → Bool × HeadersSyncState}
    {Holds : List CBlockHeader → HeadersSyncState → Prop}
    (step : ∀ done header sync next, Holds done sync → check sync header = (true, next) → Holds (done ++ [header]) next)
    {done : List CBlockHeader} (before : Holds done sync)
    (ran : checkEach check headers sync = (true, next)) : Holds (done ++ headers) next := by
  induction headers generalizing done sync with
  | nil =>
    cases ran
    rw [List.append_nil]
    exact before
  | cons header headers ih =>
    unfold checkEach at ran
    cases checked : check sync header with
    | mk valid middle =>
      rw [checked] at ran
      cases valid with
      | false => cases ran
      | true =>
        have rest := ih (step done header sync middle before checked) ran
        rwa [List.append_assoc, List.singleton_append] at rest

def afterPresync (env : HeadersSyncEnv) (sync : HeadersSyncState) (header : CBlockHeader) :
    HeadersSyncState :=
  { sync with
    headerCommitments := sync.headerCommitments ++ bitAt env (intSucc sync.currentHeight) header
    currentChainWork := sync.currentChainWork + getBlockProof header
    lastHeaderReceived := header
    currentHeight := intSucc sync.currentHeight }

theorem bits_append_bitAt (env : HeadersSyncEnv) (height : Int) (bits : List Bool) :
    (if env.commitsAt height then bits ++ [env.commitment header] else bits) =
      bits ++ bitAt env height header := by
  unfold bitAt
  split <;> simp

theorem validateAndProcessSingleHeader_ok (ran : validateAndProcessSingleHeader env sync header = (true, next)) :
    next = afterPresync env sync header := by
  unfold validateAndProcessSingleHeader at ran
  simp only [bits_append_bitAt, permittedDifficultyTransition] at ran
  split at ran
  · cases ran
  split at ran
  · cases ran
  split at ran
  · cases ran
  · cases ran
    rfl

theorem validateAndProcessSingleHeader_of_room (presync : sync.downloadState = .presync)
    (room : (sync.headerCommitments ++ bitAt env (intSucc sync.currentHeight) header).length ≤ env.maxCommitments) :
    validateAndProcessSingleHeader env sync header = (true, afterPresync env sync header) := by
  unfold validateAndProcessSingleHeader
  simp only [bits_append_bitAt, permittedDifficultyTransition]
  rw [if_neg (not_not.mpr presync), if_neg (by decide), if_neg]
  · rfl
  · rw [Bool.and_eq_true, decide_eq_true_eq]
    exact fun exceeded => absurd exceeded.2 (Nat.not_lt.mpr room)

def afterStore (env : HeadersSyncEnv) (sync : HeadersSyncState) (header : CBlockHeader)
    (headerCommitments : List Bool) : HeadersSyncState :=
  { sync with
    redownloadChainWork := sync.redownloadChainWork + getBlockProof header
    processAllRemainingHeaders := sync.processAllRemainingHeaders ||
      decide (sync.redownloadChainWork + getBlockProof header ≥ env.minimumRequiredWork)
    headerCommitments := headerCommitments
    redownloadedHeaders := sync.redownloadedHeaders ++ [.ofHeader header]
    redownloadBufferLastHeight := sync.redownloadBufferLastHeight + 1
    redownloadBufferLastHash := header.getHash env.sha256d }

/-- A stored header connects, and takes its bit off the queue unless all remaining
headers are let through. -/
theorem validateAndStoreRedownloadedHeader_ok
    (ran : validateAndStoreRedownloadedHeader env sync header = (true, next)) :
    header.hashPrevBlock = sync.redownloadBufferLastHash ∧
      ∃ rest, next = afterStore env sync header rest ∧ (next.processAllRemainingHeaders = false →
          sync.headerCommitments = bitAt env (sync.redownloadBufferLastHeight + 1) header ++ rest) := by
  unfold validateAndStoreRedownloadedHeader at ran
  simp only [permittedDifficultyTransition] at ran
  split at ran
  · cases ran
  split at ran
  · cases ran
  next connected =>
    refine ⟨not_not.mp connected, ?_⟩
    rw [if_neg (by decide)] at ran
    split at ran
    · next checks =>
        rw [Bool.and_eq_true] at checks
        split at ran
        · cases ran
        next expected rest queue =>
          split at ran
          · next same =>
              cases ran
              refine ⟨rest, rfl, fun _ => ?_⟩
              rw [bitAt, if_pos checks.2, same, List.singleton_append, queue]
          · cases ran
    · next unchecked =>
        cases ran
        refine ⟨_, rfl, fun pending => ?_⟩
        have held : (sync.processAllRemainingHeaders ||
            decide (sync.redownloadChainWork + getBlockProof header ≥ env.minimumRequiredWork)) = false := pending
        rw [held, Bool.not_false, Bool.true_and] at unchecked
        rw [bitAt, if_neg unchecked, List.nil_append]

theorem validateAndStoreRedownloadedHeader_of_match (redownload : sync.downloadState = .redownload)
    (connected : header.hashPrevBlock = sync.redownloadBufferLastHash)
    (queue : (sync.processAllRemainingHeaders ||
        decide (sync.redownloadChainWork + getBlockProof header ≥ env.minimumRequiredWork)) = false →
      ∃ rest, sync.headerCommitments = bitAt env (sync.redownloadBufferLastHeight + 1) header ++ rest) :
    ∃ next, validateAndStoreRedownloadedHeader env sync header = (true, next) := by
  unfold validateAndStoreRedownloadedHeader
  simp only [permittedDifficultyTransition]
  rw [if_neg (not_not.mpr redownload), if_neg (not_not.mpr connected), if_neg (by decide)]
  split
  · next checks =>
      rw [Bool.and_eq_true, Bool.not_eq_true'] at checks
      obtain ⟨rest, queue⟩ := queue checks.1
      rw [bitAt, if_pos checks.2, List.singleton_append] at queue
      rw [queue]
      simp only [if_true]
      exact ⟨_, rfl⟩
  · exact ⟨_, rfl⟩

end Steps

/-! ## The buffer -/

theorem getFullHeader_ofHeader (header : CBlockHeader) :
    (CompressedHeader.ofHeader header).getFullHeader header.hashPrevBlock = header := rfl

/-- Headers leave the buffer as they entered it. Without leave to hand out all of them,
exactly the buffer size stays behind once one is handed out. -/
theorem popReady_spec (env : HeadersSyncEnv) (all : Bool) {waiting : List CBlockHeader}
    {prevHash : Uint256} (continues : Continues env.sha256d prevHash waiting) :
    ∃ popped kept, waiting = popped ++ kept ∧ popReady env all (waiting.map .ofHeader) prevHash =
        (popped, kept.map .ofHeader, lastHash env.sha256d prevHash popped) ∧
      (all = true → kept = []) ∧
      (all = false → popped ≠ [] → kept.length = env.params.redownloadBufferSize) := by
  induction waiting generalizing prevHash with
  | nil => exact ⟨[], [], rfl, rfl, fun _ => rfl, fun _ some => absurd rfl some⟩
  | cons header waiting ih =>
    obtain ⟨rfl, continues⟩ := continues
    obtain ⟨popped, kept, split, ran, whole, buffered⟩ := ih continues
    rw [List.map_cons, popReady]
    by_cases ready : (decide ((CompressedHeader.ofHeader header ::
        waiting.map CompressedHeader.ofHeader).length > env.params.redownloadBufferSize) || all) = true
    · refine ⟨header :: popped, kept, by rw [split, List.cons_append], ?_, whole, ?_⟩
      · rw [if_pos ready, getFullHeader_ofHeader]
        dsimp only
        rw [ran]
        rfl
      intro held _
      cases popped with
      | cons first popped => exact buffered held (List.cons_ne_nil _ _)
      | nil =>
        rw [List.nil_append] at split
        subst split
        rw [held, Bool.or_false, decide_eq_true_eq, List.length_cons, List.length_map] at ready
        -- nothing more was handed out, so the rest no longer exceeds the size
        have stopped : ¬ waiting.length > env.params.redownloadBufferSize := by
          intro more
          cases waiting with
          | nil => exact absurd more (Nat.not_lt_zero _)
          | cons second waiting =>
            rw [List.map_cons, popReady, if_pos] at ran
            · simp at ran
            · rw [held, Bool.or_false, decide_eq_true_eq, List.length_cons, List.length_map]
              exact more
        omega
    · refine ⟨[], header :: waiting, rfl, ?_, ?_, fun _ some => absurd rfl some⟩
      · rw [if_neg ready]
        rfl
      · intro everything
        rw [everything, Bool.or_true] at ready
        exact absurd rfl ready

/-! ## What the state stands for -/

structure Presyncing (env : HeadersSyncEnv) (headers : List CBlockHeader) (sync : HeadersSyncState) :
    Prop where
  state : sync.downloadState = .presync
  work : sync.currentChainWork = countedWork env.chainStart.nChainWork headers
  height : sync.currentHeight = heightAfter intSucc env.chainStart.nHeight headers
  bits : sync.headerCommitments = keptBits env intSucc env.chainStart.nHeight headers
  last : sync.lastHeaderReceived.getHash env.sha256d =
    lastHash env.sha256d (env.chainStart.getBlockHeader.getHash env.sha256d) headers
  pending : sync.processAllRemainingHeaders = false

/-- The second phase after some headers, of which the buffer holds the last ones. -/
structure Redownloading (env : HeadersSyncEnv) (presynced returned waiting : List CBlockHeader)
    (sync : HeadersSyncState) : Prop where
  state : sync.downloadState = .redownload
  buffer : sync.redownloadedHeaders = waiting.map .ofHeader
  continues : Continues env.sha256d env.chainStartHash (returned ++ waiting)
  last : sync.redownloadBufferLastHash = lastHash env.sha256d env.chainStartHash (returned ++ waiting)
  firstPrev : sync.redownloadBufferFirstPrevHash = lastHash env.sha256d env.chainStartHash returned
  height : sync.redownloadBufferLastHeight = env.chainStart.nHeight + (returned ++ waiting).length
  work : sync.redownloadChainWork = countedWork env.chainStart.nChainWork (returned ++ waiting)
  reached : sync.processAllRemainingHeaders = true →
    env.minimumRequiredWork.toNat ≤ chainWork env.chainStart.nChainWork (returned ++ waiting)
  bits : sync.processAllRemainingHeaders = false → keptBits env intSucc env.chainStart.nHeight presynced =
      keptBits env (· + 1) env.chainStart.nHeight (returned ++ waiting) ++ sync.headerCommitments

section Phases

variable {next : HeadersSyncState} {presynced returned waiting : List CBlockHeader}

theorem presyncing_initial (env : HeadersSyncEnv) : Presyncing env [] env.initial :=
  ⟨rfl, rfl, rfl, rfl, rfl, rfl⟩

section

variable (presyncing : Presyncing env headers sync)

include presyncing

theorem Presyncing.concat (header : CBlockHeader) :
    Presyncing env (headers ++ [header]) (afterPresync env sync header) := by
  obtain ⟨state, work, height, bits, _, pending⟩ := presyncing
  refine ⟨state, ?_, ?_, ?_, lastHash_concat.symm, pending⟩
  · rw [countedWork_concat, ← work]
    rfl
  · rw [heightAfter_concat, ← height]
    rfl
  · rw [keptBits_concat, ← height, ← bits]
    rfl

theorem Presyncing.checkEach (ran : HeadersSyncState.checkEach (validateAndProcessSingleHeader env) received
      sync = (true, next)) : Presyncing env (headers ++ received) next := by
  refine checkEach_invariant ?_ presyncing ran
  intro done header sync next before checked
  rw [validateAndProcessSingleHeader_ok checked]
  exact before.concat header

theorem Presyncing.beginRedownload : Redownloading env headers [] [] (sync.beginRedownload env) := by
  refine ⟨rfl, rfl, trivial, rfl, rfl, ?_, rfl, ?_, ?_⟩
  · simp [HeadersSyncState.beginRedownload]
  · intro flagged
    exact absurd (presyncing.pending.symm.trans flagged) Bool.false_ne_true
  · intro _
    exact presyncing.bits.symm

end

section

variable (redownloading : Redownloading env presynced returned waiting sync)

include redownloading

theorem Redownloading.store (ran : validateAndStoreRedownloadedHeader env sync header = (true, next)) :
    Redownloading env presynced returned (waiting ++ [header]) next := by
  obtain ⟨connected, rest, rfl, queue⟩ := validateAndStoreRedownloadedHeader_ok ran
  obtain ⟨state, buffer, continues, last, firstPrev, height, work, reached, bits⟩ := redownloading
  rw [last] at connected
  have counted : countedWork env.chainStart.nChainWork ((returned ++ waiting) ++ [header]) =
      sync.redownloadChainWork + getBlockProof header := by
    rw [countedWork_concat, work]
  refine ⟨state, ?_, ?_, ?_, firstPrev, ?_, ?_, ?_, ?_⟩ <;> try rw [← List.append_assoc]
  · rw [List.map_append, ← buffer]
    rfl
  · exact continues_concat.mpr ⟨continues, connected⟩
  · rw [lastHash_concat]
    rfl
  · rw [List.length_append, List.length_singleton, Nat.cast_add, Nat.cast_one, ← add_assoc, ← height]
    rfl
  · rw [counted]
    rfl
  · intro flagged
    have either : sync.processAllRemainingHeaders = true ∨
        sync.redownloadChainWork + getBlockProof header ≥ env.minimumRequiredWork := by
      simpa [afterStore] using flagged
    rcases either with before | enough
    · exact (reached before).trans chainWork_mono
    · rw [← counted] at enough
      exact (BitVec.le_def.mp enough).trans countedWork_le
  · intro pending
    have before : sync.processAllRemainingHeaders = false := (Bool.or_eq_false_iff.mp pending).1
    rw [bits before, keptBits_concat, heightAfter_succ, ← height, queue pending, List.append_assoc]
    rfl

theorem Redownloading.checkEach (ran : HeadersSyncState.checkEach (validateAndStoreRedownloadedHeader env) received
      sync = (true, next)) : Redownloading env presynced returned (waiting ++ received) next :=
  checkEach_invariant (fun _ _ _ _ before checked => before.store checked) redownloading ran

theorem Redownloading.pop :
    ∃ popped kept, waiting = popped ++ kept ∧ (sync.popHeadersReadyForAcceptance env).1 = popped ∧
      Redownloading env presynced (returned ++ popped) kept (sync.popHeadersReadyForAcceptance env).2 ∧
      (sync.popHeadersReadyForAcceptance env).2.processAllRemainingHeaders = sync.processAllRemainingHeaders ∧
      (sync.processAllRemainingHeaders = true → kept = []) ∧
      (sync.processAllRemainingHeaders = false → popped ≠ [] → kept.length = env.params.redownloadBufferSize) := by
  obtain ⟨state, buffer, continues, last, firstPrev, height, work, reached, bits⟩ := redownloading
  have onward := (continues_append.mp continues).2
  rw [← firstPrev] at onward
  obtain ⟨popped, kept, split, ran, whole, buffered⟩ := popReady_spec env sync.processAllRemainingHeaders onward
  have popping : sync.popHeadersReadyForAcceptance env = (popped, { sync with
      redownloadedHeaders := kept.map .ofHeader
      redownloadBufferFirstPrevHash := lastHash env.sha256d sync.redownloadBufferFirstPrevHash popped }) := by
    rw [popHeadersReadyForAcceptance, if_neg (not_not.mpr state), buffer, ran]
  rw [popping]
  subst split
  rw [← List.append_assoc] at continues last height work reached bits
  refine ⟨popped, kept, rfl, rfl, ⟨state, rfl, continues, last, ?_, height, work, reached, bits⟩, rfl, whole, buffered⟩
  rw [lastHash_append, ← firstPrev]

end

end Phases

/-! ## Whole runs -/

/-- What holds between messages. Once a synchronisation is over, only what it handed out
matters. -/
structure SyncRun.Sound (env : HeadersSyncEnv) (run : SyncRun) : Prop where
  continues : Continues env.sha256d env.chainStartHash run.returned
  received : run.returned <+: run.redownloaded
  enough : run.sync.downloadState = .redownload ∨ run.returned ≠ [] →
    env.minimumRequiredWork.toNat ≤ chainWork env.chainStart.nChainWork run.presynced
  presyncing : run.sync.downloadState = .presync →
    Presyncing env run.presynced run.sync ∧ run.redownloaded = [] ∧ run.returned = []
  redownloading : run.sync.downloadState = .redownload → ∃ waiting, run.redownloaded = run.returned ++ waiting ∧
      Redownloading env run.presynced run.returned waiting run.sync

section Runs

variable {run : SyncRun} {message : HeadersMessage} {full : Bool}

theorem processPresync_returns_nothing (sync : HeadersSyncState) (headers : List CBlockHeader)
    (full : Bool) : (sync.processPresync env headers full).1.powValidatedHeaders = [] := rfl

/-- A first phase that goes on after a message has either reached the work asked for, or
waits for more of it. -/
theorem Presyncing.processPresync (presyncing : Presyncing env headers sync)
    (success : (sync.processPresync env received full).1.success = true) (some : received ≠ []) :
    let next := (sync.processPresync env received full).2
    (next.downloadState = .presync ∧ Presyncing env (headers ++ received) next) ∨
      (next.downloadState = .redownload ∧
        env.minimumRequiredWork.toNat ≤ chainWork env.chainStart.nChainWork (headers ++ received) ∧
        Redownloading env (headers ++ received) [] [] next) := by
  obtain ⟨first, rest, rfl⟩ := List.exists_cons_of_ne_nil some
  simp only [HeadersSyncState.processPresync, validateAndStoreHeadersCommitments,
    presyncing.state, ne_eq, not_true_eq_false, if_false] at success ⊢
  split at success
  · cases success
  next connected =>
    rw [if_neg connected]
    cases ran : HeadersSyncState.checkEach (validateAndProcessSingleHeader env)
        (first :: rest) sync with
    | mk valid next =>
      rw [ran] at success
      cases valid with
      | false => cases success
      | true =>
        have reached := presyncing.checkEach ran
        by_cases enough : next.currentChainWork ≥ env.minimumRequiredWork
        · right
          simp only [Bool.not_true, Bool.false_eq_true, if_false, if_pos enough]
          refine ⟨rfl, ?_, reached.beginRedownload⟩
          rw [reached.work] at enough
          exact (BitVec.le_def.mp enough).trans countedWork_le
        · left
          simp only [Bool.not_true, Bool.false_eq_true, if_false, if_neg enough]
          exact ⟨reached.state, reached⟩

theorem Redownloading.processRedownload {presynced returned waiting : List CBlockHeader}
    (redownloading : Redownloading env presynced returned waiting sync)
    (success : (sync.processRedownload env received full).1.success = true) :
    let after := sync.processRedownload env received full
    ∃ kept, returned ++ waiting ++ received = returned ++ after.1.powValidatedHeaders ++ kept ∧
      Redownloading env presynced (returned ++ after.1.powValidatedHeaders) kept after.2 ∧
      (after.2.processAllRemainingHeaders = false → after.1.powValidatedHeaders ≠ [] →
        kept.length = env.params.redownloadBufferSize) := by
  unfold HeadersSyncState.processRedownload at success ⊢
  cases ran : HeadersSyncState.checkEach (validateAndStoreRedownloadedHeader env) received sync with
  | mk valid next =>
    rw [ran] at success
    cases valid with
    | false => cases success
    | true =>
      obtain ⟨popped, kept, split, answer, reached, same, -, buffered⟩ := (redownloading.checkEach ran).pop
      simp only [if_true]
      rw [same, answer]
      exact ⟨kept, by rw [List.append_assoc, split, List.append_assoc], reached, buffered⟩

theorem processRedownload_failed (failed : (sync.processRedownload env received full).1.success = false) :
    (sync.processRedownload env received full).1.powValidatedHeaders = [] := by
  unfold HeadersSyncState.processRedownload at failed ⊢
  cases ran : HeadersSyncState.checkEach (validateAndStoreRedownloadedHeader env) received sync with
  | mk valid next =>
    rw [ran] at failed
    cases valid with
    | true => cases failed
    | false => rfl

theorem SyncRun.Sound.finish (sound : run.Sound env)
    (ended : sync.downloadState = .final) (presynced redownloaded : List CBlockHeader) :
    ({ run with
        sync := sync
        presynced := run.presynced ++ presynced
        redownloaded := run.redownloaded ++ redownloaded } : SyncRun).Sound env where
  continues := sound.continues
  received := sound.received.trans (List.prefix_append _ _)
  enough := by
    rintro (running | some)
    · cases ended.symm.trans running
    · exact (sound.enough (.inr some)).trans chainWork_mono
  presyncing running := by cases ended.symm.trans running
  redownloading running := by cases ended.symm.trans running

theorem finalize_downloadState (sync : HeadersSyncState) : sync.finalize.downloadState = .final := rfl

theorem SyncRun.Sound.presync (sound : run.Sound env) (state : run.sync.downloadState = .presync)
    (some : message.headers ≠ []) : (run.process env message).Sound env := by
  obtain ⟨presyncing, nothing, unreturned⟩ := sound.presyncing state
  have stepped : run.process env message =
      { run with
        sync :=
          let outcome := run.sync.processPresync env message.headers message.full
          if outcome.1.success && outcome.1.requestMore then outcome.2 else outcome.2.finalize
        presynced := run.presynced ++ message.headers } := by
    simp [SyncRun.process, SyncRun.answer, processNextHeaders, some, state,
      processPresync_returns_nothing]
  have outcome := @Presyncing.processPresync _ _ message.headers _ message.full presyncing
  rw [stepped]
  generalize run.sync.processPresync env message.headers message.full = processed at outcome ⊢
  obtain ⟨ret, next⟩ := processed
  cases goes : ret.success && ret.requestMore with
  | false =>
    have ended := sound.finish (finalize_downloadState next) message.headers []
    rw [List.append_nil] at ended
    simpa [goes] using ended
  | true =>
    have success := (Bool.and_eq_true_iff.mp goes).1
    simp only [goes, if_true]
    rcases outcome success some with ⟨same, reached⟩ | ⟨turned, enough, reached⟩
    · refine ⟨sound.continues, sound.received, ?_, fun _ => ⟨reached, nothing, unreturned⟩, ?_⟩
      · rintro (running | returned)
        · cases same.symm.trans running
        · exact absurd unreturned returned
      · intro running
        cases same.symm.trans running
    · refine ⟨sound.continues, sound.received, fun _ => enough, ?_, ?_⟩
      · intro running
        cases turned.symm.trans running
      intro _
      refine ⟨[], ?_, ?_⟩
      · rw [nothing, unreturned, List.append_nil]
      · rw [unreturned]
        exact reached

theorem SyncRun.process_redownload (state : run.sync.downloadState = .redownload) (some : message.headers ≠ []) :
    run.answer env message = (run.sync.processRedownload env message.headers message.full).1 ∧ run.process env message =
        { sync :=
            let (ret, next) := run.sync.processRedownload env message.headers message.full
            if ret.success && ret.requestMore then next else next.finalize
          presynced := run.presynced
          redownloaded := run.redownloaded ++ message.headers
          returned := run.returned ++
            (run.sync.processRedownload env message.headers message.full).1.powValidatedHeaders } := by
  constructor
  · simp [SyncRun.answer, processNextHeaders, some, state]
  · simp [SyncRun.process, SyncRun.answer, processNextHeaders, some, state]

theorem SyncRun.Sound.redownload (sound : run.Sound env) (state : run.sync.downloadState = .redownload)
    (some : message.headers ≠ []) : (run.process env message).Sound env := by
  obtain ⟨waiting, split, redownloading⟩ := sound.redownloading state
  rw [(SyncRun.process_redownload state some).2]
  cases success : (run.sync.processRedownload env message.headers message.full).1.success with
  | false =>
    have ended := sound.finish (finalize_downloadState
      (run.sync.processRedownload env message.headers message.full).2) [] message.headers
    rw [List.append_nil] at ended
    simpa [success, processRedownload_failed success] using ended
  | true =>
    obtain ⟨kept, received, reached, _⟩ := redownloading.processRedownload success
    rw [← split] at received
    refine ⟨(continues_append.mp reached.continues).1, ⟨kept, received.symm⟩,
      fun _ => sound.enough (.inl state), ?_, ?_⟩
    · intro running
      dsimp only at running
      split at running
      · cases reached.state.symm.trans running
      · cases running
    · intro running
      dsimp only at running ⊢
      split at running
      · next goes =>
          rw [if_pos goes]
          exact ⟨kept, received, reached⟩
      · cases running

theorem SyncRun.process_nil (run : SyncRun) (full : Bool) : run.process env ⟨[], full⟩ = run := by
  simp [SyncRun.process, SyncRun.answer, processNextHeaders]

theorem SyncRun.process_final (ended : run.sync.downloadState = .final) : run.process env message = run := by
  by_cases none : message.headers = []
  · obtain ⟨headers, full⟩ := message
    subst none
    exact run.process_nil full
  · simp [SyncRun.process, SyncRun.answer, processNextHeaders, none, ended]

theorem SyncRun.Sound.process (sound : run.Sound env) (message : HeadersMessage) :
    (run.process env message).Sound env := by
  by_cases none : message.headers = []
  · obtain ⟨headers, full⟩ := message
    subst none
    rw [SyncRun.process_nil]
    exact sound
  cases state : run.sync.downloadState with
  | presync => exact sound.presync state none
  | redownload => exact sound.redownload state none
  | final =>
    rw [SyncRun.process_final state]
    exact sound

theorem runSync_sound (env : HeadersSyncEnv) (messages : List HeadersMessage) : (runSync env messages).Sound env := by
  have start : ({ sync := env.initial } : SyncRun).Sound env := by
    refine ⟨trivial, List.prefix_rfl, ?_, fun _ => ⟨presyncing_initial env, rfl, rfl⟩, ?_⟩
    · rintro (running | some)
      · cases running
      · exact absurd rfl some
    · intro running
      cases running
  unfold runSync
  generalize ({ sync := env.initial } : SyncRun) = run at start ⊢
  induction messages generalizing run with
  | nil => exact start
  | cons message messages ih => exact ih _ (start.process message)

theorem SyncRun.Sound.buffered (sound : run.Sound env) (answered : (run.answer env message).powValidatedHeaders ≠ [])
    (short : chainWork env.chainStart.nChainWork (run.process env message).redownloaded <
      env.minimumRequiredWork.toNat) :
    let after := run.process env message
    after.returned.length + env.params.redownloadBufferSize = after.redownloaded.length ∧
      ∃ rest, keptBits env intSucc env.chainStart.nHeight after.presynced =
        keptBits env (· + 1) env.chainStart.nHeight after.redownloaded ++ rest := by
  dsimp only
  have some : message.headers ≠ [] := by
    intro none
    simp [SyncRun.answer, processNextHeaders, none] at answered
  cases state : run.sync.downloadState with
  | presync =>
    simp [SyncRun.answer, processNextHeaders, some, state,
      processPresync_returns_nothing] at answered
  | final =>
    simp [SyncRun.answer, processNextHeaders, some, state] at answered
  | redownload =>
    obtain ⟨same, stepped⟩ := @SyncRun.process_redownload env run message state some
    obtain ⟨waiting, split, redownloading⟩ := sound.redownloading state
    rw [same] at answered
    rw [stepped] at short ⊢
    dsimp only at short ⊢
    cases success : (run.sync.processRedownload env message.headers message.full).1.success with
    | false => exact absurd (processRedownload_failed success) answered
    | true =>
      obtain ⟨kept, received, reached, buffered⟩ := redownloading.processRedownload success
      rw [← split] at received
      rw [received] at short ⊢
      cases flag : (HeadersSyncState.processRedownload env run.sync message.headers
          message.full).2.processAllRemainingHeaders with
      | true => exact absurd short (Nat.not_lt.mpr (reached.reached flag))
      | false =>
        refine ⟨?_, _, reached.bits flag⟩
        simp only [List.length_append, buffered flag answered]

end Runs

/-- What a message adds to a run is a continuation of the second chain as it was
received. Nothing is returned before the first chain had the work asked for; and while
the second chain lacks work, only headers with a full buffer on top of them are returned,
and all headers of the second chain with a bit agree with the first chain. -/
structure Intact (env : HeadersSyncEnv) (run : SyncRun) (message : HeadersMessage) : Prop where
  contiguous : Continues env.sha256d env.chainStartHash (run.process env message).returned
  received : (run.process env message).returned <+: (run.process env message).redownloaded
  enough : (run.process env message).returned ≠ [] → env.minimumRequiredWork.toNat ≤
      chainWork env.chainStart.nChainWork (run.process env message).presynced
  buffered : (run.answer env message).powValidatedHeaders ≠ [] →
    chainWork env.chainStart.nChainWork (run.process env message).redownloaded < env.minimumRequiredWork.toNat →
    (run.process env message).returned.length + env.params.redownloadBufferSize ≤
      (run.process env message).redownloaded.length
  committed : (run.answer env message).powValidatedHeaders ≠ [] →
    chainWork env.chainStart.nChainWork (run.process env message).redownloaded < env.minimumRequiredWork.toNat →
    ∀ (position : Nat) header, (run.process env message).redownloaded[position]? = some header →
      env.commitsAt (env.chainStart.nHeight + position + 1) = true →
      ∃ earlier, (run.process env message).presynced[position]? = some earlier ∧
        env.commitment earlier = env.commitment header

/-- The first phase counts heights in `int`, the second in `int64_t`. As long as the first
chain ends at an `int` height, every message of every run is answered as it should be. -/
theorem runSync_intact (env : HeadersSyncEnv) (messages : List HeadersMessage)
    (message : HeadersMessage) (low : -2 ^ 31 ≤ env.chainStart.nHeight)
    (fits : env.chainStart.nHeight + ((runSync env messages).process env message).presynced.length <
      2 ^ 31) : Intact env (runSync env messages) message := by
  have sound := runSync_sound env messages
  have after := sound.process message
  refine ⟨after.continues, after.received, fun some => after.enough (.inr some), ?_, ?_⟩
  · intro answered short
    exact (sound.buffered answered short).1.le
  intro answered short position header found commits
  obtain ⟨_, rest, consumed⟩ := sound.buffered answered short
  rw [keptBits_intSucc low fits] at consumed
  exact agrees_of_keptBits consumed found commits

/-! ## Two chain starts -/

/-- Commitments are asked for at heights that leave the remainder 2 by 7. -/
def syncEnv (nHeight : Int) (chainStartHash : Nat) : HeadersSyncEnv where
  sha256d := Sha256.doubleDigest
  k0 := 0
  k1 := 0
  commitOffset := 2
  consensusParams := (regtestParams Sha256.doubleDigest).consensus
  params := ⟨7, 0⟩
  chainStart := { nHeight := nHeight, nBits := 0x207fffff }
  chainStartHash := .ofNat chainStartHash
  chainStartMedianTimePast := 1296688602
  now := 1296688602
  minimumRequiredWork := 6

def syncHeader (hashPrevBlock : Nat) (nNonce64 : UInt64) : CBlockHeader :=
  { CBlockHeader.null with
    hashPrevBlock := .ofNat hashPrevBlock
    nBits := 0x207fffff
    nNonce64 := nNonce64 }

def lowEnv : HeadersSyncEnv :=
  syncEnv 0 0xc26385c87a22229f782a940e5822ac7884acbe84d7bc6c5c77d058e4069674ce

def lowChain : List CBlockHeader :=
  [syncHeader 0xc26385c87a22229f782a940e5822ac7884acbe84d7bc6c5c77d058e4069674ce 0,
   syncHeader 0x7dbc27092ac8d8f8d8a024b32e634b442a056504acedb98ac6f5a3207b77245b 0,
   syncHeader 0x002db4bba4f99ea6d2cb7756f67a3c9d61b2d0d3d737ff8314c397f6692ca3b7 0]

theorem runSync_intact_lowChain : ((runSync lowEnv [⟨lowChain, true⟩]).answer lowEnv
        ⟨lowChain.take 2, true⟩).powValidatedHeaders = lowChain.take 2 ∧
      Intact lowEnv (runSync lowEnv [⟨lowChain, true⟩]) ⟨lowChain.take 2, true⟩ := by
  have ran : ((runSync lowEnv [⟨lowChain, true⟩]).answer lowEnv
        ⟨lowChain.take 2, true⟩).powValidatedHeaders = lowChain.take 2 ∧
      lowEnv.chainStart.nHeight + ((runSync lowEnv [⟨lowChain, true⟩]).process lowEnv
        ⟨lowChain.take 2, true⟩).presynced.length < 2 ^ 31 := by
    decide +kernel
  exact ⟨ran.1, runSync_intact _ _ _ (by decide) ran.2⟩

def topEnv : HeadersSyncEnv :=
  syncEnv 2147483647 0x57383b5b02750a93453c2a47114c5f3567797ea45935ed29b0adb0838ff0f1c3

def topPresync : List CBlockHeader :=
  [syncHeader 0x57383b5b02750a93453c2a47114c5f3567797ea45935ed29b0adb0838ff0f1c3 0,
   syncHeader 0x6daf8619f61ccec7e5d3bb5d25bf6c51e47fe8936b9a9ce7a52029e96e758089 0,
   syncHeader 0x2719c71944385b64d011efad44dd7e59fe2e30ef41268143ef806299737d1dd6 1]

def topRedownload : CBlockHeader :=
  syncHeader 0x57383b5b02750a93453c2a47114c5f3567797ea45935ed29b0adb0838ff0f1c3 3

/-- The first phase counts on from the least `int` and keeps the bit of its third header;
the second phase compares it with its first header, which differs from the first one of
the first phase. -/
theorem topRedownload_not_intact : ¬ Intact topEnv (runSync topEnv [⟨topPresync, true⟩]) ⟨[topRedownload], true⟩ := by
  have ran : let run := runSync topEnv [⟨topPresync, true⟩]
      let after := run.process topEnv ⟨[topRedownload], true⟩
      (run.answer topEnv ⟨[topRedownload], true⟩).powValidatedHeaders ≠ [] ∧
      chainWork topEnv.chainStart.nChainWork after.redownloaded < topEnv.minimumRequiredWork.toNat ∧
      after.redownloaded[0]? = some topRedownload ∧
      after.presynced[0]?.map topEnv.commitment = some (!topEnv.commitment topRedownload) := by
    decide +kernel
  obtain ⟨answered, short, found, differs⟩ := ran
  intro intact
  obtain ⟨earlier, known, same⟩ := intact.committed answered short 0 topRedownload found (by decide)
  rw [known, Option.map_some, same] at differs
  revert differs
  cases topEnv.commitment topRedownload <;> decide

end Sharecoin
