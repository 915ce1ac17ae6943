import Sharecoin.Chain.AcceptHeaderProperties
import Sharecoin.Net.HeadersSyncProperties

/-! A peer that serves one chain with enough work twice is not dropped. In the first phase
the bits of a chain that reaches the work are kept; the second phase compares only the bits
of headers before the work is reached again, and both count the same heights. -/

set_option autoImplicit false

namespace Sharecoin

open Lib HeadersSyncState

/-- Hands messages to a synchronisation as long as it is in the given phase. -/
def feed (env : HeadersSyncEnv) (phase : DownloadState) :
    List HeadersMessage → HeadersSyncState → List ProcessingResult × HeadersSyncState
  | [], sync => ([], sync)
  | message :: messages, sync =>
    if sync.downloadState = phase then
      let (ret, next) := sync.processNextHeaders env message.headers message.full
      let (rets, last) := feed env phase messages next
      (ret :: rets, last)
    else ([], sync)

/-- All headers up to and including the message in which the work is reached. -/
def throughThreshold (env : HeadersSyncEnv) : List CBlockHeader → List HeadersMessage → List CBlockHeader
  | done, [] => done
  | done, message :: messages =>
    if env.minimumRequiredWork.toNat ≤
        chainWork env.chainStart.nChainWork (done ++ message.headers) then done ++ message.headers
    else throughThreshold env (done ++ message.headers) messages

/-- A peer serves a chain that extends the chain start twice, in any non-empty messages,
all of them full but the last of the second phase. -/
structure Serves (env : HeadersSyncEnv) (chain : List CBlockHeader)
    (first second : List HeadersMessage) : Prop where
  some : chain ≠ []
  continues : Continues env.sha256d env.chainStartHash chain
  enough : env.minimumRequiredWork.toNat ≤ chainWork env.chainStart.nChainWork chain
  room : (keptBits env (· + 1) env.chainStart.nHeight chain).length ≤ env.maxCommitments
  first_chain : first.flatMap HeadersMessage.headers = chain
  second_chain : second.flatMap HeadersMessage.headers = chain
  nonempty : ∀ message ∈ first ++ second, message.headers ≠ []
  full : ∀ message ∈ first ++ second.dropLast, message.full = true

/-- No call fails, the phases follow one another, and the second phase hands out all it
was served until the work was reached. -/
structure Completes (env : HeadersSyncEnv) (first second : List HeadersMessage) : Prop where
  presync : ∀ ret ∈ (feed env .presync first env.initial).1, ret.success = true
  turns : (feed env .presync first env.initial).2.downloadState = .redownload
  redownload : ∀ ret ∈ (feed env .redownload second (feed env .presync first env.initial).2).1, ret.success = true
  ends : (feed env .redownload second (feed env .presync first env.initial).2).2.downloadState = .final
  returned : ((feed env .presync first env.initial).1 ++
      (feed env .redownload second (feed env .presync first env.initial).2).1).flatMap
        ProcessingResult.powValidatedHeaders = throughThreshold env [] second

/-- The headers bring the work that is asked for. -/
abbrev Reaches (env : HeadersSyncEnv) (headers : List CBlockHeader) : Prop :=
  env.minimumRequiredWork.toNat ≤ chainWork env.chainStart.nChainWork headers

/-! ## Prefixes of a chain -/

variable {env : HeadersSyncEnv} {chain : List CBlockHeader} {sync : HeadersSyncState} {message : HeadersMessage}
  {messages : List HeadersMessage} {headers : List CBlockHeader}

section Prefixes

variable {next : Int → Int} {height : Int} {start : ArithUint256} {first second : List CBlockHeader}

theorem keptBits_of_part (part : first <+: second) :
    keptBits env next height first <+: keptBits env next height second := by
  obtain ⟨rest, rfl⟩ := part
  rw [keptBits_append]
  exact List.prefix_append _ _

theorem chainWork_le_of_part (part : first <+: second) : chainWork start first ≤ chainWork start second := by
  obtain ⟨rest, rfl⟩ := part
  exact chainWork_mono

theorem countedWork_of_fits (fits : chainWork start first < 2 ^ 256) :
    (countedWork start first).toNat = chainWork start first := by
  rw [countedWork_toNat, Nat.mod_eq_of_lt fits]

theorem prefix_of_work_lt {minimum : Nat} (left : first <+: chain) (right : second <+: chain)
    (short : chainWork start first < minimum) (enough : minimum ≤ chainWork start second) : first <+: second := by
  rcases List.prefix_or_prefix_of_prefix left right with shorter | longer
  · exact shorter
  · exact absurd (enough.trans (chainWork_le_of_part longer)) (Nat.not_le.mpr short)

end Prefixes

theorem checkEach_succeeds {check : HeadersSyncState → CBlockHeader → Bool × HeadersSyncState}
    {Holds : List CBlockHeader → HeadersSyncState → Prop}
    (step : ∀ done header sync, Holds done sync → done ++ [header] <+: chain →
      ∃ next, check sync header = (true, next) ∧ Holds (done ++ [header]) next)
    {done : List CBlockHeader} (before : Holds done sync)
    (served : done ++ headers <+: chain) :
    ∃ next, HeadersSyncState.checkEach check headers sync = (true, next) ∧ Holds (done ++ headers) next := by
  induction headers generalizing done sync with
  | nil =>
    rw [List.append_nil]
    exact ⟨sync, rfl, before⟩
  | cons header headers ih =>
    have onward : done ++ [header] ++ headers = done ++ header :: headers := by simp
    have here : done ++ [header] <+: chain := by
      rw [← onward] at served
      exact (List.prefix_append _ _).trans served
    obtain ⟨middle, checked, holds⟩ := step done header sync before here
    rw [← onward] at served ⊢
    obtain ⟨next, ran, reached⟩ := ih holds served
    refine ⟨next, ?_, reached⟩
    rw [HeadersSyncState.checkEach, checked]
    exact ran

/-! ## The first phase -/

section First

variable {done : List CBlockHeader}

/-- What is needed of the chain for the first phase. -/
structure Presyncable (env : HeadersSyncEnv) (chain : List CBlockHeader) : Prop where
  named : env.chainStart.getBlockHeader.getHash env.sha256d = env.chainStartHash
  continues : Continues env.sha256d env.chainStartHash chain
  low : -2 ^ 31 ≤ env.chainStart.nHeight
  heights : env.chainStart.nHeight + chain.length < 2 ^ 31
  work : chainWork env.chainStart.nChainWork chain < 2 ^ 256
  room : (keptBits env (· + 1) env.chainStart.nHeight chain).length ≤ env.maxCommitments

theorem Presyncable.bits (able : Presyncable env chain) (served : done <+: chain) :
    keptBits env intSucc env.chainStart.nHeight done = keptBits env (· + 1) env.chainStart.nHeight done := by
  have shorter := served.length_le
  have heights := able.heights
  exact keptBits_intSucc able.low (by omega)

theorem Presyncing.checkEach_ok (able : Presyncable env chain) (presyncing : Presyncing env done sync)
    (served : done ++ headers <+: chain) :
    ∃ next, HeadersSyncState.checkEach (validateAndProcessSingleHeader env) headers
        sync = (true, next) ∧ Presyncing env (done ++ headers) next := by
  refine checkEach_succeeds ?_ presyncing served
  intro done header sync before here
  have after := before.concat header
  refine ⟨afterPresync env sync header, ?_, after⟩
  apply validateAndProcessSingleHeader_of_room before.state
  have kept : (afterPresync env sync header).headerCommitments =
      keptBits env (· + 1) env.chainStart.nHeight (done ++ [header]) := by
    rw [after.bits, able.bits here]
  have part : keptBits env (· + 1) env.chainStart.nHeight (done ++ [header]) <+: _ := keptBits_of_part here
  rw [← kept] at part
  exact part.length_le.trans able.room

theorem Presyncing.processNextHeaders_ok (able : Presyncable env chain) (presyncing : Presyncing env done sync)
    (served : done ++ message.headers <+: chain) (some : message.headers ≠ []) (full : message.full = true) :
    ∃ next, sync.processNextHeaders env message.headers message.full =
        ({ success := true, requestMore := true }, next) ∧
      (¬ Reaches env (done ++ message.headers) ∧ Presyncing env (done ++ message.headers) next ∨
        Reaches env (done ++ message.headers) ∧ next.processAllRemainingHeaders = false ∧
          Redownloading env (done ++ message.headers) [] [] next) := by
  obtain ⟨next, ran, reached⟩ := presyncing.checkEach_ok able served
  have counted : Reaches env (done ++ message.headers) ↔ next.currentChainWork ≥ env.minimumRequiredWork := by
    rw [Reaches, ← countedWork_of_fits ((chainWork_le_of_part served).trans_lt able.work), ← reached.work]
    rfl
  obtain ⟨first, rest, split⟩ := List.exists_cons_of_ne_nil some
  have joined : first.hashPrevBlock = sync.lastHeaderReceived.getHash env.sha256d := by
    obtain ⟨later, whole⟩ := served
    have chained := able.continues
    rw [← whole, split, List.append_assoc] at chained
    rw [presyncing.last, able.named]
    exact (continues_append.mp chained).2.1
  rw [split] at ran reached counted ⊢
  rw [full]
  simp only [processNextHeaders, List.isEmpty_cons, Bool.false_eq_true, if_false,
    presyncing.state, HeadersSyncState.processPresync,
    validateAndStoreHeadersCommitments, ne_eq, not_true_eq_false, joined, ran,
    Bool.not_true, Bool.true_or, Bool.and_true]
  by_cases enough : next.currentChainWork ≥ env.minimumRequiredWork
  · simp only [if_pos enough, if_true, Bool.true_and]
    exact ⟨_, rfl, .inr ⟨counted.mpr enough, reached.pending, reached.beginRedownload⟩⟩
  · simp only [if_neg enough, if_true, Bool.true_and]
    exact ⟨_, rfl, .inl ⟨mt counted.mp enough, reached⟩⟩

theorem feed_other {phase : DownloadState} (other : sync.downloadState ≠ phase)
    (messages : List HeadersMessage) : feed env phase messages sync = ([], sync) := by
  cases messages with
  | nil => rfl
  | cons message messages => rw [feed, if_neg other]

theorem feed_presync (able : Presyncable env chain)
    (enough : Reaches env chain) (some : messages ≠ [])
    (presyncing : Presyncing env done sync) (served : done ++ messages.flatMap HeadersMessage.headers = chain)
    (nonempty : ∀ message ∈ messages, message.headers ≠ []) (full : ∀ message ∈ messages, message.full = true) :
    (∀ ret ∈ (feed env .presync messages sync).1, ret.success = true ∧ ret.powValidatedHeaders = []) ∧
      ∃ used, used <+: chain ∧ Reaches env used ∧ (feed env .presync messages sync).2.processAllRemainingHeaders = false ∧
        Redownloading env used [] [] (feed env .presync messages sync).2 := by
  induction messages generalizing done sync with
  | nil => exact absurd rfl some
  | cons message messages ih =>
    rw [List.flatMap_cons, ← List.append_assoc] at served
    have here : done ++ message.headers <+: chain := ⟨_, served⟩
    obtain ⟨next, ran, outcome⟩ := presyncing.processNextHeaders_ok able here
      (nonempty message (.head _)) (full message (.head _))
    rw [feed, if_pos presyncing.state, ran]
    rcases outcome with ⟨short, reached⟩ | ⟨brought, pending, reached⟩
    · have more : messages ≠ [] := by
        rintro rfl
        rw [List.flatMap_nil, List.append_nil] at served
        exact short (served ▸ enough)
      obtain ⟨succeeded, rest⟩ := ih more reached served (List.forall_mem_cons.mp nonempty).2
        (List.forall_mem_cons.mp full).2
      exact ⟨List.forall_mem_cons.mpr ⟨⟨rfl, rfl⟩, succeeded⟩, rest⟩
    · have turned : next.downloadState ≠ .presync := by
        rw [reached.state]
        decide
      dsimp only
      rw [feed_other turned]
      refine ⟨fun ret member => ?_, _, here, brought, pending, reached⟩
      rw [List.mem_singleton.mp member]
      exact ⟨rfl, rfl⟩

end First

/-! ## The second phase -/

section Second

variable {used returned waiting : List CBlockHeader}

/-- What is needed of the chain for the second phase, and of its part the first phase used. -/
structure Redownloadable (env : HeadersSyncEnv) (chain used : List CBlockHeader) : Prop where
  able : Presyncable env chain
  part : used <+: chain
  enough : env.minimumRequiredWork.toNat ≤ chainWork env.chainStart.nChainWork used

section

variable (able : Redownloadable env chain used) (redownloading : Redownloading env used returned waiting sync)
  (pending : sync.processAllRemainingHeaders = false)

include able redownloading pending

/-- While the work is missing, the next bit of the queue is that of the next header. -/
theorem Redownloading.next_bit {header : CBlockHeader} (served : (returned ++ waiting) ++ [header] <+: chain)
    (short : ¬ Reaches env ((returned ++ waiting) ++ [header])) :
    ∃ rest, sync.headerCommitments = bitAt env (sync.redownloadBufferLastHeight + 1) header ++ rest := by
  obtain ⟨later, whole⟩ : (returned ++ waiting) ++ [header] <+: used :=
    prefix_of_work_lt served able.part (Nat.not_le.mp short) able.enough
  have queue := redownloading.bits pending
  rw [able.able.bits able.part, ← whole, keptBits_append, keptBits_concat, heightAfter_succ,
    ← redownloading.height, List.append_assoc] at queue
  exact ⟨_, (List.append_cancel_left queue).symm⟩

/-- A message of the chain is stored whole; afterwards all headers are let through exactly
if the work is there. -/
theorem Redownloading.checkEach_ok (served : (returned ++ waiting) ++ headers <+: chain) :
    ∃ next, HeadersSyncState.checkEach (validateAndStoreRedownloadedHeader env) headers
        sync = (true, next) ∧ Redownloading env used returned (waiting ++ headers) next ∧
      (next.processAllRemainingHeaders = true ↔ headers ≠ [] ∧ Reaches env ((returned ++ waiting) ++ headers)) := by
  let Holds (stored : List CBlockHeader) (sync : HeadersSyncState) : Prop :=
    Redownloading env used returned (waiting ++ stored) sync ∧
      (sync.processAllRemainingHeaders = true ↔ stored ≠ [] ∧ Reaches env ((returned ++ waiting) ++ stored))
  have start : Holds [] sync := by
    refine ⟨by rwa [List.append_nil], ?_⟩
    rw [pending]
    simp
  have step : ∀ stored header sync, Holds stored sync → stored ++ [header] <+: headers →
      ∃ next, validateAndStoreRedownloadedHeader env sync header = (true, next) ∧
        Holds (stored ++ [header]) next := by
    rintro stored header sync ⟨before, flagged⟩ part
    have here : (returned ++ (waiting ++ stored)) ++ [header] <+: chain := by
      have longer : (returned ++ (waiting ++ stored)) ++ [header] =
          (returned ++ waiting) ++ (stored ++ [header]) := by simp
      rw [longer]
      exact ((List.prefix_append_right_inj _).mpr part).trans served
    have counted : (sync.redownloadChainWork + getBlockProof header).toNat =
        chainWork env.chainStart.nChainWork ((returned ++ (waiting ++ stored)) ++ [header]) := by
      rw [before.work, ← countedWork_concat]
      exact countedWork_of_fits ((chainWork_le_of_part here).trans_lt able.able.work)
    have connected : header.hashPrevBlock = sync.redownloadBufferLastHash := by
      obtain ⟨later, whole⟩ := here
      have chained := able.able.continues
      rw [← whole] at chained
      rw [before.last]
      exact (continues_concat.mp (continues_append.mp chained).1).2
    obtain ⟨next, checked⟩ : ∃ next,
        validateAndStoreRedownloadedHeader env sync header = (true, next) := by
      apply validateAndStoreRedownloadedHeader_of_match before.state connected
      intro quiet
      obtain ⟨unflagged, short⟩ := Bool.or_eq_false_iff.mp quiet
      refine before.next_bit able unflagged here ?_
      rw [Reaches, ← counted]
      exact of_decide_eq_false short
    refine ⟨next, checked, ?_, ?_⟩
    · have after := before.store checked
      rwa [List.append_assoc] at after
    obtain ⟨_, rest, rfl, _⟩ := validateAndStoreRedownloadedHeader_ok checked
    have total : chainWork env.chainStart.nChainWork ((returned ++ waiting) ++ (stored ++ [header])) =
        (sync.redownloadChainWork + getBlockProof header).toNat := by
      rw [counted]
      simp
    simp only [afterStore, Reaches, Bool.or_eq_true, decide_eq_true_eq, ne_eq, List.append_eq_nil_iff,
      List.cons_ne_self, and_false, not_false_eq_true, true_and, total]
    constructor
    · rintro (earlier | now)
      · have enough := (flagged.mp earlier).2
        rw [counted]
        refine enough.trans (chainWork_le_of_part ?_)
        rw [← List.append_assoc returned waiting stored]
        exact List.prefix_append _ _
      · exact BitVec.le_def.mp now
    · exact fun now => .inr (BitVec.le_def.mpr now)
  exact checkEach_succeeds step start List.prefix_rfl

/-- A message of the chain is answered with success. If it brings the work, everything
waiting is handed out and the run ends; otherwise it goes on, if the message was full. -/
theorem Redownloading.processNextHeaders_ok
    (served : (returned ++ waiting) ++ message.headers <+: chain) (some : message.headers ≠ []) :
    ∃ ret next, sync.processNextHeaders env message.headers message.full = (ret, next) ∧ ret.success = true ∧
      (Reaches env ((returned ++ waiting) ++ message.headers) →
        ret.powValidatedHeaders = waiting ++ message.headers ∧ next.downloadState = .final) ∧
      (¬ Reaches env ((returned ++ waiting) ++ message.headers) → message.full = true →
        ∃ kept, waiting ++ message.headers = ret.powValidatedHeaders ++ kept ∧ next.processAllRemainingHeaders = false ∧
          Redownloading env used (returned ++ ret.powValidatedHeaders) kept next) := by
  obtain ⟨stored, ran, reached, flagged⟩ := redownloading.checkEach_ok able pending served
  obtain ⟨popped, kept, split, handed, after, flag, whole, -⟩ := reached.pop
  have processed : sync.processRedownload env message.headers message.full =
      (⟨popped, true, !((kept.isEmpty) && stored.processAllRemainingHeaders) && message.full⟩,
        (stored.popHeadersReadyForAcceptance env).2) := by
    have buffer : (stored.popHeadersReadyForAcceptance env).2.redownloadedHeaders.isEmpty =
        kept.isEmpty := by
      rw [after.buffer, List.isEmpty_map]
    simp only [HeadersSyncState.processRedownload, ran, if_true, handed, buffer, flag]
  have called : sync.processNextHeaders env message.headers message.full =
      let (ret, next) := sync.processRedownload env message.headers message.full
      (ret, if ret.success && ret.requestMore then next else next.finalize) := by
    rw [processNextHeaders, if_neg (by simpa using some), redownloading.state]
  rw [processed] at called
  refine ⟨_, _, called, rfl, ?_, ?_⟩
  · intro enough
    have all := flagged.mpr ⟨some, enough⟩
    obtain rfl := whole all
    refine ⟨by rw [split, List.append_nil], ?_⟩
    simp [all, finalize]
  · intro short full
    have held : stored.processAllRemainingHeaders = false := by
      by_contra all
      exact short (flagged.mp (Bool.not_eq_false _ ▸ all)).2
    have goesOn : (true && (!((kept.isEmpty) && stored.processAllRemainingHeaders) && message.full)) = true := by
      simp [held, full]
    rw [if_pos goesOn]
    exact ⟨kept, split, flag.trans held, after⟩

theorem feed_redownload (some : messages ≠ [])
    (served : (returned ++ waiting) ++ messages.flatMap HeadersMessage.headers = chain)
    (nonempty : ∀ message ∈ messages, message.headers ≠ [])
    (full : ∀ message ∈ messages.dropLast, message.full = true) :
    (∀ ret ∈ (feed env .redownload messages sync).1, ret.success = true) ∧
      (feed env .redownload messages sync).2.downloadState = .final ∧
      returned ++ (feed env .redownload messages sync).1.flatMap ProcessingResult.powValidatedHeaders =
        throughThreshold env (returned ++ waiting) messages := by
  induction messages generalizing returned waiting sync with
  | nil => exact absurd rfl some
  | cons message messages ih =>
    rw [List.flatMap_cons, ← List.append_assoc] at served
    obtain ⟨ret, next, ran, success, reaches, goesOn⟩ := redownloading.processNextHeaders_ok able
      pending ⟨_, served⟩ (nonempty message (.head _))
    rw [feed, if_pos redownloading.state, ran, throughThreshold]
    dsimp only
    by_cases enough : Reaches env ((returned ++ waiting) ++ message.headers)
    · obtain ⟨handed, final⟩ := reaches enough
      have ended : next.downloadState ≠ .redownload := by
        rw [final]
        decide
      rw [feed_other ended, if_pos enough, List.flatMap_singleton, handed, List.append_assoc]
      refine ⟨fun other member => ?_, final, rfl⟩
      rw [List.mem_singleton.mp member]
      exact success
    · -- The whole chain has the work, so a message without it is not the last one.
      have more : messages ≠ [] := by
        rintro rfl
        rw [List.flatMap_nil, List.append_nil] at served
        rw [served] at enough
        exact enough (able.enough.trans (chainWork_le_of_part able.part))
      obtain ⟨last, rest, rfl⟩ := List.exists_cons_of_ne_nil more
      have filled : message.full = true := full message (by simp)
      obtain ⟨kept, split, held, after⟩ := goesOn enough filled
      have regrouped : (returned ++ ret.powValidatedHeaders) ++ kept = (returned ++ waiting) ++ message.headers := by
        rw [List.append_assoc, ← split, List.append_assoc]
      obtain ⟨succeeded, final, handed⟩ := ih after held more (by rw [regrouped]; exact served)
        (List.forall_mem_cons.mp nonempty).2
        (fun other member => full other (by
          rw [List.dropLast_cons_cons]
          exact .tail _ member))
      refine ⟨List.forall_mem_cons.mpr ⟨success, succeeded⟩, final, ?_⟩
      rw [if_neg enough, List.flatMap_cons, ← List.append_assoc, handed, regrouped]

end

end Second

/-! ## The whole run -/

section Whole

variable {first second : List HeadersMessage}

section

variable (serves : Serves env chain first second)

include serves

theorem Serves.first_some : first ≠ [] := by
  rintro rfl
  exact serves.some serves.first_chain.symm

theorem Serves.second_some : second ≠ [] := by
  rintro rfl
  exact serves.some serves.second_chain.symm

theorem Serves.completes (able : Presyncable env chain) : Completes env first second := by
  obtain ⟨nonempty, nonempty'⟩ := List.forall_mem_append.mp serves.nonempty
  obtain ⟨full, full'⟩ := List.forall_mem_append.mp serves.full
  obtain ⟨presync, used, part, enough, pending, redownloading⟩ := feed_presync able serves.enough
    serves.first_some (presyncing_initial env) serves.first_chain nonempty full
  obtain ⟨redownload, ends, handed⟩ := feed_redownload ⟨able, part, enough⟩ redownloading pending
    serves.second_some serves.second_chain nonempty' full'
  refine ⟨fun ret member => (presync ret member).1, redownloading.state, redownload, ends, ?_⟩
  have nothing : (feed env .presync first env.initial).1.flatMap ProcessingResult.powValidatedHeaders = [] :=
    List.flatMap_eq_nil_iff.mpr fun ret member => (presync ret member).2
  rw [List.flatMap_append, nothing]
  exact handed

/-- The first header of the chain is refused if the chain start's entry stands for another
header than the one it was made from. -/
theorem Serves.named (completes : Completes env first second) :
    env.chainStart.getBlockHeader.getHash env.sha256d = env.chainStartHash := by
  by_contra differs
  obtain ⟨message, rest, rfl⟩ := List.exists_cons_of_ne_nil serves.first_some
  obtain ⟨header, headers, split⟩ := List.exists_cons_of_ne_nil (serves.nonempty message (by simp))
  have joined : header.hashPrevBlock = env.chainStartHash := by
    have chained := serves.continues
    rw [← serves.first_chain, List.flatMap_cons, split] at chained
    exact chained.1
  have start : env.initial.downloadState = .presync := rfl
  have refused : (env.initial.processNextHeaders env message.headers message.full).1.success =
      false := by
    have apart : header.hashPrevBlock ≠ env.initial.lastHeaderReceived.getHash env.sha256d := by
      rw [joined]
      exact fun same => differs same.symm
    simp only [processNextHeaders, split, List.isEmpty_cons, Bool.false_eq_true,
      if_false, start, processPresync,
      validateAndStoreHeadersCommitments, ne_eq, not_true_eq_false, apart,
      not_false_eq_true, if_true]
  have answered : (env.initial.processNextHeaders env message.headers message.full).1 ∈
      (feed env .presync (message :: rest) env.initial).1 := by
    rw [feed, if_pos start]
    exact .head _
  have success := completes.presync _ answered
  rw [refused] at success
  exact absurd success (by decide)

end

/-- A peer that serves one chain twice is carried through both phases exactly if the entry
of the chain start stands for the header it was made from, as long as heights fit an `int`
and work fits 256 bits. -/
theorem completes_iff (serves : Serves env chain first second)
    (low : -2 ^ 31 ≤ env.chainStart.nHeight) (heights : env.chainStart.nHeight + chain.length < 2 ^ 31)
    (work : chainWork env.chainStart.nChainWork chain < 2 ^ 256) :
    Completes env first second ↔ env.chainStart.getBlockHeader.getHash env.sha256d = env.chainStartHash :=
  ⟨serves.named, fun named =>
    serves.completes ⟨named, serves.continues, low, heights, work, serves.room⟩⟩

def lowServed : List HeadersMessage := [⟨lowChain.take 1, true⟩, ⟨lowChain.drop 1, false⟩]

theorem lowServed_serves : Serves lowEnv lowChain [⟨lowChain, true⟩] lowServed where
  some := List.cons_ne_nil _ _
  continues := ⟨by decide +kernel, by decide +kernel, by decide +kernel, trivial⟩
  enough := by decide +kernel
  room := by decide +kernel
  first_chain := rfl
  second_chain := rfl
  nonempty := by decide +kernel
  full := by decide +kernel

theorem completes_lowServed : Completes lowEnv [⟨lowChain, true⟩] lowServed :=
  (completes_iff lowServed_serves (by decide) (by decide) (by decide +kernel)).mpr (by decide +kernel)

/-- The chain start is the entry of an accepted header that declared another height. -/
def misnumberedEnv : HeadersSyncEnv :=
  { lowEnv with
    chainStart := ((runHeaders permissiveEnv (regtestParams permissiveEnv.sha256d)
      [⟨misnumberedHeader, true, 1296688603⟩]).chainman.mBlockIndex.lookup
        (misnumberedHeader.getHash Sha256.doubleDigest)).getD {}
    chainStartHash := misnumberedHeader.getHash Sha256.doubleDigest }

def misnumberedChild : CBlockHeader :=
  { syncHeader 0 0 with hashPrevBlock := misnumberedEnv.chainStartHash }

theorem misnumberedChild_dropped : Serves misnumberedEnv [misnumberedChild] [⟨[misnumberedChild], true⟩]
        [⟨[misnumberedChild], true⟩] ∧
      ¬ Completes misnumberedEnv [⟨[misnumberedChild], true⟩] [⟨[misnumberedChild], true⟩] := by
  have serves : Serves misnumberedEnv [misnumberedChild] [⟨[misnumberedChild], true⟩] [⟨[misnumberedChild], true⟩] := by
    refine ⟨List.cons_ne_nil _ _, ⟨rfl, trivial⟩, ?_, ?_, rfl, rfl, ?_, ?_⟩
    · decide +kernel
    · decide +kernel
    · simp
    · simp
  have renamed : misnumberedEnv.chainStart.getBlockHeader.getHash misnumberedEnv.sha256d ≠
      misnumberedEnv.chainStartHash := by
    decide +kernel
  exact ⟨serves, fun completes => renamed (serves.named completes)⟩

end Whole

end Sharecoin
