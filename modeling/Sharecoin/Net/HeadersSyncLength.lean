import Sharecoin.Lib.Rank
import Sharecoin.Net.HeadersSyncProperties

/-! How long a chain can be whose times pass the consensus rules. A header is later than the median
of the eleven blocks before it, so the median rises at least once in six blocks, also where there are
fewer than eleven. The limit on commitments is what that leaves up to the present. -/

set_option autoImplicit false

namespace Sharecoin

open Lib

/-! ## Median times -/

/-- What `GetMedianTimePast` takes of the times it collects. -/
def medianTime (times : List Int) : Int :=
  (times.insertionSort (· ≤ ·)).getD ((times.insertionSort (· ≤ ·)).length / 2) 0

theorem le_medianTime_iff {times : List Int} (some : times ≠ []) {bound : Int} :
    bound ≤ medianTime times ↔ times.length - times.length / 2 ≤ times.countP (bound ≤ ·) := by
  have positive := List.length_pos_of_ne_nil some
  rw [medianTime, List.length_insertionSort]
  exact le_getD_insertionSort_iff (by omega)

section Index

variable {blocks : BlockMap} {pindex : Uint256}

theorem blockTimes_take (count : Nat) (cursor : Option Uint256) :
    blockTimes blocks count cursor = (blockTimes blocks (count + 1) cursor).take count := by
  induction count generalizing cursor with
  | zero => cases cursor <;> rfl
  | succ count ih =>
    cases cursor with
    | none => rfl
    | some pindex =>
      rw [blockTimes, blockTimes]
      cases blocks.lookup pindex with
      | none => rfl
      | some entry => simp only [List.take_succ_cons, ← ih]

theorem length_blockTimes_le (count : Nat) (cursor : Option Uint256) :
    (blockTimes blocks count cursor).length ≤ count := by
  rw [blockTimes_take, List.length_take]
  exact Nat.min_le_left _ _

theorem medianTime_blockTimes : medianTime ((blockTimes blocks nMedianTimeSpan (some pindex)).take nMedianTimeSpan) =
      getMedianTimePast blocks pindex := by
  rw [List.take_of_length_le (length_blockTimes_le _ _)]
  rfl

end Index

/-! ## Chains with admissible times -/

def headerTime (header : CBlockHeader) : Int := header.nTime.toNat

/-- Every header is later than the median time past of its predecessor and no later than the limit. The
times before the chain are listed from the latest one on. -/
def Admissible (limit : Int) : List Int → List CBlockHeader → Prop
  | _, [] => True
  | past, header :: headers =>
    medianTime (past.take nMedianTimeSpan) < headerTime header ∧ headerTime header ≤ limit ∧
      Admissible limit (headerTime header :: past) headers

section Length

variable {limit bound : Int} {past : List Int} {header : CBlockHeader} {first rest headers : List CBlockHeader}

theorem take_span_ne_nil (some : past ≠ []) : past.take nMedianTimeSpan ≠ [] := by
  cases past with
  | nil => exact absurd rfl some
  | cons time past => exact List.cons_ne_nil _ _

/-- The oldest time may drop out, but a later one came in. -/
theorem le_medianTime_cons (some : past ≠ []) {time : Int} (low : bound ≤ medianTime (past.take nMedianTimeSpan))
    (later : bound ≤ time) : bound ≤ medianTime ((time :: past).take nMedianTimeSpan) := by
  rw [le_medianTime_iff (take_span_ne_nil some)] at low
  rw [le_medianTime_iff (take_span_ne_nil (List.cons_ne_nil _ _))]
  have dropped : (past.take 11).countP (bound ≤ ·) ≤ (past.take 10).countP (bound ≤ ·) + 1 := by
    rw [show past.take 11 = past.take 10 ++ (past.drop 10).take 1 by
      rw [← List.take_add], List.countP_append]
    have one := @List.countP_le_length _ (bound ≤ ·) ((past.drop 10).take 1)
    rw [List.length_take] at one
    omega
  have whole : past.length ≤ 10 → (past.take 11).countP (bound ≤ ·) = (past.take 10).countP (bound ≤ ·) := by
    intro short
    rw [List.take_of_length_le (by omega), List.take_of_length_le (by omega)]
  rw [nMedianTimeSpan] at low ⊢
  rw [List.take_succ_cons, List.countP_cons_of_pos (by simpa using later), List.length_cons,
    List.length_take]
  rw [List.length_take] at low
  by_cases short : past.length ≤ 10
  · rw [whole short] at low
    omega
  · omega

/-- While the chain goes on, no time falls back to a bound that the median has reached. -/
theorem Admissible.append (some : past ≠ []) (low : bound ≤ medianTime (past.take nMedianTimeSpan))
    (admissible : Admissible limit past (first ++ rest)) :
    (∀ header ∈ first, bound < headerTime header) ∧ Admissible limit ((first.map headerTime).reverse ++ past) rest := by
  induction first generalizing past with
  | nil => exact ⟨List.forall_mem_nil _, admissible⟩
  | cons header first ih =>
    obtain ⟨later, _, goesOn⟩ := admissible
    have above : bound < headerTime header := low.trans_lt later
    obtain ⟨others, after⟩ := ih (List.cons_ne_nil _ _) (le_medianTime_cons some low above.le) goesOn
    refine ⟨List.forall_mem_cons.mpr ⟨above, others⟩, ?_⟩
    rw [List.map_cons, List.reverse_cons, List.append_assoc]
    exact after

theorem le_medianTime_of_six {times : List Int} (six : times.length = 6) (above : ∀ time ∈ times, bound ≤ time) :
    bound ≤ medianTime ((times ++ past).take nMedianTimeSpan) := by
  have some : times ++ past ≠ [] := by
    intro empty
    rw [(List.append_eq_nil_iff.mp empty).1] at six
    cases six
  rw [le_medianTime_iff (take_span_ne_nil some), nMedianTimeSpan,
    List.take_append, List.take_of_length_le (by omega), List.countP_append,
    List.countP_eq_length.mpr (fun time member => decide_eq_true (above time member)),
    List.length_append, List.length_take]
  omega

/-- The induction takes six headers at a time, over which the median rises. -/
theorem Admissible.length_le (some : past ≠ []) (admissible : Admissible limit past headers) :
    headers = [] ∨ (headers.length : Int) ≤ 6 * (limit - medianTime (past.take nMedianTimeSpan)) := by
  induction counted : headers.length using Nat.strong_induction_on generalizing past headers with
  | _ size ih =>
    cases headers with
    | nil => exact .inl rfl
    | cons header headers =>
      right
      obtain ⟨later, notLate, _⟩ := id admissible
      by_cases few : size ≤ 6
      · omega
      have halves := (List.take_append_drop 6 (header :: headers)).symm
      rw [halves] at admissible
      obtain ⟨above, after⟩ := admissible.append some le_rfl
      have six : ((header :: headers).take 6).length = 6 := by
        rw [List.length_take]
        omega
      have rises := @le_medianTime_of_six (medianTime (past.take nMedianTimeSpan) + 1) past
        (((header :: headers).take 6).map headerTime).reverse (by rw [List.length_reverse, List.length_map, six]) (by
          intro time member
          obtain ⟨one, inside, rfl⟩ := List.mem_map.mp (List.mem_reverse.mp member)
          exact Int.add_one_le_of_lt (above one inside))
      have left : ((header :: headers).drop 6).length = size - 6 := by rw [List.length_drop, counted]
      rcases ih (size - 6) (by omega) (by simp) after left with empty | bounded
      · rw [empty, List.length_nil] at left
        omega
      · omega

end Length

/-! ## The limit on commitments -/

namespace HeadersSyncEnv

variable (env : HeadersSyncEnv)

def maxSecondsSinceStart : Int := env.now - env.chainStartMedianTimePast + MAX_FUTURE_BLOCK_TIME

end HeadersSyncEnv

section Commitments

open HeadersSyncState

variable {env : HeadersSyncEnv}

theorem length_headerCommitments_checkEach (headers : List CBlockHeader) {sync : HeadersSyncState}
    (room : sync.headerCommitments.length ≤ env.maxCommitments) :
    (checkEach (validateAndProcessSingleHeader env) headers sync).2.headerCommitments.length ≤
      env.maxCommitments + 1 := by
  induction headers generalizing sync with
  | nil => exact room.trans (Nat.le_succ _)
  | cons header headers ih =>
    have one : (sync.headerCommitments ++ bitAt env (intSucc sync.currentHeight) header).length ≤
        env.maxCommitments + 1 := by
      rw [List.length_append, bitAt]
      split
      · exact Nat.succ_le_succ room
      · exact room.trans (Nat.le_succ _)
    by_cases presync : sync.downloadState = .presync
    · by_cases fits : (sync.headerCommitments ++
          bitAt env (intSucc sync.currentHeight) header).length ≤ env.maxCommitments
      · rw [checkEach, validateAndProcessSingleHeader_of_room presync fits]
        exact ih fits
      have stops : validateAndProcessSingleHeader env sync header = (false, { sync with
          headerCommitments := sync.headerCommitments ++ bitAt env (intSucc sync.currentHeight) header }) := by
        have commits : env.commitsAt (intSucc sync.currentHeight) = true := by
          by_contra quiet
          rw [bitAt, if_neg quiet, List.append_nil] at fits
          exact fits room
        unfold validateAndProcessSingleHeader
        simp only [bits_append_bitAt, permittedDifficultyTransition]
        rw [if_neg (not_not.mpr presync), if_neg (by decide), if_pos]
        · rfl
        · rw [Bool.and_eq_true, decide_eq_true_eq]
          exact ⟨commits, Nat.lt_of_not_le fits⟩
      rw [checkEach, stops]
      exact one
    · have refused : validateAndProcessSingleHeader env sync header = (false, sync) := by
        rw [validateAndProcessSingleHeader, if_pos presync]
      rw [checkEach, refused]
      exact room.trans (Nat.le_succ _)

theorem length_keptBits (height : Int) (headers : List CBlockHeader) : (keptBits env (· + 1) height headers).length =
      Nat.count (fun index => env.commitsAt (height + 1 + (index : Nat)) = true) headers.length := by
  induction headers using List.reverseRecOn with
  | nil => rfl
  | append_singleton headers header ih =>
    rw [keptBits_concat, List.length_append, ih, List.length_append, List.length_singleton,
      Nat.count_succ, heightAfter_succ, bitAt,
      show height + headers.length + 1 = height + 1 + (headers.length : Int) by omega]
    split <;> rfl

theorem length_keptBits_le {height : Int} {headers : List CBlockHeader} (positive : 0 < env.params.commitmentPeriod)
    (nonneg : 0 ≤ height) (fits : height + headers.length < 2 ^ 31) :
    (keptBits env intSucc height headers).length ≤ headers.length / env.params.commitmentPeriod + 1 := by
  obtain ⟨start, rfl⟩ := Int.eq_ofNat_of_zero_le nonneg
  rw [keptBits_intSucc (by omega) fits, length_keptBits]
  refine le_trans ?_ (count_residue_le (start + 1) env.params.commitmentPeriod env.commitOffset headers.length positive)
  rw [Nat.count_eq_card_filter_range, Nat.count_eq_card_filter_range]
  refine Finset.card_le_card fun index member => ?_
  obtain ⟨below, commits⟩ := Finset.mem_filter.mp member
  rw [Finset.mem_range] at below
  refine Finset.mem_filter.mpr ⟨Finset.mem_range.mpr below, ?_⟩
  rw [HeadersSyncEnv.commitsAt, beq_iff_eq, Int.emod_eq_of_lt (by omega) (by omega)] at commits
  have same : (start + 1 + (index : Int)).toNat = start + 1 + index := by omega
  rwa [same] at commits

/-- No headers make the sync keep more than one commitment above the limit. A chain that passes the
rules on times is no longer than the limit allows for, so it does not call for more either. -/
theorem presync_length_bounded (env : HeadersSyncEnv) {blocks : BlockMap} {pindex : Uint256}
    {entry : CBlockIndex} (found : blocks.lookup pindex = some entry)
    (start : env.chainStartMedianTimePast = getMedianTimePast blocks pindex) :
    (∀ headers, (checkEach (validateAndProcessSingleHeader env) headers env.initial).2.headerCommitments.length ≤
        env.maxCommitments + 1) ∧
      ∀ headers, Admissible (env.now + MAX_FUTURE_BLOCK_TIME)
          (blockTimes blocks nMedianTimeSpan (some pindex)) headers →
        (headers = [] ∨ (headers.length : Int) ≤ 6 * env.maxSecondsSinceStart) ∧
          (0 < env.params.commitmentPeriod → 0 ≤ env.chainStart.nHeight →
            env.chainStart.nHeight + headers.length < 2 ^ 31 → 6 * env.maxSecondsSinceStart < 2 ^ 64 →
            (keptBits env intSucc env.chainStart.nHeight headers).length ≤ env.maxCommitments + 1) := by
  refine ⟨fun headers => length_headerCommitments_checkEach headers (Nat.zero_le _), fun headers admissible => ?_⟩
  have some : blockTimes blocks nMedianTimeSpan (some pindex) ≠ [] := by
    change blockTimes blocks (10 + 1) _ ≠ []
    rw [blockTimes, found]
    exact List.cons_ne_nil _ _
  have bounded := admissible.length_le some
  rw [medianTime_blockTimes, ← start, show env.now + MAX_FUTURE_BLOCK_TIME -
    env.chainStartMedianTimePast = env.maxSecondsSinceStart by
      rw [HeadersSyncEnv.maxSecondsSinceStart]; omega] at bounded
  refine ⟨bounded, ?_⟩
  intro positive nonneg fits clock
  rcases bounded with rfl | bounded
  · exact Nat.zero_le _
  refine (length_keptBits_le positive nonneg fits).trans (Nat.succ_le_succ ?_)
  change _ ≤ (6 * env.maxSecondsSinceStart % 2 ^ 64).toNat / _
  rw [Int.emod_eq_of_lt (by omega) clock]
  exact Nat.div_le_div_right (by omega)

end Commitments

/-- A sync that starts at a block of a given time. -/
def clockEnv (now : Int) : HeadersSyncEnv :=
  { syncEnv 0 0 with chainStartMedianTimePast := 1296688602, now }

def clockBlocks : BlockMap := (∅ : BlockMap).insert (.ofNat 0) { nTime := 1296688602 }

/-- Headers that come one second after the other. -/
def laterHeaders : List CBlockHeader :=
  [1296688603, 1296688604, 1296688605].map fun nTime => { syncHeader 0 0 with nTime }

theorem presync_length_three : (laterHeaders.length : Int) ≤ 6 * (clockEnv 1296688602).maxSecondsSinceStart := by
  have admissible : Admissible ((clockEnv 1296688602).now + MAX_FUTURE_BLOCK_TIME)
      (blockTimes clockBlocks nMedianTimeSpan (some (.ofNat 0))) laterHeaders := by
    simp only [laterHeaders, List.map_cons, List.map_nil, Admissible]
    decide +kernel
  have bounded := ((presync_length_bounded (clockEnv 1296688602) (AList.lookup_insert _)
    (by decide +kernel)).2 laterHeaders admissible).1
  exact bounded.resolve_left (List.cons_ne_nil _ _)

/-- A clock set back more than two hours before the start of the chain: the number of seconds is
negative, so not even the empty continuation is within it. -/
theorem presync_empty_exceeds : clockBlocks.lookup (.ofNat 0) = some { nTime := 1296688602 } ∧
      (clockEnv 0).chainStartMedianTimePast = getMedianTimePast clockBlocks (.ofNat 0) ∧
      Admissible ((clockEnv 0).now + MAX_FUTURE_BLOCK_TIME)
        (blockTimes clockBlocks nMedianTimeSpan (some (.ofNat 0))) [] ∧
      ¬ (([] : List CBlockHeader).length : Int) ≤ 6 * (clockEnv 0).maxSecondsSinceStart :=
  ⟨AList.lookup_insert _, by decide +kernel, trivial, by decide⟩

end Sharecoin
