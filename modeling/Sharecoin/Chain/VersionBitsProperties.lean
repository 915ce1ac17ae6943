import Sharecoin.Chain.Ancestors
import Sharecoin.Chain.VersionBits

/-! The cached computation of version bits agrees with the plain recursion over the periods of a branch,
whatever was asked before. The cache holds only states of that recursion, and one answer adds no other. -/

set_option autoImplicit false

namespace Sharecoin

open Lib

/-! ## The recursion over periods -/

/-- What a deployment reads of a branch, by height. -/
structure Signals where
  signals : Nat → Bool
  medianTime : Nat → Int

variable {number first count : Nat}

namespace ThresholdConditionChecker

variable (checker : ThresholdConditionChecker) {left right : Signals}

def signalCount (branch : Signals) (first : Nat) (count : Nat) : Nat :=
  (List.range' first count).countP branch.signals

/-- The state of each period of a branch, counted from the one of the genesis block. -/
def bip9State (branch : Signals) : Nat → ThresholdState
  | 0 => .DEFINED
  | number + 1 =>
    let next := (number + 1) * checker.period.toNat
    match bip9State branch number with
    | .DEFINED => if branch.medianTime (next - 1) ≥ checker.beginTime then .STARTED else .DEFINED
    | .STARTED =>
      if (signalCount branch (number * checker.period.toNat) checker.period.toNat : Int) ≥
          checker.threshold then .LOCKED_IN
      else if branch.medianTime (next - 1) ≥ checker.endTime then .FAILED
      else .STARTED
    | .LOCKED_IN => if (next : Int) ≥ checker.minActivationHeight then .ACTIVE else .LOCKED_IN
    | .ACTIVE => .ACTIVE
    | .FAILED => .FAILED

theorem signalCount_congr
    (same : ∀ height, first ≤ height → height < first + count → left.signals height = right.signals height) :
    signalCount left first count = signalCount right first count := by
  apply List.countP_congr
  intro height member
  obtain ⟨low, high⟩ := List.mem_range'_1.mp member
  rw [same height low high]

theorem signalCount_succ (branch : Signals) (first count : Nat) : signalCount branch first (count + 1) =
      signalCount branch first count + if branch.signals (first + count) then 1 else 0 := by
  rw [signalCount, List.range'_1_concat, List.countP_append, List.countP_singleton]
  rfl

theorem bip9State_congr (positive : 0 < checker.period)
    (signals : ∀ height < number * checker.period.toNat, left.signals height = right.signals height)
    (times : ∀ height < number * checker.period.toNat, left.medianTime height = right.medianTime height) :
    checker.bip9State left number = checker.bip9State right number := by
  induction number with
  | zero => rfl
  | succ number ih =>
    have span := Nat.add_one_mul number checker.period.toNat
    have before := ih (fun height below => signals height (by omega))
      (fun height below => times height (by omega))
    have counted : signalCount left (number * checker.period.toNat) checker.period.toNat =
        signalCount right (number * checker.period.toNat) checker.period.toNat :=
      signalCount_congr fun height _ below => signals height (by omega)
    have last := times ((number + 1) * checker.period.toNat - 1) (by omega)
    simp only [bip9State, before, counted, last]

theorem bip9State_eq_DEFINED (positive : 0 < checker.period) {branch : Signals}
    (early : ∀ height < number * checker.period.toNat, branch.medianTime height < checker.beginTime) :
    checker.bip9State branch number = .DEFINED := by
  induction number with
  | zero => rfl
  | succ number ih =>
    have span := Nat.add_one_mul number checker.period.toNat
    have before := ih fun height below => early height (by omega)
    have last := early ((number + 1) * checker.period.toNat - 1) (by omega)
    rw [bip9State, before]
    exact if_neg (not_le.mpr last)

end ThresholdConditionChecker

/-! ## Branches of the tree -/

/-- The number of blocks up to a block, which is the height of the next one. -/
def nextHeight (blocks : BlockMap) (pindexPrev : Option Uint256) : Nat :=
  match pindexPrev.bind blocks.lookup with
  | none => 0
  | some entry => (entry.nHeight + 1).toNat

def branchAt (blocks : BlockMap) (pindexPrev : Option Uint256) (height : Nat) : Option Uint256 :=
  pindexPrev.bind (ancestor (parentOf blocks) (nextHeight blocks pindexPrev - 1 - height))

def InTree (blocks : BlockMap) (pindexPrev : Option Uint256) : Prop :=
  ∀ hash, pindexPrev = some hash → ∃ entry, blocks.lookup hash = some entry

/-- The median time past never falls from a block to its successor. -/
def MedianTimeMonotone (blocks : BlockMap) : Prop :=
  ∀ hash entry pprev, blocks.lookup hash = some entry → entry.pprev = some pprev →
    getMedianTimePast blocks pprev ≤ getMedianTimePast blocks hash

variable {hash : Uint256} {entry : CBlockIndex}

section Branch

variable {blocks : BlockMap}

section

variable (found : blocks.lookup hash = some entry)

include found

theorem inTree_of_lookup : InTree blocks (some hash) := by
  rintro _ ⟨⟩
  exact ⟨entry, found⟩

theorem nextHeight_eq : nextHeight blocks (some hash) = (entry.nHeight + 1).toNat := by
  rw [nextHeight, Option.bind_some, found]

variable (linked : Linked blocks)

include linked

theorem branchAt_top : branchAt blocks (some hash) entry.nHeight.toNat = some hash := by
  have nonneg := linked.nonneg hash entry found
  have zero : nextHeight blocks (some hash) - 1 - entry.nHeight.toNat = 0 := by
    rw [nextHeight_eq found]
    omega
  rw [branchAt, Option.bind_some, zero]
  rfl

theorem Linked.inTree_pprev : InTree blocks entry.pprev := by
  intro pprev link
  obtain ⟨parent, parentFound, -⟩ := linked.child hash entry pprev found link
  exact ⟨parent, parentFound⟩

theorem getAncestor_below {height : Nat} (within : height ≤ nextHeight blocks (some hash)) :
    let above := getAncestor blocks hash (height - 1)
    InTree blocks above ∧ nextHeight blocks above = height ∧
      ∀ lower < height, branchAt blocks above lower = branchAt blocks (some hash) lower := by
  dsimp only
  have after := nextHeight_eq found
  have nonneg := linked.nonneg hash entry found
  cases height with
  | zero =>
    have null : getAncestor blocks hash ((0 : Nat) - 1) = none := by
      rw [getAncestor, found]
      exact if_pos (.inr (by omega))
    rw [null]
    exact ⟨by simp [InTree], rfl, by simp⟩
  | succ height =>
    have climbs := getAncestor_eq linked found (show (0 : Int) ≤ height by omega) (by omega)
    obtain ⟨above, aboveEntry, climbed, aboveFound, aboveHeight⟩ :=
      linked.ancestor_found (entry.nHeight - height).toNat found (by omega)
    rw [climbed] at climbs
    have reached : getAncestor blocks hash (((height + 1 : Nat) : Int) - 1) = some above := by
      rw [← climbs]
      congr 1
      omega
    rw [reached]
    refine ⟨inTree_of_lookup aboveFound, ?_, fun lower below => ?_⟩
    · rw [nextHeight_eq aboveFound]
      omega
    rw [branchAt, branchAt, Option.bind_some, Option.bind_some, nextHeight_eq aboveFound, after]
    have steps : (entry.nHeight + 1).toNat - 1 - lower =
        (entry.nHeight - height).toNat + ((aboveEntry.nHeight + 1).toNat - 1 - lower) := by omega
    rw [steps, ancestor_add, climbed, Option.bind_some]

theorem Linked.branchAt_pprev : nextHeight blocks entry.pprev = entry.nHeight.toNat ∧
      ∀ lower < entry.nHeight.toNat, branchAt blocks entry.pprev lower = branchAt blocks (some hash) lower := by
  cases link : entry.pprev with
  | none =>
    have root := linked.root hash entry found link
    refine ⟨by rw [root]; rfl, ?_⟩
    intro lower below
    omega
  | some pprev =>
    obtain ⟨parent, parentFound, height⟩ := linked.child hash entry pprev found link
    have nonneg := linked.nonneg pprev parent parentFound
    refine ⟨by rw [nextHeight_eq parentFound]; omega, fun lower below => ?_⟩
    have steps : (entry.nHeight + 1).toNat - 1 - lower = (parent.nHeight + 1).toNat - 1 - lower + 1 := by omega
    rw [branchAt, branchAt, Option.bind_some, Option.bind_some, nextHeight_eq parentFound,
      nextHeight_eq found, steps, ancestor, parentOf_eq found, link, Option.bind_some]

end

theorem MedianTimeMonotone.ancestor_le (monotone : MedianTimeMonotone blocks) (linked : Linked blocks)
    {steps : Nat} {above : Uint256} (found : blocks.lookup hash = some entry)
    (climbed : ancestor (parentOf blocks) steps hash = some above) :
    getMedianTimePast blocks above ≤ getMedianTimePast blocks hash := by
  induction steps generalizing hash entry with
  | zero =>
    cases climbed
    exact le_rfl
  | succ steps ih =>
    rw [ancestor, parentOf_eq found] at climbed
    obtain ⟨pprev, link, rest⟩ := Option.bind_eq_some_iff.mp climbed
    obtain ⟨parent, parentFound, -⟩ := linked.child hash entry pprev found link
    exact (ih parentFound rest).trans (monotone hash entry pprev found link)

end Branch

variable {pindexPrev : Option Uint256} {cache : ThresholdConditionCache}

namespace ThresholdConditionChecker

variable (checker : ThresholdConditionChecker) (blocks : BlockMap)

def branchSignals (pindexPrev : Option Uint256) : Signals :=
  { signals := fun height =>
      ((branchAt blocks pindexPrev height).bind blocks.lookup).any checker.condition
    medianTime := fun height => ((branchAt blocks pindexPrev height).map (getMedianTimePast blocks)).getD 0 }

/-- The state for the block after a given one, by the recursion over the periods of its branch. -/
def stateAfter (pindexPrev : Option Uint256) : ThresholdState :=
  checker.bip9State (checker.branchSignals blocks pindexPrev) (nextHeight blocks pindexPrev / checker.period.toNat)

def Sound (cache : ThresholdConditionCache) : Prop :=
  ∀ pindexPrev state, cache.lookup pindexPrev = some state → state = checker.stateAfter blocks pindexPrev

def EndsPeriod (pindexPrev : Option Uint256) (number : Nat) : Prop :=
  InTree blocks pindexPrev ∧ nextHeight blocks pindexPrev = number * checker.period.toNat

/-! ## One period -/

variable {checker} {blocks} {state : ThresholdState} {walked : List Uint256} {left right : Option Uint256}

theorem branchSignals_congr {height : Nat} (same : branchAt blocks left height = branchAt blocks right height) :
    (checker.branchSignals blocks left).signals height = (checker.branchSignals blocks right).signals height ∧
      (checker.branchSignals blocks left).medianTime height =
        (checker.branchSignals blocks right).medianTime height := by
  simp only [branchSignals, same, and_self]

section

variable (positive : 0 < checker.period)

include positive

theorem bip9State_branch_congr
    (same : ∀ height < number * checker.period.toNat, branchAt blocks left height = branchAt blocks right height) :
    checker.bip9State (checker.branchSignals blocks left) number =
      checker.bip9State (checker.branchSignals blocks right) number :=
  checker.bip9State_congr positive (fun height below => (branchSignals_congr (same height below)).1)
    fun height below => (branchSignals_congr (same height below)).2

theorem stateAfter_of_endsPeriod (ends : checker.EndsPeriod blocks pindexPrev number) :
    checker.stateAfter blocks pindexPrev = checker.bip9State (checker.branchSignals blocks pindexPrev) number := by
  have span : 0 < checker.period.toNat := by omega
  rw [stateAfter, ends.2, Nat.mul_div_cancel _ span]

theorem EndsPeriod.eq_zero (ends : checker.EndsPeriod blocks none number) : number = 0 := by
  have empty : 0 = number * checker.period.toNat := ends.2
  rcases Nat.mul_eq_zero.mp empty.symm with zero | zero
  · exact zero
  · omega

end

section

variable (linked : Linked blocks)

include linked

theorem EndsPeriod.height (ends : checker.EndsPeriod blocks (some hash) number)
    (found : blocks.lookup hash = some entry) :
    0 ≤ entry.nHeight ∧ entry.nHeight + 1 = ((number * checker.period.toNat : Nat) : Int) := by
  have nonneg := linked.nonneg hash entry found
  have after := ends.2
  rw [nextHeight_eq found] at after
  omega

theorem endsPeriod_before (found : blocks.lookup hash = some entry) (positive : 0 < checker.period)
    (ends : checker.EndsPeriod blocks (some hash) (number + 1)) :
    checker.EndsPeriod blocks (getAncestor blocks hash (entry.nHeight - checker.period)) number ∧
      ∀ height < number * checker.period.toNat,
        branchAt blocks (getAncestor blocks hash (entry.nHeight - checker.period)) height =
          branchAt blocks (some hash) height := by
  have after := ends.2
  have height := ends.height linked found
  have span := Nat.add_one_mul number checker.period.toNat
  have target : entry.nHeight - checker.period = ((number * checker.period.toNat : Nat) : Int) - 1 := by omega
  obtain ⟨inTree, height, same⟩ := getAncestor_below found linked
    (show number * checker.period.toNat ≤ nextHeight blocks (some hash) by omega)
  rw [← target] at inTree height same
  exact ⟨⟨inTree, height⟩, same⟩

theorem endsPeriod_pos (ends : checker.EndsPeriod blocks (some hash) number) : ∃ before, number = before + 1 := by
  obtain ⟨entry, found⟩ := ends.1 hash rfl
  have height := ends.height linked found
  cases number with
  | zero => omega
  | succ before => exact ⟨before, rfl⟩

theorem countConditions_eq {pindexCount : Option Uint256}
    (inTree : InTree blocks pindexCount) (after : nextHeight blocks pindexCount = first + count) :
    checker.countConditions blocks count pindexCount =
      some (signalCount (checker.branchSignals blocks pindexCount) first count) := by
  induction count generalizing pindexCount with
  | zero => rfl
  | succ count ih =>
    cases pindexCount with
    | none => exact absurd after (by simp [nextHeight])
    | some hash =>
      obtain ⟨entry, found⟩ := inTree hash rfl
      have nonneg := linked.nonneg hash entry found
      have height := nextHeight_eq found
      obtain ⟨parentAfter, same⟩ := linked.branchAt_pprev found
      have rest := ih (linked.inTree_pprev found) (by omega)
      have counted : signalCount (checker.branchSignals blocks entry.pprev) first count =
          signalCount (checker.branchSignals blocks (some hash)) first count :=
        signalCount_congr fun lower _ below => (branchSignals_congr (same lower (by omega))).1
      have top : branchAt blocks (some hash) (first + count) = some hash := by
        rw [show first + count = entry.nHeight.toNat by omega]
        exact branchAt_top found linked
      have signal : (checker.branchSignals blocks (some hash)).signals (first + count) = checker.condition entry := by
        simp only [branchSignals, top, Option.bind_some, found, Option.any_some]
      rw [signalCount_succ, signal, ← counted]
      simp only [countConditions, bind, Option.bind_some, found, rest]

theorem stateNext_eq (found : blocks.lookup hash = some entry)
    (ends : checker.EndsPeriod blocks (some hash) (number + 1))
    (before : checker.bip9State (checker.branchSignals blocks (some hash)) number = state) :
    checker.stateNext blocks state hash =
      some (checker.bip9State (checker.branchSignals blocks (some hash)) (number + 1)) := by
  obtain ⟨nonneg, height⟩ := ends.height linked found
  have time : (checker.branchSignals blocks (some hash)).medianTime
      ((number + 1) * checker.period.toNat - 1) = getMedianTimePast blocks hash := by
    have top : (number + 1) * checker.period.toNat - 1 = entry.nHeight.toNat := by omega
    simp only [branchSignals, top, branchAt_top found linked, Option.map_some, Option.getD_some]
  have counted : checker.countConditions blocks checker.period.toNat (some hash) =
      some (signalCount (checker.branchSignals blocks (some hash)) (number * checker.period.toNat)
        checker.period.toNat) :=
    countConditions_eq linked ends.1 (ends.2.trans (Nat.succ_mul _ _))
  rw [bip9State, before]
  cases state with
  | DEFINED => simp only [stateNext, time]
  | STARTED => simp only [stateNext, counted, bind, Option.bind_some, time]
  | LOCKED_IN => simp only [stateNext, found, bind, Option.bind_some, height]
  | ACTIVE => rfl
  | FAILED => rfl

theorem stateAfter_of_early (monotone : MedianTimeMonotone blocks) (found : blocks.lookup hash = some entry)
    (positive : 0 < checker.period) (ends : checker.EndsPeriod blocks (some hash) number)
    (early : getMedianTimePast blocks hash < checker.beginTime) :
    checker.stateAfter blocks (some hash) = .DEFINED := by
  have nonneg := linked.nonneg hash entry found
  rw [stateAfter_of_endsPeriod positive ends]
  refine checker.bip9State_eq_DEFINED positive fun height below => ?_
  rw [← ends.2, nextHeight_eq found] at below
  obtain ⟨above, -, climbed, -, -⟩ := linked.ancestor_found ((entry.nHeight + 1).toNat - 1 - height) found (by omega)
  have onBranch : branchAt blocks (some hash) height = some above := by
    rw [branchAt, Option.bind_some, nextHeight_eq found, climbed]
  have bounded := monotone.ancestor_le linked found climbed
  simp only [branchSignals, onBranch, Option.map_some, Option.getD_some]
  omega

end

/-! ## The two walks -/

/-- Blocks to compute, each with the state of the block before it. -/
inductive Path (checker : ThresholdConditionChecker) (blocks : BlockMap) :
    Option Uint256 → List Uint256 → Option Uint256 → Prop where
  | nil {pindexPrev : Option Uint256} : Path checker blocks pindexPrev [] pindexPrev
  | cons {known last : Option Uint256} {hash : Uint256} {rest : List Uint256} :
      checker.stateNext blocks (checker.stateAfter blocks known) hash = some (checker.stateAfter blocks (some hash)) →
      Path checker blocks (some hash) rest last → Path checker blocks known (hash :: rest) last

theorem Path.snoc {known middle : Option Uint256} (path : Path checker blocks known walked middle)
    (next : checker.stateNext blocks (checker.stateAfter blocks middle) hash =
      some (checker.stateAfter blocks (some hash))) :
    Path checker blocks known (walked ++ [hash]) (some hash) := by
  induction path with
  | nil => exact .cons next .nil
  | cons first _ ih => exact .cons first (ih next)

theorem Sound.insert (sound : checker.Sound blocks cache) (right : state = checker.stateAfter blocks pindexPrev) :
    checker.Sound blocks (cache.insert pindexPrev state) := by
  intro other cached found
  rcases lookup_insert_cases found with ⟨rfl, rfl⟩ | old
  · exact right
  · exact sound other cached old

theorem walkForward_spec {known last : Option Uint256}
    (path : Path checker blocks known walked last) (sound : checker.Sound blocks cache) :
    ∃ after, checker.walkForward blocks (checker.stateAfter blocks known) walked cache =
        some (checker.stateAfter blocks last, after) ∧ checker.Sound blocks after := by
  induction path generalizing cache with
  | nil => exact ⟨cache, rfl, sound⟩
  | cons next _ ih =>
    obtain ⟨after, forward, kept⟩ := ih (sound.insert rfl)
    refine ⟨after, ?_, kept⟩
    simp only [walkForward, next, bind, Option.bind_some]
    exact forward

/-- The deployment goes through the states, instead of having a fixed one. -/
def Staged (checker : ThresholdConditionChecker) : Prop :=
  checker.beginTime ≠ ALWAYS_ACTIVE ∧ checker.beginTime ≠ NEVER_ACTIVE

section

variable (checker blocks)

/-- The first height of the longest run of periods in the state of the queried block. -/
def StartsRun (pindexPrev : Option Uint256) (height : Int) : Prop :=
  ∃ first ≤ nextHeight blocks pindexPrev / checker.period.toNat, height = ((first * checker.period.toNat : Nat) : Int) ∧
    (∀ number, first ≤ number → number ≤ nextHeight blocks pindexPrev / checker.period.toNat →
      checker.bip9State (checker.branchSignals blocks pindexPrev) number = checker.stateAfter blocks pindexPrev) ∧
    ∀ before, first = before + 1 → checker.bip9State (checker.branchSignals blocks pindexPrev) before ≠
        checker.stateAfter blocks pindexPrev

def deploymentState (pindexPrev : Option Uint256) : ThresholdState :=
  if checker.beginTime = ALWAYS_ACTIVE then .ACTIVE
  else if checker.beginTime = NEVER_ACTIVE then .FAILED
  else checker.stateAfter blocks pindexPrev

def Right : Query → Answer → Prop
  | .stateFor pindexPrev, given => given = .state (checker.deploymentState blocks pindexPrev)
  | .sinceHeightFor pindexPrev, given =>
    ∃ height, given = .height height ∧
      (¬ checker.Staged ∨ checker.stateAfter blocks pindexPrev = .DEFINED → height = 0) ∧
      (checker.Staged → checker.stateAfter blocks pindexPrev ≠ .DEFINED → checker.StartsRun blocks pindexPrev height)

def Query.InTree : Query → Prop
  | .stateFor pindexPrev => Sharecoin.InTree blocks pindexPrev
  | .sinceHeightFor pindexPrev => Sharecoin.InTree blocks pindexPrev

end

section

variable (linked : Linked blocks) (positive : 0 < checker.period)

include linked positive

/-- The block that ends the period before has the state of the queried one. -/
theorem lastOfPeriod_spec (inTree : InTree blocks pindexPrev) :
    ∃ last, checker.lastOfPeriod blocks pindexPrev = some last ∧
      checker.EndsPeriod blocks last (nextHeight blocks pindexPrev / checker.period.toNat) ∧
      ∀ height < nextHeight blocks pindexPrev / checker.period.toNat * checker.period.toNat,
        branchAt blocks last height = branchAt blocks pindexPrev height := by
  cases pindexPrev with
  | none =>
    refine ⟨none, rfl, ⟨inTree, ?_⟩, fun height _ => rfl⟩
    rw [nextHeight, Option.bind_none, Nat.zero_div, Nat.zero_mul]
  | some hash =>
    obtain ⟨entry, found⟩ := inTree hash rfl
    have nonneg := linked.nonneg hash entry found
    have after := nextHeight_eq found
    have span : 0 < checker.period.toNat := by omega
    have below := Nat.div_mul_le_self (nextHeight blocks (some hash)) checker.period.toNat
    have target : entry.nHeight - (entry.nHeight + 1).tmod checker.period =
        ((nextHeight blocks (some hash) / checker.period.toNat * checker.period.toNat : Nat) : Int) - 1 := by
      have whole := Nat.div_add_mod' (nextHeight blocks (some hash)) checker.period.toNat
      have remainder : (entry.nHeight + 1).tmod checker.period =
          ((nextHeight blocks (some hash) % checker.period.toNat : Nat) : Int) := by
        rw [Int.tmod_eq_emod_of_nonneg (by omega), after, Int.natCast_emod, Int.toNat_of_nonneg (by omega),
          Int.toNat_of_nonneg (by omega)]
      rw [remainder]
      omega
    obtain ⟨inTree, height, same⟩ := getAncestor_below found linked below
    rw [← target] at inTree height same
    refine ⟨getAncestor blocks hash (entry.nHeight - (entry.nHeight + 1).tmod checker.period), ?_,
      ⟨inTree, height⟩, same⟩
    simp only [lastOfPeriod, found, bind, Option.bind_some]

theorem walkTurns_enough (ends : checker.EndsPeriod blocks pindexPrev number) :
    number < walkTurns blocks pindexPrev := by
  have span : 0 < checker.period.toNat := by omega
  have many : number ≤ number * checker.period.toNat := Nat.le_mul_of_pos_right number span
  cases pindexPrev with
  | none =>
    rw [ends.eq_zero positive]
    exact Nat.one_pos
  | some hash =>
    obtain ⟨entry, found⟩ := ends.1 hash rfl
    have height := ends.height linked found
    have turns : walkTurns blocks (some hash) = entry.nHeight.toNat + 2 := by
      rw [walkTurns, Option.bind_some, found]
    omega

variable (monotone : MedianTimeMonotone blocks)

include monotone

theorem walkBack_spec {turns : Nat}
    (ends : checker.EndsPeriod blocks pindexPrev number) (enough : number < turns)
    {vToCompute : List Uint256} (sound : checker.Sound blocks cache) :
    ∃ known walked after, checker.walkBack blocks turns pindexPrev vToCompute cache =
        some (known, walked ++ vToCompute, after) ∧
      Path checker blocks known walked pindexPrev ∧ checker.Sound blocks after ∧
      after.lookup known = some (checker.stateAfter blocks known) := by
  induction turns generalizing number pindexPrev vToCompute with
  | zero => omega
  | succ turns ih =>
    cases cached : cache.lookup pindexPrev with
    | some state =>
      refine ⟨pindexPrev, [], cache, ?_, .nil, sound, ?_⟩
      · cases pindexPrev <;> simp only [walkBack, cached, Option.isSome_some, if_true, List.nil_append]
      · rw [cached, sound pindexPrev state cached]
    | none =>
      cases pindexPrev with
      | none =>
        have first : checker.stateAfter blocks none = .DEFINED := by
          rw [stateAfter, nextHeight, Option.bind_none, Nat.zero_div, bip9State]
        refine ⟨none, [], cache.insert none .DEFINED, ?_, .nil, sound.insert first.symm, ?_⟩
        · simp only [walkBack, cached, Option.isSome_none, Bool.false_eq_true, if_false, List.nil_append]
        · rw [AList.lookup_insert, first]
      | some hash =>
        obtain ⟨entry, found⟩ := ends.1 hash rfl
        obtain ⟨before, rfl⟩ := endsPeriod_pos linked ends
        simp only [walkBack, cached, Option.isSome_none, Bool.false_eq_true, if_false, found]
        by_cases early : getMedianTimePast blocks hash < checker.beginTime
        · have first := stateAfter_of_early linked monotone found positive ends early
          refine ⟨some hash, [], cache.insert (some hash) .DEFINED, ?_, .nil, sound.insert first.symm, ?_⟩
          · rw [if_pos early]
            rfl
          · rw [AList.lookup_insert, first]
        · obtain ⟨endsBefore, same⟩ := endsPeriod_before linked found positive ends
          have computed := stateNext_eq linked found ends ((bip9State_branch_congr positive same).symm.trans
              (stateAfter_of_endsPeriod positive endsBefore).symm)
          rw [← stateAfter_of_endsPeriod positive ends] at computed
          obtain ⟨known, walked, after, walkedBack, path, kept, listed⟩ :=
            @ih before (getAncestor blocks hash (entry.nHeight - checker.period)) endsBefore
              (by omega) (hash :: vToCompute)
          refine ⟨known, walked ++ [hash], after, ?_, path.snoc computed, kept, listed⟩
          rw [if_neg early, walkedBack, List.append_assoc]
          rfl

/-! ## Queries -/

section

variable (staged : checker.Staged)

include staged

theorem getStateFor_staged (inTree : InTree blocks pindexPrev) (sound : checker.Sound blocks cache) :
    ∃ after, checker.getStateFor blocks pindexPrev cache =
        some (checker.stateAfter blocks pindexPrev, after) ∧ checker.Sound blocks after := by
  obtain ⟨last, aligned, ends, same⟩ := lastOfPeriod_spec linked positive inTree
  obtain ⟨known, walked, middle, back, path, soundMiddle, listed⟩ :=
    walkBack_spec linked positive monotone ends (walkTurns_enough linked positive ends) sound
  obtain ⟨after, forward, soundAfter⟩ := walkForward_spec path soundMiddle
  have state : checker.stateAfter blocks last = checker.stateAfter blocks pindexPrev := by
    rw [stateAfter_of_endsPeriod positive ends]
    exact bip9State_branch_congr positive same
  refine ⟨after, ?_, soundAfter⟩
  rw [List.append_nil] at back
  rw [getStateFor, if_neg staged.1, if_neg staged.2]
  simp only [aligned, back, listed, bind, Option.bind_some]
  rw [forward, state]

theorem sinceLoop_spec
    (later : checker.stateAfter blocks pindexPrev ≠ .DEFINED) {turns : Nat}
    (ends : checker.EndsPeriod blocks (some hash) (number + 1)) (enough : number < turns)
    (within : number + 1 ≤ nextHeight blocks pindexPrev / checker.period.toNat)
    (shared : ∀ height < (number + 1) * checker.period.toNat,
      branchAt blocks (some hash) height = branchAt blocks pindexPrev height)
    (run : ∀ other, number + 1 ≤ other → other ≤ nextHeight blocks pindexPrev / checker.period.toNat →
      checker.bip9State (checker.branchSignals blocks pindexPrev) other = checker.stateAfter blocks pindexPrev)
    {cache : ThresholdConditionCache} (sound : checker.Sound blocks cache) :
    ∃ height after, checker.sinceLoop blocks (checker.stateAfter blocks pindexPrev) turns hash cache =
        some (height, after) ∧ checker.Sound blocks after ∧
      checker.StartsRun blocks pindexPrev height := by
  induction turns generalizing number hash cache with
  | zero => omega
  | succ turns ih =>
    obtain ⟨entry, found⟩ := ends.1 hash rfl
    obtain ⟨nonneg, height⟩ := ends.height linked found
    obtain ⟨endsBefore, same⟩ := endsPeriod_before linked found positive ends
    have span := Nat.add_one_mul number checker.period.toNat
    -- the period before, seen from the queried block
    have before : checker.stateAfter blocks (getAncestor blocks hash (entry.nHeight - checker.period)) =
          checker.bip9State (checker.branchSignals blocks pindexPrev) number := by
      rw [stateAfter_of_endsPeriod positive endsBefore]
      refine bip9State_branch_congr positive fun lower below => ?_
      rw [same lower below, shared lower (by omega)]
    cases previous : getAncestor blocks hash (entry.nHeight - checker.period) with
    | none =>
      rw [previous] at endsBefore
      obtain rfl := endsBefore.eq_zero positive
      refine ⟨entry.nHeight + 1, cache, ?_, sound, 1, within, height, run, ?_⟩
      · simp only [sinceLoop, found, bind, Option.bind_some, previous]
      · rintro _ ⟨⟩
        exact later.symm
    | some parent =>
      rw [previous] at endsBefore before same
      obtain ⟨middle, got, soundMiddle⟩ := getStateFor_staged linked positive monotone staged endsBefore.1 sound
      by_cases equal : checker.stateAfter blocks (some parent) = checker.stateAfter blocks pindexPrev
      · obtain ⟨earlier, rfl⟩ := endsPeriod_pos linked endsBefore
        obtain ⟨height, after, looped, soundAfter, starts⟩ :=
          @ih earlier parent endsBefore (by omega) (by omega)
            (fun lower below => (same lower below).trans (shared lower (by omega)))
            (fun other low high => by
              rcases Nat.eq_or_lt_of_le low with rfl | more
              · exact before.symm.trans equal
              · exact run other more high) middle soundMiddle
        refine ⟨height, after, ?_, soundAfter, starts⟩
        simp only [sinceLoop, found, bind, Option.bind_some, previous, got, equal, if_true]
        exact looped
      · refine ⟨entry.nHeight + 1, middle, ?_, soundMiddle, number + 1, within, height, run, ?_⟩
        · simp only [sinceLoop, found, bind, Option.bind_some, previous, got, equal, if_false]
        · rintro _ ⟨⟩
          exact before ▸ equal

theorem getStateSinceHeightFor_staged (inTree : InTree blocks pindexPrev) (sound : checker.Sound blocks cache) :
    ∃ height after, checker.getStateSinceHeightFor blocks pindexPrev cache = some (height, after) ∧
      checker.Sound blocks after ∧
      (checker.stateAfter blocks pindexPrev = .DEFINED → height = 0) ∧
      (checker.stateAfter blocks pindexPrev ≠ .DEFINED → checker.StartsRun blocks pindexPrev height) := by
  obtain ⟨middle, got, soundMiddle⟩ := getStateFor_staged linked positive monotone staged inTree sound
  have special : ¬ (checker.beginTime = ALWAYS_ACTIVE ∨ checker.beginTime = NEVER_ACTIVE) := not_or.mpr staged
  by_cases first : checker.stateAfter blocks pindexPrev = .DEFINED
  · refine ⟨0, middle, ?_, soundMiddle, fun _ => rfl, fun later => absurd first later⟩
    simp only [getStateSinceHeightFor, special, if_false, got, bind, Option.bind_some, first, if_true]
  obtain ⟨last, aligned, ends, same⟩ := lastOfPeriod_spec linked positive inTree
  have state : checker.stateAfter blocks pindexPrev = checker.bip9State
      (checker.branchSignals blocks pindexPrev) (nextHeight blocks pindexPrev / checker.period.toNat) := rfl
  cases last with
  | none =>
    rw [ends.eq_zero positive] at state
    exact absurd state first
  | some hash =>
    obtain ⟨number, counted⟩ := endsPeriod_pos linked ends
    rw [counted] at ends same
    obtain ⟨height, after, looped, soundAfter, starts⟩ :=
      sinceLoop_spec linked positive monotone staged first ends
        (Nat.lt_of_succ_lt (walkTurns_enough linked positive ends)) counted.ge same
        (fun other low high => by rw [state, Nat.le_antisymm high (counted.le.trans low)])
        soundMiddle
    refine ⟨height, after, ?_, soundAfter, fun defined => absurd defined first, fun _ => starts⟩
    simp only [getStateSinceHeightFor, special, if_false, got, bind, Option.bind_some, first, aligned]
    exact looped

end

theorem answer_right {query : Query} (inTree : query.InTree blocks) (sound : checker.Sound blocks cache) :
    ∃ given after, checker.answer blocks cache query = some (given, after) ∧
      checker.Sound blocks after ∧ checker.Right blocks query given := by
  by_cases staged : checker.Staged
  · cases query with
    | stateFor pindexPrev =>
      obtain ⟨after, got, soundAfter⟩ := getStateFor_staged linked positive monotone staged inTree sound
      refine ⟨.state (checker.stateAfter blocks pindexPrev), after, ?_, soundAfter, ?_⟩
      · simp only [answer, got, bind, Option.bind_some]
      · rw [Right, deploymentState, if_neg staged.1, if_neg staged.2]
    | sinceHeightFor pindexPrev =>
      obtain ⟨height, after, got, soundAfter, first, later⟩ :=
        getStateSinceHeightFor_staged linked positive monotone staged inTree sound
      refine ⟨.height height, after, ?_, soundAfter, height, rfl, ?_, fun _ => later⟩
      · simp only [answer, got, bind, Option.bind_some]
      · rintro (fixed | defined)
        · exact absurd staged fixed
        · exact first defined
  · have special : checker.beginTime = ALWAYS_ACTIVE ∨ checker.beginTime = NEVER_ACTIVE := by
      by_contra neither
      exact staged (not_or.mp neither)
    cases query with
    | stateFor pindexPrev =>
      refine ⟨.state (checker.deploymentState blocks pindexPrev), cache, ?_, sound, rfl⟩
      rcases special with always | never
      · simp only [answer, getStateFor, deploymentState, always, if_true, bind, Option.bind_some]
      · have other : ¬ NEVER_ACTIVE = ALWAYS_ACTIVE := by decide
        simp only [answer, getStateFor, deploymentState, never, other, if_true, if_false, bind, Option.bind_some]
    | sinceHeightFor pindexPrev =>
      refine ⟨.height 0, cache, ?_, sound, 0, rfl, fun _ => rfl, fun held => absurd held staged⟩
      simp only [answer, getStateSinceHeightFor, special, if_true, bind, Option.bind_some]

theorem answers_right_from {queries : List Query}
    (inTree : ∀ query ∈ queries, query.InTree blocks) (sound : checker.Sound blocks cache) :
    ∃ given after, checker.answers blocks queries cache = some (given, after) ∧
      List.Forall₂ (checker.Right blocks) queries given := by
  induction queries generalizing cache with
  | nil => exact ⟨[], cache, rfl, .nil⟩
  | cons query queries ih =>
    obtain ⟨first, middle, answered, soundMiddle, right⟩ :=
      answer_right linked positive monotone (inTree query (.head _)) sound
    obtain ⟨rest, after, answeredRest, rights⟩ := ih (List.forall_mem_cons.mp inTree).2 soundMiddle
    refine ⟨first :: rest, after, ?_, .cons right rights⟩
    simp only [answers, answered, answeredRest, bind, Option.bind_some]

end

end ThresholdConditionChecker

/-- Queries on any blocks of the tree, in any order, get the answers of the recursion over periods. -/
theorem BIP9Deployment.answers_right (dep : BIP9Deployment) {blocks : BlockMap} (linked : Linked blocks)
    (monotone : MedianTimeMonotone blocks) (period : 0 < dep.checker.period)
    {queries : List ThresholdConditionChecker.Query} (inTree : ∀ query ∈ queries, query.InTree blocks) :
    ∃ given after, dep.checker.answers blocks queries ∅ = some (given, after) ∧
      List.Forall₂ (dep.checker.Right blocks) queries given := by
  have sound : dep.checker.Sound blocks ∅ := by
    intro pindexPrev state found
    cases found
  exact ThresholdConditionChecker.answers_right_from linked period monotone inTree sound

/-- Blocks that all signal for bit 0, an hour apart. -/
def signallingChain (size : Nat) : BlockMap :=
  straightChain (fun height => { nVersion := 0x20000001, nTime := 3600 * UInt32.ofNat height }) size

def quickDeployment : BIP9Deployment :=
  { bit := 0, nStartTime := 7200, nTimeout := 1000000, period := 2, threshold := 2 }

theorem medianTimeMonotone_signallingChain : MedianTimeMonotone (signallingChain 16) := by
  have step : ∀ height < 16, getMedianTimePast (signallingChain 16) (.ofNat (height - 1)) ≤
      getMedianTimePast (signallingChain 16) (.ofNat height) := by
    decide +kernel
  intro hash entry pprev found link
  obtain ⟨height, below, rfl, rfl⟩ := (lookup_straightChain (by decide)).mp found
  simp only [straightEntry, Option.ite_none_left_eq_some, Option.some_inj] at link
  obtain ⟨-, rfl⟩ := link
  exact step height below

/-- Both queries are answered on the way to activation. -/
theorem answers_right_signalling : ∃ given after, quickDeployment.checker.answers (signallingChain 16)
        [.stateFor (some (.ofNat 15)), .sinceHeightFor (some (.ofNat 12))] ∅ = some (given, after) ∧
      List.Forall₂ (quickDeployment.checker.Right (signallingChain 16))
        [.stateFor (some (.ofNat 15)), .sinceHeightFor (some (.ofNat 12))] given := by
  refine quickDeployment.answers_right (linked_straightChain (by decide))
    medianTimeMonotone_signallingChain (by decide) fun query member => ?_
  simp only [List.mem_cons, List.not_mem_nil, or_false] at member
  rcases member with rfl | rfl <;> exact inTree_of_lookup (lookup_straightChain_top (by decide) (by decide))

/-- A deployment that is always active has a state of its own at the genesis block. -/
theorem always_active_skips_DEFINED : 0 < ({ nStartTime := ALWAYS_ACTIVE } : BIP9Deployment).checker.period ∧
      ({ nStartTime := ALWAYS_ACTIVE } : BIP9Deployment).checker.getStateFor ∅ none ∅ = some (.ACTIVE, ∅) ∧
      ({ nStartTime := ALWAYS_ACTIVE } : BIP9Deployment).checker.stateAfter ∅ none = .DEFINED :=
  ⟨by decide, rfl, rfl⟩

end Sharecoin
