import Sharecoin.Wallet.Spend

/-! The four coin selection algorithms. `std::sort` and `std::priority_queue` leave the order of equal
groups open and the random context is arbitrary, so both are parameters that keep only what the library
promises. Amounts and weights are unbounded integers: their sums overflow nowhere in the pools this is
about. -/

set_option autoImplicit false

namespace Sharecoin.Wallet

open Lib

def CHANGE_LOWER : Int := 50000

def TOTAL_TRIES : Nat := 100000

/-! ## Groups and results -/

structure OutputGroup where
  outputs : List COutput := []
  value : Int := 0
  effectiveValue : Int := 0
  fee : Int := 0
  longTermFee : Int := 0
  subtractFeeOutputs : Bool := false
  weight : Int := 0

def OutputGroup.getSelectionAmount (group : OutputGroup) : Int :=
  if group.subtractFeeOutputs then group.value else group.effectiveValue

/-- Descending value, then ascending waste. -/
def descending (a b : OutputGroup) : Bool :=
  if a.getSelectionAmount = b.getSelectionAmount then
    decide (a.fee - a.longTermFee < b.fee - b.longTermFee)
  else decide (a.getSelectionAmount > b.getSelectionAmount)

/-- Descending value, then ascending weight. -/
def descendingEffvalWeight (a b : OutputGroup) : Bool :=
  if a.getSelectionAmount = b.getSelectionAmount then decide (a.weight < b.weight)
  else decide (a.getSelectionAmount > b.getSelectionAmount)

inductive SelectionAlgorithm where
  | BNB | KNAPSACK | SRD | CG
deriving DecidableEq

inductive SelectionError where
  /-- An error without a text. -/
  | noSolution
  | maxWeightExceeded
  /-- The exception for groups that share a coin. -/
  | sharedUtxos
  /-- A read past the end of the pool, or the top of an empty heap. -/
  | outOfRange
deriving DecidableEq

/-- A selection result with what the algorithms record about it. -/
structure Selection extends SelectionResult where
  algo : SelectionAlgorithm
  weight : Int := 0
  algoCompleted : Bool := true
  selectionsEvaluated : Nat := 0

namespace Selection

def start (target : Int) (algo : SelectionAlgorithm) : Selection :=
  { selectedInputs := [], target, useEffective := false, algo }

/-- `AddInput`. Inputs are a set ordered by outpoint; a coin that is there already is an error. -/
def addInput (result : Selection) (group : OutputGroup) : Except SelectionError Selection :=
  if ((result.selectedInputs ++ group.outputs).map (·.outpoint)).Nodup then
    .ok { result with
      selectedInputs := result.selectedInputs ++ group.outputs
      useEffective := !group.subtractFeeOutputs
      weight := result.weight + group.weight }
  else .error .sharedUtxos

def addInputs (result : Selection) : List OutputGroup → Except SelectionError Selection
  | [] => .ok result
  | group :: groups => do
    let result ← result.addInput group
    result.addInputs groups

def clear (result : Selection) : Selection := { result with selectedInputs := [], weight := 0 }

end Selection

/-! ## The library and the random context -/

structure StdLib where
  sort : (OutputGroup → OutputGroup → Bool) → List OutputGroup → List OutputGroup
  sort_perm : ∀ before groups, (sort before groups).Perm groups
  /-- `top` and `pop` of a `priority_queue` with `MinOutputGroupComparator`. -/
  heapPop : List OutputGroup → Option (OutputGroup × List OutputGroup)
  heapPop_nil : heapPop [] = none
  heapPop_cons : ∀ group groups, (heapPop (group :: groups)).isSome
  heapPop_perm : ∀ heap top rest, heapPop heap = some (top, rest) → heap.Perm (top :: rest)
  heapPop_least : ∀ heap top rest, heapPop heap = some (top, rest) →
    ∀ other ∈ rest, descendingEffvalWeight top other = false

structure FastRandomContext where
  shuffle : List OutputGroup → List OutputGroup
  shuffle_perm : ∀ groups, (shuffle groups).Perm groups
  randbool : Nat → Bool

/-! ## Branch and bound, and the coin grinder -/

/-- What both searches keep. Only the first one has a waste, only the second a best weight and amount. -/
structure SearchState where
  /-- Positions in the pool, the last selected one first. -/
  currSelection : List Nat := []
  bestSelection : List Nat := []
  currAmount : Int := 0
  currWeight : Int := 0
  currSelectionWaste : Int := 0
  bestWaste : Int := MAX_MONEY
  bestSelectionAmount : Int := MAX_MONEY
  bestSelectionWeight : Int
  maxTxWeightExceeded : Bool := false
  nextUtxo : Nat := 0
  currTry : Nat := 0

inductive Move where
  | explore
  | shift
  | cut
deriving DecidableEq

/-- The amounts after each group, and the total. -/
def lookahead : List OutputGroup → List Int × Int
  | [] => ([], 0)
  | group :: groups =>
    let (tail, totalAvailable) := lookahead groups
    (totalAvailable :: tail, totalAvailable + group.getSelectionAmount)

def INT_MAX : Int := 2 ^ 31 - 1

/-- The least weight after each group, and the least of all. -/
def minTailWeight : List OutputGroup → List Int × Int
  | [] => ([], INT_MAX)
  | group :: groups =>
    let (tail, minGroupWeight) := minTailWeight groups
    (minGroupWeight :: tail, min minGroupWeight group.weight)

namespace SearchState

def select (state : SearchState) (utxo : OutputGroup) : SearchState :=
  { state with
    currAmount := state.currAmount + utxo.getSelectionAmount
    currWeight := state.currWeight + utxo.weight
    currSelectionWaste := state.currSelectionWaste + (utxo.fee - utxo.longTermFee)
    currSelection := state.nextUtxo :: state.currSelection
    nextUtxo := state.nextUtxo + 1
    currTry := state.currTry + 1 }

def deselectLast (pool : List OutputGroup) (state : SearchState) : Except SelectionError SearchState :=
  match state.currSelection with
  | [] => .error .outOfRange
  | last :: rest =>
    match pool[last]? with
    | none => .error .outOfRange
    | some utxo =>
      .ok { state with
        currAmount := state.currAmount - utxo.getSelectionAmount
        currWeight := state.currWeight - utxo.weight
        currSelectionWaste := state.currSelectionWaste - (utxo.fee - utxo.longTermFee)
        currSelection := rest }

end SearchState

/-- Passes over groups with the amount of the one before. The flag asks for another shift, at the end of
the pool. -/
def skipClones (pool : List OutputGroup) : Nat → Nat → Except SelectionError (Nat × Bool)
  | 0, _ => .error .outOfRange
  | turns + 1, nextUtxo =>
    match pool[nextUtxo - 1]?, pool[nextUtxo]? with
    | some before, some here =>
      if before.getSelectionAmount = here.getSelectionAmount then
        if nextUtxo ≥ pool.length - 1 then .ok (nextUtxo, true)
        else skipClones pool turns (nextUtxo + 1)
      else .ok (nextUtxo, false)
    | _, _ => .error .outOfRange

/-- `while (should_shift)`. The flag is `is_done`. -/
def shiftLoop (pool : List OutputGroup) : Nat → SearchState → Except SelectionError (Bool × SearchState)
  | 0, _ => .error .outOfRange
  | turns + 1, state =>
    match state.currSelection with
    | [] => .ok (true, state)
    | last :: _ => do
      let state ← state.deselectLast pool
      let (nextUtxo, shouldShift) ← skipClones pool pool.length (last + 1)
      if shouldShift then shiftLoop pool turns { state with nextUtxo }
      else .ok (false, { state with nextUtxo })

/-- Leaves the last selected group out if the subtree is cut, then shifts if that is due. -/
def moveOn (pool : List OutputGroup) (move : Move) (state : SearchState) : Except SelectionError (Bool × SearchState) :=
  if move = .cut ∨ state.nextUtxo = pool.length then do
    let state ← state.deselectLast pool
    shiftLoop pool (state.currSelection.length + 1) state
  else if move = .shift then shiftLoop pool (state.currSelection.length + 1) state
  else .ok (false, state)

/-- The search with a given evaluation of the current selection. The flag says that the search was
exhausted. Every turn counts a try, so the turns never run out before the tries do. -/
def searchLoop (pool : List OutputGroup) (evaluate : SearchState → Except SelectionError (Move × SearchState)) :
    Nat → SearchState → Except SelectionError (Bool × SearchState)
  | 0, _ => .error .outOfRange
  | turns + 1, state =>
    match pool[state.nextUtxo]? with
    | none => .error .outOfRange
    | some utxo => do
      let (move, state) ← evaluate (state.select utxo)
      if state.currTry ≥ TOTAL_TRIES then .ok (false, state)
      else do
        let (isDone, state) ← moveOn pool move state
        if isDone then .ok (true, state) else searchLoop pool evaluate turns state

/-- The result of a search: the groups of the best selection. -/
def finishSearch (pool : List OutputGroup) (result : Selection) (algoCompleted : Bool)
    (state : SearchState) : Except SelectionError Selection :=
  if state.bestSelection.isEmpty then
    .error (if state.maxTxWeightExceeded then .maxWeightExceeded else .noSolution)
  else
    match state.bestSelection.reverse.mapM (pool[·]?) with
    | none => .error .outOfRange
    | some groups =>
      { result with algoCompleted, selectionsEvaluated := state.currTry }.addInputs groups

/-- How branch and bound judges the current selection. -/
def evaluateBnB (lookahead : List Int) (selectionTarget costOfChange maxSelectionWeight : Int)
    (isFeerateHigh : Bool) (state : SearchState) : Except SelectionError (Move × SearchState) :=
  match state.currSelection.head?.bind (lookahead[·]?) with
  | none => .error .outOfRange
  | some ahead =>
    if state.currAmount + ahead < selectionTarget then .ok (.cut, state)
    else if state.currWeight > maxSelectionWeight then
      .ok (.shift, { state with maxTxWeightExceeded := true })
    else if state.currAmount > selectionTarget + costOfChange then .ok (.shift, state)
    else if isFeerateHigh && decide (state.currSelectionWaste > state.bestWaste) then
      .ok (.shift, state)
    else if state.currAmount ≥ selectionTarget then
      let currWaste := state.currSelectionWaste + (state.currAmount - selectionTarget)
      if currWaste ≤ state.bestWaste then
        .ok (.shift, { state with bestSelection := state.currSelection, bestWaste := currWaste })
      else .ok (.shift, state)
    else .ok (.explore, state)

def selectCoinsBnB (std : StdLib) (utxoPool : List OutputGroup)
    (selectionTarget costOfChange maxSelectionWeight : Int) : Except SelectionError Selection :=
  let pool := std.sort descending utxoPool
  let (ahead, totalAvailable) := lookahead pool
  if totalAvailable < selectionTarget then .error .noSolution
  else
    match pool with
    | [] => .error .outOfRange
    | first :: _ => do
      let (completed, state) ← searchLoop pool (evaluateBnB ahead selectionTarget costOfChange maxSelectionWeight
          (decide (first.fee > first.longTermFee)))
        TOTAL_TRIES { bestSelectionWeight := maxSelectionWeight }
      finishSearch pool (.start selectionTarget .BNB) completed state

/-- CUT if the last selected group has the least weight of those left, else SHIFT. -/
def cutOrShift (utxo : OutputGroup) (minTail : Int) : Move :=
  if utxo.weight ≤ minTail then .cut else .shift

/-- How the coin grinder judges the current selection. The product is formed in `int64_t`. -/
def evaluateCoinGrinder (pool : List OutputGroup) (lookahead minTailWeight : List Int)
    (totalTarget maxSelectionWeight : Int) (state : SearchState) :
    Except SelectionError (Move × SearchState) :=
  match state.currSelection.head?.bind fun tail => (do
      some (← lookahead[tail]?, ← minTailWeight[tail]?, ← pool[tail]?)) with
  | none => .error .outOfRange
  | some (ahead, minTail, utxo) =>
    if state.currAmount + ahead < totalTarget then .ok (.cut, state)
    else if state.currWeight > state.bestSelectionWeight then
      .ok (cutOrShift utxo minTail,
        { state with
          maxTxWeightExceeded := state.maxTxWeightExceeded || decide (state.currWeight > maxSelectionWeight) })
    else if state.currAmount ≥ totalTarget then
      if state.currWeight < state.bestSelectionWeight ∨ state.currWeight = state.bestSelectionWeight ∧
            state.currAmount < state.bestSelectionAmount then
        .ok (.shift,
          { state with
            bestSelection := state.currSelection
            bestSelectionWeight := state.currWeight
            bestSelectionAmount := state.currAmount })
      else .ok (.shift, state)
    else if !state.bestSelection.isEmpty && decide
        (wrap64 (state.currWeight + minTail * (totalTarget - state.currAmount + utxo.getSelectionAmount - 1).tdiv
              utxo.getSelectionAmount) > state.bestSelectionWeight) then
      .ok (cutOrShift utxo minTail, state)
    else .ok (.explore, state)

def coinGrinder (std : StdLib) (utxoPool : List OutputGroup)
    (selectionTarget changeTarget maxSelectionWeight : Int) : Except SelectionError Selection :=
  let pool := std.sort descendingEffvalWeight utxoPool
  let (ahead, totalAvailable) := lookahead pool
  let totalTarget := selectionTarget + changeTarget
  if totalAvailable < totalTarget then .error .noSolution
  else do
    let (completed, state) ← searchLoop pool
      (evaluateCoinGrinder pool ahead (minTailWeight pool).1 totalTarget maxSelectionWeight)
      TOTAL_TRIES { bestSelectionWeight := maxSelectionWeight }
    finishSearch pool (.start selectionTarget .CG) completed state

/-! ## Single random draw -/

structure SrdState where
  heap : List OutputGroup := []
  selectedEffValue : Int := 0
  weight : Int := 0
  maxTxWeightExceeded : Bool := false

/-- Removes the least valuable groups until the weight fits or none is left. -/
def dropLeast (std : StdLib) (maxSelectionWeight : Int) : Nat → SrdState → Except SelectionError SrdState
  | 0, _ => .error .outOfRange
  | turns + 1, state =>
    match std.heapPop state.heap with
    | none => .error .outOfRange
    | some (toRemove, heap) =>
      let state : SrdState :=
        { state with
          heap
          selectedEffValue := state.selectedEffValue - toRemove.getSelectionAmount
          weight := state.weight - toRemove.weight }
      if !heap.isEmpty && decide (state.weight > maxSelectionWeight) then
        dropLeast std maxSelectionWeight turns state
      else .ok state

def limitWeight (std : StdLib) (maxSelectionWeight : Int) (state : SrdState) : Except SelectionError SrdState :=
  if state.weight > maxSelectionWeight then
    dropLeast std maxSelectionWeight state.heap.length { state with maxTxWeightExceeded := true }
  else .ok state

/-- `while (!heap.empty())`: the heap's groups become inputs. -/
def drainHeap (std : StdLib) : Nat → List OutputGroup → Selection → Except SelectionError Selection
  | 0, _, result => .ok result
  | turns + 1, heap, result =>
    match std.heapPop heap with
    | none => .ok result
    | some (top, rest) => do
      let result ← result.addInput top
      drainHeap std turns rest result

def srdLoop (std : StdLib) (targetValue maxSelectionWeight : Int) (result : Selection) :
    List OutputGroup → SrdState → Except SelectionError Selection
  | [], state => .error (if state.maxTxWeightExceeded then .maxWeightExceeded else .noSolution)
  | group :: groups, state => do
    let state ← limitWeight std maxSelectionWeight
      { state with
        heap := group :: state.heap
        selectedEffValue := state.selectedEffValue + group.getSelectionAmount
        weight := state.weight + group.weight }
    if state.selectedEffValue ≥ targetValue then drainHeap std state.heap.length state.heap result
    else srdLoop std targetValue maxSelectionWeight result groups state

def selectCoinsSRD (std : StdLib) (rng : FastRandomContext) (utxoPool : List OutputGroup)
    (targetValue changeFee maxSelectionWeight : Int) : Except SelectionError Selection :=
  srdLoop std (targetValue + (CHANGE_LOWER + changeFee)) maxSelectionWeight (.start targetValue .SRD)
    (rng.shuffle utxoPool) {}

/-! ## Knapsack -/

structure SubsetState where
  vfIncluded : List Bool := []
  nTotal : Int := 0
  selectedCoinsWeight : Int := 0
  fReachedTarget : Bool := false
  vfBest : List Bool
  nBest : Int
  /-- Bits taken from the random context so far. -/
  drawn : Nat

/-- Whether a pass takes a group: by a random bit, then whatever was left out. -/
def takesGroup (rng : FastRandomContext) (nPass i : Nat) (state : SubsetState) : Bool × SubsetState :=
  if nPass = 0 then (rng.randbool state.drawn, { state with drawn := state.drawn + 1 })
  else (!state.vfIncluded.getD i false, state)

/-- Takes a group, notes a subset that reaches the target, and leaves the group out again then. -/
def takeGroup (nTargetValue maxSelectionWeight : Int) (i : Nat) (group : OutputGroup)
    (state : SubsetState) : SubsetState :=
  let nTotal := state.nTotal + group.getSelectionAmount
  let selectedCoinsWeight := state.selectedCoinsWeight + group.weight
  let vfIncluded := state.vfIncluded.set i true
  if nTotal ≥ nTargetValue ∧ selectedCoinsWeight ≤ maxSelectionWeight then
    { state with
      fReachedTarget := true
      vfBest := if nTotal < state.nBest then vfIncluded else state.vfBest
      nBest := if nTotal < state.nBest then nTotal else state.nBest
      vfIncluded := vfIncluded.set i false }
  else { state with nTotal, selectedCoinsWeight, vfIncluded }

def passStep (rng : FastRandomContext) (groups : List OutputGroup)
    (nTargetValue maxSelectionWeight : Int) (nPass : Nat) (state : SubsetState) (i : Nat) : SubsetState :=
  match groups[i]?, takesGroup rng nPass i state with
  | some group, (true, state) => takeGroup nTargetValue maxSelectionWeight i group state
  | _, (_, state) => state

def subsetPass (rng : FastRandomContext) (groups : List OutputGroup)
    (nTargetValue maxSelectionWeight : Int) (nPass : Nat) (state : SubsetState) : SubsetState :=
  (List.range groups.length).foldl (passStep rng groups nTargetValue maxSelectionWeight nPass) state

def subsetRep (rng : FastRandomContext) (groups : List OutputGroup)
    (nTargetValue maxSelectionWeight : Int) (state : SubsetState) : SubsetState :=
  let state := subsetPass rng groups nTargetValue maxSelectionWeight 0
    { state with
      vfIncluded := List.replicate groups.length false
      nTotal := 0
      selectedCoinsWeight := 0
      fReachedTarget := false }
  if state.fReachedTarget then state
  else subsetPass rng groups nTargetValue maxSelectionWeight 1 state

def subsetLoop (rng : FastRandomContext) (groups : List OutputGroup)
    (nTargetValue maxSelectionWeight : Int) : Nat → SubsetState → SubsetState
  | 0, state => state
  | iterations + 1, state =>
    if state.nBest = nTargetValue then state
    else
      subsetLoop rng groups nTargetValue maxSelectionWeight iterations
        (subsetRep rng groups nTargetValue maxSelectionWeight state)

def approximateBestSubset (rng : FastRandomContext) (drawn : Nat) (groups : List OutputGroup)
    (nTotalLower nTargetValue maxSelectionWeight : Int) : SubsetState :=
  subsetLoop rng groups nTargetValue maxSelectionWeight 1000
    { vfBest := List.replicate groups.length true, nBest := nTotalLower, drawn }

structure KnapsackGroups where
  maxWeightExceeded : Bool := false
  lowestLarger : Option OutputGroup := none
  applicableGroups : List OutputGroup := []
  nTotalLower : Int := 0

/-- Sorts the groups by their amount. A group of just the target ends the search. -/
def knapsackGroups (nTargetValue changeTarget maxSelectionWeight : Int) :
    List OutputGroup → KnapsackGroups → OutputGroup ⊕ KnapsackGroups
  | [], found => .inr found
  | group :: groups, found =>
    if group.weight > maxSelectionWeight then
      knapsackGroups nTargetValue changeTarget maxSelectionWeight groups
        { found with maxWeightExceeded := true }
    else if group.getSelectionAmount = nTargetValue then .inl group
    else if group.getSelectionAmount < nTargetValue + changeTarget then
      knapsackGroups nTargetValue changeTarget maxSelectionWeight groups
        { found with
          applicableGroups := found.applicableGroups ++ [group]
          nTotalLower := found.nTotalLower + group.getSelectionAmount }
    else if found.lowestLarger.all fun lowest =>
        decide (group.getSelectionAmount < lowest.getSelectionAmount) then
      knapsackGroups nTargetValue changeTarget maxSelectionWeight groups
        { found with lowestLarger := some group }
    else knapsackGroups nTargetValue changeTarget maxSelectionWeight groups found

def maskedGroups : List OutputGroup → List Bool → List OutputGroup
  | group :: groups, true :: mask => group :: maskedGroups groups mask
  | _ :: groups, false :: mask => maskedGroups groups mask
  | _, _ => []

/-- The best subset, for the target or, if that is not met exactly, with change. -/
def bestSubset (rng : FastRandomContext) (groups : List OutputGroup)
    (nTotalLower nTargetValue changeTarget maxSelectionWeight : Int) : SubsetState :=
  let state := approximateBestSubset rng 0 groups nTotalLower nTargetValue maxSelectionWeight
  if state.nBest ≠ nTargetValue ∧ nTotalLower ≥ nTargetValue + changeTarget then
    approximateBestSubset rng state.drawn groups nTotalLower (nTargetValue + changeTarget) maxSelectionWeight
  else state

/-- The larger group if it is preferred, or if the subset is too heavy. -/
def subsetOrLarger (nTargetValue changeTarget maxSelectionWeight : Int) (result : Selection)
    (groups : List OutputGroup) (lowestLarger : Option OutputGroup) (best : SubsetState) :
    Except SelectionError Selection :=
  match lowestLarger with
  | some larger =>
    if (best.nBest ≠ nTargetValue ∧ best.nBest < nTargetValue + changeTarget) ∨
        larger.getSelectionAmount ≤ best.nBest then
      result.addInput larger
    else do
      let chosen ← result.addInputs (maskedGroups groups best.vfBest)
      if chosen.weight > maxSelectionWeight then chosen.clear.addInput larger else .ok chosen
  | none => do
    let chosen ← result.addInputs (maskedGroups groups best.vfBest)
    if chosen.weight > maxSelectionWeight then .error .maxWeightExceeded else .ok chosen

/-- The stochastic approximation, once neither one group nor all of them meet the target. -/
def knapsackSubset (std : StdLib) (rng : FastRandomContext)
    (nTargetValue changeTarget maxSelectionWeight : Int) (result : Selection) (found : KnapsackGroups) :
    Except SelectionError Selection :=
  if found.nTotalLower < nTargetValue then
    match found.lowestLarger with
    | none => .error (if found.maxWeightExceeded then .maxWeightExceeded else .noSolution)
    | some larger => result.addInput larger
  else
    let applicableGroups := std.sort descending found.applicableGroups
    subsetOrLarger nTargetValue changeTarget maxSelectionWeight result applicableGroups found.lowestLarger
      (bestSubset rng applicableGroups found.nTotalLower nTargetValue changeTarget maxSelectionWeight)

def knapsackSolver (std : StdLib) (rng : FastRandomContext) (groups : List OutputGroup)
    (nTargetValue changeTarget maxSelectionWeight : Int) : Except SelectionError Selection :=
  match knapsackGroups nTargetValue changeTarget maxSelectionWeight (rng.shuffle groups) {} with
  | .inl group => (Selection.start nTargetValue .KNAPSACK).addInput group
  | .inr found =>
    if found.nTotalLower = nTargetValue then do
      let all ← (Selection.start nTargetValue .KNAPSACK).addInputs found.applicableGroups
      if all.weight ≤ maxSelectionWeight then .ok all
      else
        knapsackSubset std rng nTargetValue changeTarget maxSelectionWeight all.clear
          { found with maxWeightExceeded := true }
    else
      knapsackSubset std rng nTargetValue changeTarget maxSelectionWeight (.start nTargetValue .KNAPSACK) found

/-! ## One call -/

/-- A call of one of the algorithms, with the argument only it has. -/
inductive SelectionCall where
  | bnb (costOfChange : Int)
  | coinGrinder (changeTarget : Int)
  | srd (changeFee : Int)
  | knapsack (changeTarget : Int)

def SelectionCall.run (std : StdLib) (rng : FastRandomContext) (utxoPool : List OutputGroup)
    (target maxSelectionWeight : Int) : SelectionCall → Except SelectionError Selection
  | .bnb costOfChange => selectCoinsBnB std utxoPool target costOfChange maxSelectionWeight
  | .coinGrinder changeTarget => Wallet.coinGrinder std utxoPool target changeTarget maxSelectionWeight
  | .srd changeFee => selectCoinsSRD std rng utxoPool target changeFee maxSelectionWeight
  | .knapsack changeTarget => knapsackSolver std rng utxoPool target changeTarget maxSelectionWeight

end Sharecoin.Wallet
