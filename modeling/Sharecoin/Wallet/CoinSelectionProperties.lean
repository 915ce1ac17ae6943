import Sharecoin.Lib.Program
import Sharecoin.Wallet.CoinSelection
import Mathlib.Algebra.BigOperators.Group.List.Basic
import Mathlib.Data.List.MinMax
import Mathlib.Data.List.Perm.Subperm
import Mathlib.Data.List.Sort
import Mathlib.Data.Prod.Lex

/-! Every selection that one of the algorithms returns is made of distinct groups of the pool, weighs no
more than allowed and reaches what the algorithm asks for. The two searches share their invariant: the
running sums are those of the current selection, and the best selection was accepted. -/

set_option autoImplicit false

namespace Sharecoin.Wallet

open Lib

/-! ## Sums over groups -/

def totalAmount (groups : List OutputGroup) : Int := (groups.map (·.getSelectionAmount)).sum

def totalWeight (groups : List OutputGroup) : Int := (groups.map (·.weight)).sum

@[simp] theorem totalAmount_nil : totalAmount [] = 0 := rfl

@[simp] theorem totalWeight_nil : totalWeight [] = 0 := rfl

@[simp] theorem totalAmount_cons (group : OutputGroup) (groups : List OutputGroup) :
    totalAmount (group :: groups) = group.getSelectionAmount + totalAmount groups := by
  simp [totalAmount]

@[simp] theorem totalWeight_cons (group : OutputGroup) (groups : List OutputGroup) :
    totalWeight (group :: groups) = group.weight + totalWeight groups := by
  simp [totalWeight]

variable {left right : List OutputGroup}

theorem totalAmount_perm (perm : left.Perm right) :
    totalAmount left = totalAmount right := (perm.map _).sum_eq

theorem totalWeight_perm (perm : left.Perm right) :
    totalWeight left = totalWeight right := (perm.map _).sum_eq

/-- The result holds the coins and the weight of the groups. -/
structure Selection.Holds (result : Selection) (groups : List OutputGroup) : Prop where
  inputs : result.selectedInputs = groups.flatMap (·.outputs)
  weight : result.weight = totalWeight groups

theorem Selection.holds_start (target : Int) (algo : SelectionAlgorithm) :
    (Selection.start target algo).Holds [] := ⟨rfl, rfl⟩

variable {result after : Selection} {group : OutputGroup} {groups more pool : List OutputGroup} {limit : Int}
  {accepts : Int → Prop}

theorem Selection.Holds.clear : result.clear.Holds [] := ⟨rfl, rfl⟩

theorem Selection.Holds.addInput (holds : result.Holds groups)
    (added : result.addInput group = .ok after) : after.Holds (groups ++ [group]) := by
  unfold Selection.addInput at added
  split at added
  · cases added
    exact ⟨by simp [holds.inputs], by simp [totalWeight, holds.weight]⟩
  · cases added

theorem Selection.Holds.addInputs (holds : result.Holds groups)
    (added : result.addInputs more = .ok after) : after.Holds (groups ++ more) := by
  induction more generalizing result groups with
  | nil =>
    cases added
    rwa [List.append_nil]
  | cons group more ih =>
    obtain ⟨middle, first, rest⟩ := bind_eq_ok_iff.mp added
    have held := ih (holds.addInput first) rest
    rwa [List.append_assoc] at held

theorem Selection.algoCompleted_addInputs (added : result.addInputs more = .ok after) :
    after.algoCompleted = result.algoCompleted := by
  induction more generalizing result with
  | nil =>
    cases added
    rfl
  | cons group more ih =>
    obtain ⟨middle, first, rest⟩ := bind_eq_ok_iff.mp added
    unfold Selection.addInput at first
    split at first <;> cases first
    have kept := ih rest
    exact kept

/-! ## What a result has to be -/

/-- Distinct groups of the pool within the weight, whose amount the algorithm accepts. -/
structure Adequate (pool : List OutputGroup) (limit : Int) (accepts : Int → Prop)
    (result : Selection) (groups : List OutputGroup) : Prop where
  distinct : groups.Subperm pool
  holds : result.Holds groups
  light : totalWeight groups ≤ limit
  accepted : accepts (totalAmount groups)

theorem Adequate.of_perm {other : List OutputGroup} (adequate : Adequate pool limit accepts result groups)
    (perm : pool.Perm other) :
    Adequate other limit accepts result groups :=
  { adequate with distinct := adequate.distinct.trans perm.subperm }

/-! ## The searches -/

variable {target : Int} {turns : Nat} {completed : Bool}

section Search

variable (pool)

def amountAt (i : Nat) : Int := (pool[i]?.map (·.getSelectionAmount)).getD 0

def weightAt (i : Nat) : Int := (pool[i]?.map (·.weight)).getD 0

/-- Positions that increase from the last to the first, within the pool. -/
structure Positions (selection : List Nat) : Prop where
  inPool : ∀ i ∈ selection, i < pool.length
  decreasing : selection.Pairwise (· > ·)

/-- The running sums are those of the current selection, which lies before the next group. -/
structure Selected (state : SearchState) : Prop where
  positions : Positions pool state.currSelection
  below : ∀ i ∈ state.currSelection, i < state.nextUtxo
  amount : state.currAmount = (state.currSelection.map (amountAt pool)).sum
  weight : state.currWeight = (state.currSelection.map (weightAt pool)).sum

/-- The best selection, if there is one, was accepted and is light enough. -/
structure BestFits (limit : Int) (accepts : Int → Prop) (state : SearchState) : Prop where
  positions : Positions pool state.bestSelection
  light : state.bestSelection ≠ [] → (state.bestSelection.map (weightAt pool)).sum ≤ limit
  accepted : state.bestSelection ≠ [] → accepts (state.bestSelection.map (amountAt pool)).sum
  bounded : state.bestSelectionWeight ≤ limit

/-- An evaluation keeps the invariants. -/
def Judges (limit : Int) (accepts : Int → Prop)
    (evaluate : SearchState → Except SelectionError (Move × SearchState)) : Prop :=
  ∀ state move after, evaluate state = .ok (move, after) → Selected pool state →
    BestFits pool limit accepts state →
    Selected pool after ∧ BestFits pool limit accepts after

variable {pool} {state after : SearchState}
  {evaluate : SearchState → Except SelectionError (Move × SearchState)} {isDone : Bool}

theorem Selected.select (selected : Selected pool state) {utxo : OutputGroup}
    (found : pool[state.nextUtxo]? = some utxo) : Selected pool (state.select utxo) := by
  have inRange : state.nextUtxo < pool.length := (List.getElem?_eq_some_iff.mp found).1
  have amount : amountAt pool state.nextUtxo = utxo.getSelectionAmount := by simp [amountAt, found]
  have weight : weightAt pool state.nextUtxo = utxo.weight := by simp [weightAt, found]
  refine ⟨⟨List.forall_mem_cons.mpr ⟨inRange, selected.positions.inPool⟩,
      List.pairwise_cons.mpr ⟨selected.below, selected.positions.decreasing⟩⟩, List.forall_mem_cons.mpr
    ⟨Nat.lt_succ_self _, fun i member => Nat.lt_succ_of_lt (selected.below i member)⟩, ?_, ?_⟩
  · simp only [SearchState.select, List.map_cons, List.sum_cons, amount, selected.amount]
    exact add_comm _ _
  · simp only [SearchState.select, List.map_cons, List.sum_cons, weight, selected.weight]
    exact add_comm _ _

theorem skipClones_le {nextUtxo : Nat} {skipped : Nat × Bool}
    (result : skipClones pool turns nextUtxo = .ok skipped) : nextUtxo ≤ skipped.1 := by
  induction turns generalizing nextUtxo with
  | zero => cases result
  | succ turns ih =>
    unfold skipClones at result
    split at result
    · split at result
      · split at result
        · cases result
          exact le_rfl
        · exact (Nat.le_succ nextUtxo).trans (ih result)
      · cases result
        exact le_rfl
    · cases result

section

variable (selected : Selected pool state) (fits : BestFits pool limit accepts state)

include selected fits

theorem deselectLast_keeps (deselected : state.deselectLast pool = .ok after) :
    Selected pool after ∧ BestFits pool limit accepts after ∧
      ∃ last, state.currSelection = last :: after.currSelection ∧ ∀ i ∈ after.currSelection, i < last := by
  obtain ⟨⟨inPool, decreasing⟩, below, amounts, weights⟩ := selected
  unfold SearchState.deselectLast at deselected
  split at deselected
  · cases deselected
  next last rest picked =>
    split at deselected
    · cases deselected
    next utxo found =>
      cases deselected
      rw [picked] at inPool decreasing below amounts weights
      simp only [List.map_cons, List.sum_cons, amountAt, weightAt, found, Option.map_some, Option.getD_some]
        at amounts weights
      obtain ⟨smaller, decreasing⟩ := List.pairwise_cons.mp decreasing
      refine ⟨⟨⟨(List.forall_mem_cons.mp inPool).2, decreasing⟩, (List.forall_mem_cons.mp below).2, ?_, ?_⟩,
        { fits with }, last, picked, smaller⟩
      · rw [amounts]
        exact add_sub_cancel_left _ _
      · rw [weights]
        exact add_sub_cancel_left _ _

theorem shiftLoop_keeps (shifted : shiftLoop pool turns state = .ok (isDone, after)) :
    Selected pool after ∧ BestFits pool limit accepts after := by
  induction turns generalizing state with
  | zero => cases shifted
  | succ turns ih =>
    unfold shiftLoop at shifted
    split at shifted
    · cases shifted
      exact ⟨selected, fits⟩
    next last rest picked =>
      obtain ⟨middle, deselected, shifted⟩ := bind_eq_ok_iff.mp shifted
      obtain ⟨⟨nextUtxo, shouldShift⟩, skipped, shifted⟩ := bind_eq_ok_iff.mp shifted
      obtain ⟨selectedMiddle, fitsMiddle, last', picked', smaller⟩ := deselectLast_keeps selected fits deselected
      obtain ⟨rfl, -⟩ := List.cons.inj (picked.symm.trans picked')
      have beyond (i : Nat) (member : i ∈ middle.currSelection) : i < nextUtxo :=
        (smaller i member).trans (skipClones_le skipped)
      have kept : Selected pool { middle with nextUtxo } := { selectedMiddle with below := beyond }
      have keptFits : BestFits pool limit accepts { middle with nextUtxo } := { fitsMiddle with }
      cases shouldShift with
      | true => exact ih kept keptFits shifted
      | false =>
        cases shifted
        exact ⟨kept, keptFits⟩

theorem moveOn_keeps {move : Move} (moved : moveOn pool move state = .ok (isDone, after)) :
    Selected pool after ∧ BestFits pool limit accepts after := by
  unfold moveOn at moved
  split at moved
  · obtain ⟨middle, deselected, shifted⟩ := bind_eq_ok_iff.mp moved
    obtain ⟨selectedMiddle, fitsMiddle, -⟩ := deselectLast_keeps selected fits deselected
    exact shiftLoop_keeps selectedMiddle fitsMiddle shifted
  split at moved
  · exact shiftLoop_keeps selected fits moved
  · cases moved
    exact ⟨selected, fits⟩

theorem searchLoop_keeps (judges : Judges pool limit accepts evaluate)
    (searched : searchLoop pool evaluate turns state = .ok (completed, after)) : BestFits pool limit accepts after := by
  induction turns generalizing state with
  | zero => cases searched
  | succ turns ih =>
    unfold searchLoop at searched
    split at searched
    · cases searched
    next utxo found =>
      obtain ⟨⟨move, judged⟩, evaluated, searched⟩ := bind_eq_ok_iff.mp searched
      obtain ⟨selectedJudged, fitsJudged⟩ := judges _ move judged evaluated (selected.select found) { fits with }
      simp only at searched
      split at searched
      · cases searched
        exact fitsJudged
      obtain ⟨⟨isDone, moved⟩, movedOn, searched⟩ := bind_eq_ok_iff.mp searched
      obtain ⟨selectedMoved, fitsMoved⟩ := moveOn_keeps selectedJudged fitsJudged movedOn
      cases isDone with
      | true =>
        cases searched
        exact fitsMoved
      | false => exact ih selectedMoved fitsMoved searched

end

/-- The groups at increasing positions are part of the pool in its order, and what is added up over
them is added up over the positions. -/
theorem read_positions {positions : List Nat} {first : Nat} (increasing : positions.Pairwise (· < ·))
    (inPool : ∀ i ∈ positions, first ≤ i ∧ i < pool.length) :
    ∃ groups, positions.mapM (pool[·]?) = some groups ∧ groups.Sublist (pool.drop first) ∧
      ∀ measure : OutputGroup → Int,
        (groups.map measure).sum = (positions.map fun i => (pool[i]?.map measure).getD 0).sum := by
  induction positions generalizing first with
  | nil => exact ⟨[], rfl, List.nil_sublist _, fun _ => rfl⟩
  | cons position positions ih =>
    obtain ⟨less, increasing⟩ := List.pairwise_cons.mp increasing
    obtain ⟨⟨later, inRange⟩, inPool⟩ := List.forall_mem_cons.mp inPool
    obtain ⟨rest, read, sublist, sums⟩ := ih increasing fun i member => ⟨less i member, (inPool i member).2⟩
    have here := List.getElem?_eq_getElem inRange
    refine ⟨pool[position] :: rest, ?_, ?_, fun measure => ?_⟩
    · rw [List.mapM_cons, here, read]
      rfl
    · refine .trans ?_ (List.drop_sublist_drop_left pool later)
      rw [List.drop_eq_getElem_cons inRange]
      exact sublist.cons_cons _
    · rw [List.map_cons, List.sum_cons, sums, List.map_cons, List.sum_cons, here]
      rfl

variable {algo : SelectionAlgorithm}

theorem finishSearch_adequate (fits : BestFits pool limit accepts state)
    (finished : finishSearch pool (.start target algo) completed state = .ok result) :
    state.bestSelection ≠ [] ∧ result.algoCompleted = completed ∧ ∃ groups, Adequate pool limit accepts result groups ∧
      state.bestSelection.reverse.mapM (pool[·]?) = some groups := by
  unfold finishSearch at finished
  split at finished
  · cases finished
  next some_best =>
  have nonempty : state.bestSelection ≠ [] := by simpa using some_best
  obtain ⟨groups, read, sublist, sums⟩ := read_positions (List.pairwise_reverse.mpr fits.positions.decreasing)
    fun i member => ⟨Nat.zero_le i, fits.positions.inPool i (List.mem_reverse.mp member)⟩
  simp only [List.map_reverse, List.sum_reverse] at sums
  rw [read] at finished
  have begun : Selection.Holds { Selection.start target algo with
      algoCompleted := completed, selectionsEvaluated := state.currTry } [] := ⟨rfl, rfl⟩
  refine ⟨nonempty, Selection.algoCompleted_addInputs finished, groups,
    ⟨sublist.subperm, begun.addInputs finished, ?_, ?_⟩, read⟩
  · exact (sums _).trans_le (fits.light nonempty)
  · rw [totalAmount, sums]
    exact fits.accepted nonempty

theorem search_adequate (judges : Judges pool limit accepts evaluate)
    (searched : searchLoop pool evaluate TOTAL_TRIES { bestSelectionWeight := limit } =
      .ok (completed, after))
    (finished : finishSearch pool (.start target algo) completed after = .ok result) :
    ∃ groups, Adequate pool limit accepts result groups := by
  have nowhere : Positions pool [] := ⟨List.forall_mem_nil _, .nil⟩
  obtain ⟨-, -, groups, adequate, -⟩ := finishSearch_adequate (searchLoop_keeps
    ⟨nowhere, List.forall_mem_nil _, rfl, rfl⟩
    ⟨nowhere, fun absent => absurd rfl absent, fun absent => absurd rfl absent, le_rfl⟩ judges searched) finished
  exact ⟨groups, adequate⟩

theorem judges_evaluateBnB (ahead : List Int) (selectionTarget costOfChange : Int) (isFeerateHigh : Bool) :
    Judges pool limit (fun amount => selectionTarget ≤ amount ∧ amount ≤ selectionTarget + costOfChange)
      (evaluateBnB ahead selectionTarget costOfChange limit isFeerateHigh) := by
  intro state move after evaluated selected fits
  unfold evaluateBnB at evaluated
  split at evaluated
  · cases evaluated
  split at evaluated
  · cases evaluated
    exact ⟨selected, fits⟩
  split at evaluated
  · cases evaluated
    exact ⟨{ selected with }, { fits with }⟩
  rename_i light
  split at evaluated
  · cases evaluated
    exact ⟨selected, fits⟩
  rename_i within
  split at evaluated
  · cases evaluated
    exact ⟨selected, fits⟩
  split at evaluated
  · rename_i reached
    simp only at evaluated
    split at evaluated
    · -- the current selection becomes the best one
      cases evaluated
      refine ⟨{ selected with }, selected.positions, fun _ => ?_, fun _ => ?_, fits.bounded⟩
      · rw [← selected.weight]
        omega
      · rw [← selected.amount]
        omega
    · cases evaluated
      exact ⟨selected, fits⟩
  · cases evaluated
    exact ⟨selected, fits⟩

theorem judges_evaluateCoinGrinder (ahead minTail : List Int) (totalTarget : Int) :
    Judges pool limit (totalTarget ≤ ·)
      (evaluateCoinGrinder pool ahead minTail totalTarget limit) := by
  intro state move after evaluated selected fits
  unfold evaluateCoinGrinder at evaluated
  split at evaluated
  · cases evaluated
  split at evaluated
  · cases evaluated
    exact ⟨selected, fits⟩
  split at evaluated
  · cases evaluated
    exact ⟨{ selected with }, { fits with }⟩
  rename_i lighter
  split at evaluated
  · rename_i reached
    split at evaluated
    · -- a new lowest weight is at most the one before, and so at most the limit
      cases evaluated
      have bounded := fits.bounded
      refine ⟨{ selected with }, selected.positions, fun _ => ?_, fun _ => ?_, ?_⟩
      · rw [← selected.weight]
        omega
      · rw [← selected.amount]
        exact reached
      · simp only
        omega
    · cases evaluated
      exact ⟨selected, fits⟩
  · split at evaluated <;> cases evaluated <;> exact ⟨selected, fits⟩

end Search

variable {utxoPool : List OutputGroup} {std : StdLib}

theorem selectCoinsBnB_adequate {selectionTarget costOfChange : Int}
    (selected : selectCoinsBnB std utxoPool selectionTarget costOfChange limit = .ok result) :
    ∃ groups, Adequate utxoPool limit
      (fun amount => selectionTarget ≤ amount ∧ amount ≤ selectionTarget + costOfChange) result groups := by
  have perm := std.sort_perm descending utxoPool
  unfold selectCoinsBnB at selected
  generalize std.sort descending utxoPool = pool at selected perm
  simp only at selected
  split at selected
  · cases selected
  cases pool with
  | nil => cases selected
  | cons first rest =>
    obtain ⟨⟨completed, state⟩, searched, finished⟩ := bind_eq_ok_iff.mp selected
    obtain ⟨groups, adequate⟩ := search_adequate (judges_evaluateBnB _ _ _ _) searched finished
    exact ⟨groups, adequate.of_perm perm⟩

variable {changeTarget : Int}

theorem coinGrinder_adequate {selectionTarget : Int}
    (selected : coinGrinder std utxoPool selectionTarget changeTarget limit = .ok result) :
    ∃ groups, Adequate utxoPool limit
      (selectionTarget + changeTarget ≤ ·) result groups := by
  have perm := std.sort_perm descendingEffvalWeight utxoPool
  unfold coinGrinder at selected
  generalize std.sort descendingEffvalWeight utxoPool = pool at selected perm
  simp only at selected
  split at selected
  · cases selected
  · obtain ⟨⟨completed, state⟩, searched, finished⟩ := bind_eq_ok_iff.mp selected
    obtain ⟨groups, adequate⟩ := search_adequate (judges_evaluateCoinGrinder _ _ _) searched finished
    exact ⟨groups, adequate.of_perm perm⟩

/-! ## Single random draw -/

section Srd

variable {state after : SrdState}

structure SrdState.Sums (state : SrdState) : Prop where
  value : state.selectedEffValue = totalAmount state.heap
  weight : state.weight = totalWeight state.heap

theorem dropLeast_spec (sums : state.Sums) (dropped : dropLeast std limit turns state = .ok after) :
    after.Sums ∧ after.heap.Subperm state.heap ∧ (after.heap = [] ∨ after.weight ≤ limit) := by
  induction turns generalizing state with
  | zero => cases dropped
  | succ turns ih =>
    unfold dropLeast at dropped
    split at dropped
    · cases dropped
    next toRemove heap popped =>
      have perm := std.heapPop_perm state.heap toRemove heap popped
      dsimp only at dropped
      have kept : SrdState.Sums { state with
          heap := heap
          selectedEffValue := state.selectedEffValue - toRemove.getSelectionAmount
          weight := state.weight - toRemove.weight } := by
        have values := totalAmount_perm perm
        have weights := totalWeight_perm perm
        rw [totalAmount_cons, ← sums.value] at values
        rw [totalWeight_cons, ← sums.weight] at weights
        exact ⟨by simp only; omega, by simp only; omega⟩
      have smaller : heap.Subperm state.heap := (List.sublist_cons_self toRemove heap).subperm.trans perm.symm.subperm
      split at dropped
      · obtain ⟨sumsAfter, subperm, light⟩ := ih kept dropped
        exact ⟨sumsAfter, subperm.trans smaller, light⟩
      rename_i stops
      cases dropped
      refine ⟨kept, smaller, ?_⟩
      simp only [Bool.and_eq_true, Bool.not_eq_eq_eq_not, Bool.not_true, List.isEmpty_eq_false_iff,
        decide_eq_true_eq, not_and, not_lt] at stops
      by_cases empty : heap = []
      · exact .inl empty
      · exact .inr (stops empty)

theorem limitWeight_spec (sums : state.Sums) (limited : limitWeight std limit state = .ok after) :
    after.Sums ∧ after.heap.Subperm state.heap ∧ (after.heap = [] ∨ after.weight ≤ limit) := by
  unfold limitWeight at limited
  split at limited
  · have marked : SrdState.Sums { state with maxTxWeightExceeded := true } := { sums with }
    have dropped := dropLeast_spec marked limited
    exact dropped
  next light =>
    cases limited
    exact ⟨sums, .refl _, .inr (by omega)⟩

theorem drainHeap_holds {heap : List OutputGroup} {after : Selection} (enough : heap.length ≤ turns)
    (holds : result.Holds groups) (drained : drainHeap std turns heap result = .ok after) :
    ∃ added, added.Perm heap ∧ after.Holds (groups ++ added) := by
  induction turns generalizing heap groups result with
  | zero =>
    cases drained
    obtain rfl := List.length_eq_zero_iff.mp (Nat.le_zero.mp enough)
    exact ⟨[], .nil, by rwa [List.append_nil]⟩
  | succ turns ih =>
    unfold drainHeap at drained
    split at drained
    next popped =>
      cases drained
      cases heap with
      | nil => exact ⟨[], .nil, by rwa [List.append_nil]⟩
      | cons group rest =>
        have pops := std.heapPop_cons group rest
        rw [popped] at pops
        cases pops
    next group rest popped =>
      have perm := std.heapPop_perm heap group rest popped
      obtain ⟨middle, added, drained⟩ := bind_eq_ok_iff.mp drained
      have shorter : rest.length ≤ turns := by
        have size := perm.length_eq
        rw [List.length_cons] at size
        omega
      obtain ⟨more, permMore, held⟩ := ih shorter (holds.addInput added) drained
      refine ⟨group :: more, (permMore.cons group).trans perm.symm, ?_⟩
      rwa [List.append_assoc] at held

/-- The heap and the groups still to come are part of the pool. -/
theorem srdLoop_adequate {targetValue : Int} (positive : 0 < targetValue)
    (sums : state.Sums) (within : (state.heap ++ groups).Subperm pool)
    (selected : srdLoop std targetValue limit (.start target .SRD) groups state = .ok result) :
    ∃ chosen, Adequate pool limit (targetValue ≤ ·) result chosen := by
  induction groups generalizing state with
  | nil => cases selected
  | cons group groups ih =>
    rw [srdLoop] at selected
    obtain ⟨after, limited, selected⟩ := bind_eq_ok_iff.mp selected
    have added : SrdState.Sums { state with
        heap := group :: state.heap
        selectedEffValue := state.selectedEffValue + group.getSelectionAmount
        weight := state.weight + group.weight } := by
      simp only [sums.value, sums.weight]
      exact ⟨add_comm _ _, add_comm _ _⟩
    obtain ⟨sumsAfter, subperm, light⟩ := limitWeight_spec added limited
    have inPool : (after.heap ++ groups).Subperm pool :=
      (subperm.append (.refl groups)).trans (List.perm_middle.symm.subperm.trans within)
    split at selected
    next reached =>
      obtain ⟨chosen, perm, held⟩ := drainHeap_holds le_rfl (Selection.holds_start _ _) selected
      refine ⟨chosen, ?_, held, ?_, ?_⟩
      · exact perm.subperm.trans ((List.sublist_append_left _ _).subperm.trans inPool)
      · rw [totalWeight_perm perm, ← sumsAfter.weight]
        rcases light with empty | light
        · rw [sumsAfter.value, empty, totalAmount_nil] at reached
          omega
        · exact light
      · rw [totalAmount_perm perm, ← sumsAfter.value]
        exact reached
    · exact ih sumsAfter inPool selected

theorem selectCoinsSRD_adequate {rng : FastRandomContext} {targetValue changeFee : Int} (positive : 0 < targetValue)
    (nonneg : 0 ≤ changeFee) (selected : selectCoinsSRD std rng utxoPool targetValue changeFee limit = .ok result) :
    ∃ groups, Adequate utxoPool limit
      (targetValue + CHANGE_LOWER + changeFee ≤ ·) result groups := by
  have above : 0 < targetValue + (CHANGE_LOWER + changeFee) := by
    unfold CHANGE_LOWER
    omega
  obtain ⟨groups, adequate⟩ := srdLoop_adequate above ⟨rfl, rfl⟩ ((rng.shuffle_perm utxoPool).subperm) selected
  refine ⟨groups, adequate.distinct, adequate.holds, adequate.light, ?_⟩
  rw [add_assoc]
  exact adequate.accepted

end Srd

/-! ## Knapsack -/

variable {i : Nat}

theorem maskedGroups_sublist (groups : List OutputGroup) (mask : List Bool) :
    (maskedGroups groups mask).Sublist groups := by
  induction groups, mask using maskedGroups.induct with
  | case1 group groups mask ih =>
    rw [maskedGroups]
    exact ih.cons_cons group
  | case2 group groups mask ih =>
    rw [maskedGroups]
    exact ih.cons group
  | case3 groups mask _ _ =>
    rw [maskedGroups]
    · exact List.nil_sublist _
    all_goals assumption

theorem maskedGroups_replicate (groups : List OutputGroup) (marked : Bool) :
    maskedGroups groups (List.replicate groups.length marked) = if marked then groups else [] := by
  induction groups with
  | nil => cases marked <;> rfl
  | cons group groups ih =>
    rw [List.length_cons, List.replicate_succ]
    cases marked <;> simpa [maskedGroups] using ih

theorem totalAmount_maskedGroups_set {mask : List Bool}
    (here : groups[i]? = some group) (free : mask[i]? = some false) :
    totalAmount (maskedGroups groups (mask.set i true)) =
      totalAmount (maskedGroups groups mask) + group.getSelectionAmount := by
  induction groups generalizing mask i with
  | nil => simp at here
  | cons first groups ih =>
    cases mask with
    | nil => simp at free
    | cons marked mask =>
      cases i with
      | zero =>
        simp only [List.getElem?_cons_zero, Option.some_inj] at here free
        subst here free
        rw [List.set_cons_zero, maskedGroups, maskedGroups, totalAmount_cons]
        exact add_comm _ _
      | succ i =>
        rw [List.getElem?_cons_succ] at here free
        have rest := ih here free
        cases marked with
        | true =>
          rw [List.set_cons_succ, maskedGroups, maskedGroups, totalAmount_cons, totalAmount_cons, rest]
          omega
        | false =>
          rw [List.set_cons_succ, maskedGroups, maskedGroups, rest]

theorem set_false_eq_self {mask : List Bool} (free : mask[i]? = some false) : mask.set i false = mask := by
  obtain ⟨inRange, read⟩ := List.getElem?_eq_some_iff.mp free
  rw [← read, List.set_getElem_self]

section Knapsack

variable {rng : FastRandomContext} {nTargetValue nTotalLower : Int} {state : SubsetState} {nPass : Nat}

/-- Totals are those of the marked groups, and the best subset reaches the target. -/
structure SubsetState.Totals (state : SubsetState) (groups : List OutputGroup)
    (nTargetValue : Int) : Prop where
  size : state.vfIncluded.length = groups.length
  total : state.nTotal = totalAmount (maskedGroups groups state.vfIncluded)
  best : state.nBest = totalAmount (maskedGroups groups state.vfBest)
  reached : nTargetValue ≤ state.nBest

theorem SubsetState.Totals.takeGroup (totals : state.Totals groups nTargetValue)
    (here : groups[i]? = some group) (free : state.vfIncluded[i]? = some false) :
    (takeGroup nTargetValue limit i group state).Totals groups nTargetValue := by
  have marked := totalAmount_maskedGroups_set here free
  rw [← totals.total] at marked
  have size : (state.vfIncluded.set i true).length = groups.length := by
    rw [List.length_set, totals.size]
  simp only [Wallet.takeGroup]
  split
  · rename_i meets
    have restored : (state.vfIncluded.set i true).set i false = state.vfIncluded := by
      rw [List.set_set, set_false_eq_self free]
    refine ⟨?_, ?_, ?_, ?_⟩
    · simp only [restored, totals.size]
    · simp only [restored, totals.total]
    · simp only
      split
      · exact marked.symm
      · exact totals.best
    · simp only
      split
      · exact meets.1
      · exact totals.reached
  · exact ⟨size, marked.symm, totals.best, totals.reached⟩

/-- Groups after the ones visited are not marked in a first pass. -/
def Untouched (nPass visited : Nat) (state : SubsetState) : Prop :=
  nPass = 0 → ∀ i, visited ≤ i → i < state.vfIncluded.length → state.vfIncluded[i]? = some false

theorem takeGroup_untouched (untouched : Untouched nPass i state) :
    Untouched nPass (i + 1) (takeGroup nTargetValue limit i group state) := by
  intro first j later
  have other : i ≠ j := by omega
  rw [takeGroup]
  split <;> simp only [List.length_set, List.set_set, List.getElem?_set_ne other] <;>
    exact untouched first j (by omega)

theorem takesGroup_spec (rng : FastRandomContext)
    (totals : state.Totals groups nTargetValue) (untouched : Untouched nPass i state) :
    let drawn := takesGroup rng nPass i state
    drawn.2.Totals groups nTargetValue ∧ Untouched nPass i drawn.2 ∧
      (drawn.1 = true → i < groups.length → drawn.2.vfIncluded[i]? = some false) := by
  unfold takesGroup
  split
  · rename_i first
    exact ⟨{ totals with }, untouched, fun _ inRange => untouched first i le_rfl (totals.size ▸ inRange)⟩
  · refine ⟨totals, untouched, fun free inRange => ?_⟩
    rw [← totals.size] at inRange
    simpa [inRange] using free

theorem subsetPass_keeps (totals : state.Totals groups nTargetValue) (untouched : Untouched nPass 0 state) :
    (subsetPass rng groups nTargetValue limit nPass state).Totals groups nTargetValue := by
  have visited (count : Nat) :
      let reached := (List.range count).foldl (passStep rng groups nTargetValue limit nPass) state
      reached.Totals groups nTargetValue ∧ Untouched nPass count reached := by
    induction count with
    | zero => exact ⟨totals, untouched⟩
    | succ count ih =>
      rw [List.range_succ, List.foldl_append, List.foldl_cons, List.foldl_nil]
      generalize List.foldl _ state (List.range count) = before at ih ⊢
      obtain ⟨kept, still, free⟩ := takesGroup_spec rng ih.1 ih.2
      unfold passStep
      generalize takesGroup rng nPass count before = drawn at kept still free ⊢
      split
      next group after here =>
        exact ⟨kept.takeGroup here (free rfl (List.getElem?_eq_some_iff.mp here).1), takeGroup_untouched still⟩
      next => exact ⟨kept, fun first j low => still first j (by omega)⟩
  exact (visited groups.length).1

theorem subsetRep_best (best : state.nBest = totalAmount (maskedGroups groups state.vfBest))
    (reached : nTargetValue ≤ state.nBest) :
    (subsetRep rng groups nTargetValue limit state).Totals groups nTargetValue := by
  let cleared := { state with
    vfIncluded := List.replicate groups.length false
    nTotal := 0
    selectedCoinsWeight := 0
    fReachedTarget := false }
  have totals : cleared.Totals groups nTargetValue :=
    ⟨List.length_replicate, by simp [cleared, maskedGroups_replicate], best, reached⟩
  have untouched : Untouched 0 0 cleared := by
    intro _ i _ inRange
    rw [List.length_replicate] at inRange
    exact List.getElem?_replicate_of_lt inRange
  have first := @subsetPass_keeps groups limit rng nTargetValue _ 0 totals untouched
  unfold subsetRep
  simp only
  split
  · exact first
  · exact subsetPass_keeps first fun second => absurd second (by decide)

theorem subsetLoop_best {iterations : Nat}
    (best : state.nBest = totalAmount (maskedGroups groups state.vfBest)) (reached : nTargetValue ≤ state.nBest) :
    let last := subsetLoop rng groups nTargetValue limit iterations state
    last.nBest = totalAmount (maskedGroups groups last.vfBest) ∧ nTargetValue ≤ last.nBest := by
  induction iterations generalizing state with
  | zero => exact ⟨best, reached⟩
  | succ iterations ih =>
    rw [subsetLoop]
    split
    · exact ⟨best, reached⟩
    · have totals := @subsetRep_best groups limit rng nTargetValue state best reached
      exact ih totals.best totals.reached

theorem approximateBestSubset_reaches {drawn : Nat}
    (total : nTotalLower = totalAmount groups) (enough : nTargetValue ≤ nTotalLower) :
    nTargetValue ≤ totalAmount (maskedGroups groups
      (approximateBestSubset rng drawn groups nTotalLower nTargetValue limit).vfBest) := by
  obtain ⟨best, reached⟩ := @subsetLoop_best groups limit rng nTargetValue
    { vfBest := List.replicate groups.length true, nBest := nTotalLower, drawn } 1000
    (by rw [maskedGroups_replicate, total, if_pos rfl]) enough
  exact best ▸ reached

theorem bestSubset_reaches (total : nTotalLower = totalAmount groups)
    (enough : nTargetValue ≤ nTotalLower) (nonneg : 0 ≤ changeTarget) :
    nTargetValue ≤ totalAmount (maskedGroups groups
      (bestSubset rng groups nTotalLower nTargetValue changeTarget limit).vfBest) := by
  unfold bestSubset
  simp only
  split
  · rename_i withChange
    have reached := @approximateBestSubset_reaches groups limit rng (nTargetValue + changeTarget)
      nTotalLower (approximateBestSubset rng 0 groups nTotalLower nTargetValue limit).drawn
      total withChange.2
    omega
  · exact approximateBestSubset_reaches total enough

/-- What the first loop knows of the groups it has seen. -/
structure KnapsackGroups.Sorted (found : KnapsackGroups) (pool : List OutputGroup)
    (nTargetValue changeTarget limit : Int) : Prop where
  total : found.nTotalLower = totalAmount found.applicableGroups
  larger : ∀ larger, found.lowestLarger = some larger → larger ∈ pool ∧
    larger.weight ≤ limit ∧ nTargetValue + changeTarget ≤ larger.getSelectionAmount

/-- What the first loop ends with: one group of just the target, or the groups by amount. -/
def KnapsackOutcome (pool : List OutputGroup) (nTargetValue changeTarget limit : Int) :
    OutputGroup ⊕ KnapsackGroups → Prop
  | .inl group =>
    group ∈ pool ∧ group.weight ≤ limit ∧ group.getSelectionAmount = nTargetValue
  | .inr found =>
    found.Sorted pool nTargetValue changeTarget limit ∧ found.applicableGroups.Subperm pool

theorem knapsackGroups_spec {found : KnapsackGroups}
    (sorted : found.Sorted pool nTargetValue changeTarget limit)
    (within : (found.applicableGroups ++ groups).Subperm pool) :
    KnapsackOutcome pool nTargetValue changeTarget limit
      (knapsackGroups nTargetValue changeTarget limit groups found) := by
  induction groups generalizing found with
  | nil =>
    rw [List.append_nil] at within
    exact ⟨sorted, within⟩
  | cons group groups ih =>
    have member : group ∈ pool := within.subset (List.mem_append_right _ (.head _))
    have skipped : (found.applicableGroups ++ groups).Subperm pool :=
      ((List.sublist_cons_self group groups).append_left _).subperm.trans within
    rw [knapsackGroups]
    split
    · exact ih ⟨sorted.total, sorted.larger⟩ skipped
    rename_i light
    split
    · rename_i same
      exact ⟨member, by omega, same⟩
    split
    · refine ih ⟨?_, sorted.larger⟩ ?_
      · simp [totalAmount, sorted.total]
      · simpa using within
    rename_i large
    split
    · refine ih ⟨sorted.total, ?_⟩ skipped
      rintro _ ⟨⟩
      exact ⟨member, by omega, by omega⟩
    · exact ih sorted skipped

section Results

variable (nonneg : 0 ≤ changeTarget) (empty : result.Holds [])

include nonneg empty

theorem adequate_larger {larger : OutputGroup} (fits : larger ∈ pool ∧ larger.weight ≤ limit ∧
      nTargetValue + changeTarget ≤ larger.getSelectionAmount)
    (added : result.addInput larger = .ok after) :
    ∃ chosen, Adequate pool limit (nTargetValue ≤ ·) after chosen := by
  refine ⟨[larger], List.singleton_subperm_iff.mpr fits.1, empty.addInput added, ?_, ?_⟩
  · rw [totalWeight_cons, totalWeight_nil, add_zero]
    exact fits.2.1
  · rw [totalAmount_cons, totalAmount_nil, add_zero]
    have reached := fits.2.2
    omega

variable {found : KnapsackGroups} (sorted : found.Sorted pool nTargetValue changeTarget limit)

include sorted

theorem subsetOrLarger_adequate (within : groups.Subperm pool) {best : SubsetState}
    (reached : nTargetValue ≤ totalAmount (maskedGroups groups best.vfBest))
    (selected : subsetOrLarger nTargetValue changeTarget limit result groups
      found.lowestLarger best = .ok after) :
    ∃ chosen, Adequate pool limit (nTargetValue ≤ ·) after chosen := by
  have subset {chosen : Selection} (added : result.addInputs (maskedGroups groups best.vfBest) = .ok chosen)
      (light : ¬ chosen.weight > limit) :
      ∃ groups, Adequate pool limit (nTargetValue ≤ ·) chosen groups := by
    have held := empty.addInputs added
    refine ⟨maskedGroups groups best.vfBest,
      (maskedGroups_sublist groups best.vfBest).subperm.trans within, held, ?_, reached⟩
    rw [held.weight, List.nil_append] at light
    omega
  unfold subsetOrLarger at selected
  cases larger : found.lowestLarger with
  | none =>
    simp only [larger] at selected
    obtain ⟨chosen, added, selected⟩ := bind_eq_ok_iff.mp selected
    split at selected
    · cases selected
    · rename_i light
      cases selected
      exact subset added light
  | some group =>
    simp only [larger] at selected
    split at selected
    · exact adequate_larger nonneg empty (sorted.larger group larger) selected
    obtain ⟨chosen, added, selected⟩ := bind_eq_ok_iff.mp selected
    split at selected
    · exact adequate_larger nonneg .clear (sorted.larger group larger) selected
    · rename_i light
      cases selected
      exact subset added light

theorem knapsackSubset_adequate (within : found.applicableGroups.Subperm pool)
    (selected : knapsackSubset std rng nTargetValue changeTarget limit result found = .ok after) :
    ∃ chosen, Adequate pool limit (nTargetValue ≤ ·) after chosen := by
  unfold knapsackSubset at selected
  split at selected
  · cases larger : found.lowestLarger with
    | none =>
      simp only [larger] at selected
      cases selected
    | some group =>
      simp only [larger] at selected
      exact adequate_larger nonneg empty (sorted.larger group larger) selected
  next enough =>
    have perm := std.sort_perm descending found.applicableGroups
    have total : found.nTotalLower = totalAmount (std.sort descending found.applicableGroups) := by
      rw [sorted.total, totalAmount_perm perm]
    exact subsetOrLarger_adequate nonneg empty sorted (perm.subperm.trans within)
      (bestSubset_reaches total (by omega) nonneg) selected

end Results

theorem knapsackSolver_adequate (nonneg : 0 ≤ changeTarget)
    (selected : knapsackSolver std rng pool nTargetValue changeTarget limit = .ok result) :
    ∃ chosen, Adequate pool limit (nTargetValue ≤ ·) result chosen := by
  have begun : KnapsackGroups.Sorted {} pool nTargetValue changeTarget limit := by
    refine ⟨rfl, ?_⟩
    rintro _ ⟨⟩
  have spec := knapsackGroups_spec begun (rng.shuffle_perm pool).subperm
  unfold knapsackSolver at selected
  generalize knapsackGroups nTargetValue changeTarget limit (rng.shuffle pool) {} = outcome
    at selected spec
  cases outcome with
  | inl group =>
    obtain ⟨member, light, exactly⟩ := spec
    exact adequate_larger le_rfl (Selection.holds_start _ _) ⟨member, light, by omega⟩ selected
  | inr found =>
    obtain ⟨sorted, within⟩ := spec
    simp only at selected
    split at selected
    · rename_i exactly
      obtain ⟨all, added, selected⟩ := bind_eq_ok_iff.mp selected
      have held := (Selection.holds_start _ _).addInputs added
      split at selected
      · rename_i light
        cases selected
        refine ⟨found.applicableGroups, within, held, ?_, ?_⟩
        · rwa [held.weight, List.nil_append] at light
        · rw [← sorted.total]
          omega
      · have marked : KnapsackGroups.Sorted { found with maxWeightExceeded := true } pool nTargetValue
            changeTarget limit := { sorted with }
        exact knapsackSubset_adequate nonneg .clear marked within selected
    · exact knapsackSubset_adequate nonneg (Selection.holds_start _ _) sorted within selected

end Knapsack

/-! ## Every call -/

namespace SelectionCall

/-- The cost or target of change a call is given. -/
def change : SelectionCall → Int
  | .bnb costOfChange => costOfChange
  | .coinGrinder changeTarget => changeTarget
  | .srd changeFee => changeFee
  | .knapsack changeTarget => changeTarget

/-- What the amount of a result has to reach, and for branch and bound not to pass. -/
def Requires (call : SelectionCall) (target amount : Int) : Prop :=
  match call with
  | .bnb costOfChange => target ≤ amount ∧ amount ≤ target + costOfChange
  | .coinGrinder changeTarget => target + changeTarget ≤ amount
  | .srd changeFee => target + CHANGE_LOWER + changeFee ≤ amount
  | .knapsack _ => target ≤ amount

/-- Whatever is returned are distinct groups of the pool, light enough and of the required amount. -/
theorem run_adequate (std : StdLib) (rng : FastRandomContext) (utxoPool : List OutputGroup) {target : Int}
    (positive : 0 < target) (maxSelectionWeight : Int) {call : SelectionCall} (nonneg : 0 ≤ call.change)
    {result : Selection} (selected : call.run std rng utxoPool target maxSelectionWeight = .ok result) :
    ∃ groups : List OutputGroup, groups.Subperm utxoPool ∧
      result.selectedInputs = groups.flatMap (·.outputs) ∧ result.weight = totalWeight groups ∧
      totalWeight groups ≤ maxSelectionWeight ∧ call.Requires target (totalAmount groups) := by
  have adequate : ∃ groups, Adequate utxoPool maxSelectionWeight (call.Requires target) result groups := by
    cases call with
    | bnb costOfChange => exact selectCoinsBnB_adequate selected
    | coinGrinder changeTarget => exact coinGrinder_adequate selected
    | srd changeFee => exact selectCoinsSRD_adequate positive nonneg selected
    | knapsack changeTarget => exact knapsackSolver_adequate nonneg selected
  obtain ⟨groups, distinct, holds, light, accepted⟩ := adequate
  exact ⟨groups, distinct, holds.inputs, holds.weight, light, accepted⟩

end SelectionCall

/-! ## A library and two groups -/

deriving instance DecidableEq for COutput, OutputGroup

instance heapOrder : Preorder (Int ×ₗ Int) := (Prod.Lex.instLinearOrder Int Int).toPreorder

/-- Groups by amount, and the heavier first among equals. -/
def heapKey (group : OutputGroup) : Int ×ₗ Int := toLex (group.getSelectionAmount, -group.weight)

theorem descendingEffvalWeight_of_le {top other : OutputGroup} (least : heapKey top ≤ heapKey other) :
    descendingEffvalWeight top other = false := by
  rw [heapKey, heapKey, Prod.Lex.toLex_le_toLex] at least
  unfold descendingEffvalWeight
  split
  · rename_i same
    rcases least with less | ⟨_, weight⟩
    · exact absurd same less.ne
    · exact decide_eq_false (by simp only at weight; omega)
  rename_i different
  rcases least with less | ⟨same, _⟩
  · exact decide_eq_false (by simp only at less; omega)
  · exact absurd same different

/-- Insertion sort, and a heap that looks for its least group. -/
def StdLib.plain : StdLib where
  sort before groups := groups.insertionSort fun a b => before a b = true
  sort_perm _ groups := List.perm_insertionSort _ groups
  heapPop heap := (heap.argmin heapKey).map fun top => (top, heap.erase top)
  heapPop_nil := rfl
  heapPop_cons group groups := by
    rw [Option.isSome_map, Option.isSome_iff_ne_none]
    exact fun none => List.cons_ne_nil _ _ (List.argmin_eq_none.mp none)
  heapPop_perm heap top rest popped := by
    obtain ⟨found, least, same⟩ := Option.map_eq_some_iff.mp popped
    cases same
    exact List.perm_cons_erase (List.argmin_mem least)
  heapPop_least heap top rest popped other member := by
    obtain ⟨found, least, same⟩ := Option.map_eq_some_iff.mp popped
    cases same
    exact descendingEffvalWeight_of_le (List.le_of_mem_argmin (List.mem_of_mem_erase member) least)

def FastRandomContext.plain : FastRandomContext :=
  { shuffle := id, shuffle_perm := fun _ => .refl _, randbool := fun _ => true }

theorem run_adequate_two : ∃ result, (SelectionCall.bnb 10).run .plain .plain
        [{ effectiveValue := 500, weight := 272 }, { effectiveValue := 105, weight := 272 }] 100 400 =
          .ok result ∧
      ∃ groups : List OutputGroup, groups.Subperm
          [{ effectiveValue := 500, weight := 272 }, { effectiveValue := 105, weight := 272 }] ∧
        result.selectedInputs = groups.flatMap (·.outputs) ∧ result.weight = totalWeight groups ∧
        totalWeight groups ≤ 400 ∧ (SelectionCall.bnb 10).Requires 100 (totalAmount groups) := by
  obtain ⟨result, ran⟩ : ∃ result, (SelectionCall.bnb 10).run .plain .plain
      [{ effectiveValue := 500, weight := 272 }, { effectiveValue := 105, weight := 272 }] 100 400 =
        .ok result := ⟨_, rfl⟩
  exact ⟨result, ran, SelectionCall.run_adequate .plain .plain _ (by decide) 400 (by decide) ran⟩

end Sharecoin.Wallet
