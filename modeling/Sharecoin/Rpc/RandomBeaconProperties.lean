import Sharecoin.Rpc.RandomBeacon

/-! When `getrandombeacon` answers, and with what. The three outcomes of accepted
arguments are a confirmed window, an unconfirmed one, and a window whose last
height does not fit an `int`. -/

set_option autoImplicit false

namespace Sharecoin.Rpc

open Lib Sha256

section Loop

variable (activeChain : CChain)

private def mixHashesFrom (h : Int) (count : Nat) : List Uint256 :=
  (List.range count).filterMap fun offset : Nat =>
    (activeChain.entryAt (h + offset)).map CBlockIndex.mixHash

private theorem mixHashesFrom_succ {h : Int} {count : Nat} {pindex : CBlockIndex}
    (found : activeChain.entryAt h = some pindex) :
    mixHashesFrom activeChain h (count + 1) = pindex.mixHash :: mixHashesFrom activeChain (h + 1) count := by
  have shifted : ∀ offset : Nat, h + ((offset + 1 : Nat) : Int) = h + 1 + offset := by
    intro offset
    push_cast
    ring
  unfold mixHashesFrom
  rw [List.range_succ_eq_map, List.filterMap_cons, List.filterMap_map]
  simp only [Nat.cast_zero, add_zero, found, Option.map_some, Function.comp_def, Nat.succ_eq_add_one, shifted]

private theorem beaconLoop_absorbs (count : Nat) :
    ∀ (h : Int) (hw : HashWriter) (message : Bytes), Absorbed hw.ctx message →
      (∀ offset : Nat, offset < count → (activeChain.entryAt (h + offset)).isSome) →
      (mixHashesFrom activeChain h count).length = count ∧
        ∃ final, beaconLoop activeChain count h hw = .ok final ∧ Absorbed final.ctx
            (message ++ (mixHashesFrom activeChain h count).flatMap Uint256.data) := by
  induction count with
  | zero =>
    intro h hw message absorbed _
    exact ⟨rfl, hw, rfl, by simpa [mixHashesFrom] using absorbed⟩
  | succ count ih =>
    intro h hw message absorbed present
    have first := present 0 (Nat.succ_pos count)
    rw [Nat.cast_zero, add_zero] at first
    obtain ⟨pindex, found⟩ := Option.isSome_iff_exists.mp first
    have later : ∀ offset : Nat, offset < count → (activeChain.entryAt (h + 1 + offset)).isSome := by
      intro offset small
      have shifted := present (offset + 1) (Nat.succ_lt_succ small)
      rwa [Nat.cast_add, Nat.cast_one, add_comm (offset : Int) 1, ← add_assoc] at shifted
    obtain ⟨length, final, ran, written⟩ :=
      ih (h + 1) (hw.write pindex.mixHash.data) _ (absorbed.write pindex.mixHash.data) later
    rw [mixHashesFrom_succ activeChain found]
    refine ⟨by rw [List.length_cons, length], final, ?_, ?_⟩
    · rw [beaconLoop, found]
      exact ran
    · rwa [List.flatMap_cons, ← List.append_assoc]

end Loop

/-! ## The three outcomes -/

variable {startHeight windowSize : Int32} {activeChain : CChain} {result : BeaconResult}

def lastHeight (startHeight windowSize : Int32) : Int := startHeight.toInt + windowSize.toInt - 1

structure Accepted (startHeight windowSize : Int32) : Prop where
  start_nonneg : 0 ≤ startHeight.toInt
  window_pos : 1 ≤ windowSize.toInt
  window_le : windowSize.toInt ≤ 10000

section

variable (accepted : Accepted startHeight windowSize)

include accepted

theorem Accepted.lastHeight_bounds :
    startHeight.toInt ≤ lastHeight startHeight windowSize ∧ lastHeight startHeight windowSize < 2 ^ 31 + 10000 := by
  obtain ⟨_, positive, small⟩ := accepted
  have top := startHeight.toInt_lt
  unfold lastHeight
  omega

theorem getrandombeacon_of_unconfirmed (fits : lastHeight startHeight windowSize < 2 ^ 31)
    (beyond : activeChain.height < lastHeight startHeight windowSize) :
    getrandombeacon activeChain startHeight windowSize =
      .error (.notConfirmed (wrap32 (lastHeight startHeight windowSize - activeChain.height))
        startHeight.toInt (lastHeight startHeight windowSize) activeChain.height) := by
  have bounds := accepted.lastHeight_bounds
  obtain ⟨nonneg, positive, small⟩ := accepted
  have exact_end : wrap32 (startHeight.toInt + windowSize.toInt - 1) =
      lastHeight startHeight windowSize := wrap32_eq_self (by unfold lastHeight at bounds; omega) fits
  unfold getrandombeacon
  dsimp only
  rw [if_neg (by omega), if_neg (by omega), exact_end, if_pos beyond]

theorem windowMixHashes_length (confirmed : lastHeight startHeight windowSize ≤ activeChain.height) :
    (windowMixHashes activeChain startHeight windowSize).length = windowSize.toInt ∧
      ∃ final, beaconLoop activeChain windowSize.toInt.toNat startHeight.toInt .new = .ok final ∧
        Absorbed final.ctx (windowMessage activeChain startHeight windowSize) := by
  obtain ⟨nonneg, positive, small⟩ := accepted
  have present : ∀ offset : Nat, offset < windowSize.toInt.toNat →
      (activeChain.entryAt (startHeight.toInt + offset)).isSome := by
    intro offset inside
    rw [CChain.entryAt_isSome_iff]
    unfold lastHeight at confirmed
    omega
  obtain ⟨length, final, ran, absorbed⟩ :=
    beaconLoop_absorbs activeChain windowSize.toInt.toNat startHeight.toInt .new [] absorbed_reset present
  refine ⟨?_, final, ran, absorbed⟩
  have counted : (windowMixHashes activeChain startHeight windowSize).length =
      windowSize.toInt.toNat := length
  omega

theorem getrandombeacon_of_confirmed (confirmed : lastHeight startHeight windowSize ≤ activeChain.height) :
    getrandombeacon activeChain startHeight windowSize =
      .ok ⟨startHeight.toInt, lastHeight startHeight windowSize, windowSize.toInt,
        (doubleDigest (windowMessage activeChain startHeight windowSize)).getHex⟩ := by
  obtain ⟨_, final, ran, absorbed⟩ := windowMixHashes_length accepted confirmed
  have bounds := accepted.lastHeight_bounds
  obtain ⟨nonneg, positive, small⟩ := accepted
  have top := activeChain.size_lt
  have exact_end : wrap32 (startHeight.toInt + windowSize.toInt - 1) = lastHeight startHeight windowSize := by
    apply wrap32_eq_self <;> unfold lastHeight CChain.height at * <;> omega
  have count : (lastHeight startHeight windowSize + 1 - startHeight.toInt).toNat =
      windowSize.toInt.toNat := by
    unfold lastHeight
    omega
  unfold getrandombeacon
  dsimp only
  rw [if_neg (by omega), if_neg (by omega), exact_end, if_neg (by omega), count, ran]
  dsimp only
  rw [HashWriter.getHash_of_absorbed absorbed]

/-- Past the top of `int` the end height wraps below every tip, and the call
answers with the hash of nothing. -/
theorem getrandombeacon_of_overflow (overflow : 2 ^ 31 ≤ lastHeight startHeight windowSize) :
    getrandombeacon activeChain startHeight windowSize =
      .ok ⟨startHeight.toInt, lastHeight startHeight windowSize - 2 ^ 32, windowSize.toInt,
        (doubleDigest []).getHex⟩ := by
  have bounds := accepted.lastHeight_bounds
  obtain ⟨nonneg, positive, small⟩ := accepted
  have wrapped : wrap32 (startHeight.toInt + windowSize.toInt - 1) = lastHeight startHeight windowSize - 2 ^ 32 := by
    unfold wrap32 lastHeight at *
    rw [Int.bmod_def]
    omega
  have tip : -1 ≤ activeChain.height := by
    unfold CChain.height
    omega
  have empty : (lastHeight startHeight windowSize - 2 ^ 32 + 1 - startHeight.toInt).toNat = 0 := by omega
  unfold getrandombeacon
  dsimp only
  rw [if_neg (by omega), if_neg (by omega), wrapped, if_neg (by omega), empty, beaconLoop]
  have nothing : HashWriter.new.getHash = doubleDigest [] := HashWriter.getHash_of_absorbed absorbed_reset
  dsimp only
  rw [nothing]

end

section

variable (returned : getrandombeacon activeChain startHeight windowSize = .ok result)

include returned

theorem accepted_of_ok : Accepted startHeight windowSize := by
  unfold getrandombeacon at returned
  dsimp only at returned
  by_cases negative : startHeight.toInt < 0
  · rw [if_pos negative] at returned
    cases returned
  by_cases outside : windowSize.toInt < 1 ∨ windowSize.toInt > 10000
  · rw [if_neg negative, if_pos outside] at returned
    cases returned
  · exact ⟨by omega, by omega, by omega⟩

theorem confirmed_of_ok (fits : lastHeight startHeight windowSize < 2 ^ 31) :
    lastHeight startHeight windowSize ≤ activeChain.height := by
  by_contra beyond
  rw [getrandombeacon_of_unconfirmed (accepted_of_ok returned) fits (not_le.mp beyond)] at returned
  cases returned

end

theorem window_present_iff (accepted : Accepted startHeight windowSize) :
    (∀ h, startHeight.toInt ≤ h → h ≤ lastHeight startHeight windowSize → (activeChain.entryAt h).isSome) ↔
      lastHeight startHeight windowSize ≤ activeChain.height := by
  have bounds := accepted.lastHeight_bounds
  constructor
  · intro present
    have last := present (lastHeight startHeight windowSize) bounds.1 le_rfl
    exact ((activeChain.entryAt_isSome_iff _).mp last).2
  · intro confirmed h low high
    exact (activeChain.entryAt_isSome_iff _).mpr ⟨accepted.start_nonneg.trans low, high.trans confirmed⟩

theorem height_lt (activeChain : CChain) : activeChain.height < 2 ^ 31 - 1 := by
  have size := activeChain.size_lt
  unfold CChain.height
  omega

theorem height_of_empty (empty : activeChain.vChain = []) : activeChain.height = -1 := by
  unfold CChain.height
  rw [empty]
  rfl

theorem height_nonneg (occupied : activeChain.vChain ≠ []) : 0 ≤ activeChain.height := by
  have positive : 0 < activeChain.vChain.length := List.length_pos_of_ne_nil occupied
  unfold CChain.height
  omega

/-! ## Gating -/

/-- The call answers exactly when every height of the window, over the integers,
is on the active chain; otherwise it names the number of missing blocks. An
answer hashes one mix hash per block of the window. -/
structure BeaconGated (activeChain : CChain) (startHeight windowSize : Int32) : Prop where
  returns_iff : (∃ result, getrandombeacon activeChain startHeight windowSize = .ok result) ↔
    ∀ h, startHeight.toInt ≤ h → h ≤ lastHeight startHeight windowSize → (activeChain.entryAt h).isSome
  reports : ∀ error, getrandombeacon activeChain startHeight windowSize = .error error →
    error = .notConfirmed (lastHeight startHeight windowSize - activeChain.height)
      startHeight.toInt (lastHeight startHeight windowSize) activeChain.height
  hashes : ∀ result, getrandombeacon activeChain startHeight windowSize = .ok result →
    (windowMixHashes activeChain startHeight windowSize).length = windowSize.toInt ∧
      result.beacon = (doubleDigest (windowMessage activeChain startHeight windowSize)).getHex

section Gate

variable (accepted : Accepted startHeight windowSize)
include accepted

theorem beaconGated_of_confirmed (confirmed : lastHeight startHeight windowSize ≤ activeChain.height) :
    BeaconGated activeChain startHeight windowSize := by
  have answered := getrandombeacon_of_confirmed accepted confirmed
  refine ⟨?_, ?_, ?_⟩
  · exact ⟨fun _ => (window_present_iff accepted).mpr confirmed, fun _ => ⟨_, answered⟩⟩
  · intro error failed
    rw [answered] at failed
    cases failed
  intro result returned
  rw [answered] at returned
  cases returned
  exact ⟨(windowMixHashes_length accepted confirmed).1, rfl⟩

theorem beaconGated_of_unconfirmed (fits : lastHeight startHeight windowSize < 2 ^ 31)
    (nonempty : activeChain.vChain = [] → lastHeight startHeight windowSize < 2 ^ 31 - 1)
    (beyond : activeChain.height < lastHeight startHeight windowSize) :
    BeaconGated activeChain startHeight windowSize := by
  have refused := getrandombeacon_of_unconfirmed accepted fits beyond
  have missing : lastHeight startHeight windowSize - activeChain.height < 2 ^ 31 := by
    by_cases empty : activeChain.vChain = []
    · have below := nonempty empty
      have floor := height_of_empty empty
      omega
    · have floor := height_nonneg empty
      omega
  rw [wrap32_eq_self (by omega) missing] at refused
  refine ⟨?_, ?_, ?_⟩
  · constructor
    · rintro ⟨result, returned⟩
      rw [refused] at returned
      cases returned
    · intro present
      exact absurd ((window_present_iff accepted).mp present) (not_le.mpr beyond)
  · intro error failed
    rw [refused] at failed
    cases failed
    rfl
  · intro result returned
    rw [refused] at returned
    cases returned

theorem BeaconGated.fits (gated : BeaconGated activeChain startHeight windowSize) :
    lastHeight startHeight windowSize < 2 ^ 31 := by
  by_contra overflow
  have tip := height_lt activeChain
  have present := gated.returns_iff.mp ⟨_, getrandombeacon_of_overflow accepted (not_lt.mp overflow)⟩
  have confirmed := (window_present_iff accepted).mp present
  omega

-- On an empty chain the tip is at height -1, so the count of missing blocks of a window
-- that ends at the greatest height is one past the top of `int`.
theorem BeaconGated.fits_of_empty (gated : BeaconGated activeChain startHeight windowSize)
    (empty : activeChain.vChain = []) : lastHeight startHeight windowSize < 2 ^ 31 - 1 := by
  by_contra top
  have fits := gated.fits accepted
  have tip := height_of_empty empty
  have last : lastHeight startHeight windowSize = 2 ^ 31 - 1 := by omega
  have reported := gated.reports _ (getrandombeacon_of_unconfirmed accepted fits (by omega))
  rw [last, tip] at reported
  injection reported with missing
  exact absurd missing (by decide)

end Gate

/-- The gate is right exactly when the last height fits an `int` and, on an empty
chain, so does the number of missing blocks. -/
theorem beaconGated_iff (activeChain : CChain) (startHeight windowSize : Int32)
    (accepted : Accepted startHeight windowSize) :
    BeaconGated activeChain startHeight windowSize ↔ lastHeight startHeight windowSize < 2 ^ 31 ∧
        (activeChain.vChain = [] → lastHeight startHeight windowSize < 2 ^ 31 - 1) := by
  constructor
  · intro gated
    exact ⟨gated.fits accepted, gated.fits_of_empty accepted⟩
  rintro ⟨fits, nonempty⟩
  rcases le_or_gt (lastHeight startHeight windowSize) activeChain.height with confirmed | beyond
  · exact beaconGated_of_confirmed accepted confirmed
  · exact beaconGated_of_unconfirmed accepted fits nonempty beyond

def genesisChain : CChain :=
  ⟨[CBlockIndex.ofHeader (regtestParams doubleDigest).genesis], by decide⟩

theorem genesisChain_gated : Accepted 0 1 ∧ BeaconGated genesisChain 0 1 := by
  have accepted : Accepted 0 1 := ⟨by decide, by decide, by decide⟩
  exact ⟨accepted, (beaconGated_iff genesisChain 0 1 accepted).mpr (by decide)⟩

/-- A window of two blocks from the greatest `int` height on is answered, although
no height of it is on the chain. -/
theorem genesisChain_overflow_not_gated : Accepted 2147483647 2 ∧ ¬ BeaconGated genesisChain 2147483647 2 := by
  have accepted : Accepted 2147483647 2 := ⟨by decide, by decide, by decide⟩
  refine ⟨accepted, fun gated => ?_⟩
  have present := gated.returns_iff.mp ⟨_, getrandombeacon_of_overflow accepted (by decide)⟩
  exact absurd (present 2147483647 (by decide) (by decide)) (by decide)

/-! ## The value -/

/-- The answer is the published value of a window that exists, and any other node
whose chain agrees on the window gives the same answer. -/
structure BeaconMatchesSpec (activeChain : CChain) (startHeight windowSize : Int32)
    (result : BeaconResult) : Prop where
  present : ∀ h, startHeight.toInt ≤ h → h ≤ lastHeight startHeight windowSize → (activeChain.entryAt h).isSome
  value : result.beacon = specBeacon activeChain startHeight windowSize
  reproducible : ∀ other : CChain, (∀ h, startHeight.toInt ≤ h → h ≤ lastHeight startHeight windowSize →
      (other.entryAt h).map CBlockIndex.mixHash = (activeChain.entryAt h).map CBlockIndex.mixHash) →
    ∀ otherResult, getrandombeacon other startHeight windowSize = .ok otherResult → otherResult.beacon = result.beacon

theorem beacon_of_ok (returned : getrandombeacon activeChain startHeight windowSize = .ok result)
    (fits : lastHeight startHeight windowSize < 2 ^ 31) :
    result.beacon = (doubleDigest (windowMessage activeChain startHeight windowSize)).getHex := by
  have answered := getrandombeacon_of_confirmed (accepted_of_ok returned) (confirmed_of_ok returned fits)
  rw [returned] at answered
  cases answered
  rfl

/-- The code hashes twice, so an answer is the published single SHA-256 exactly
when hashing the published value again does not change it, and the window ends
within `int`. -/
theorem beaconMatchesSpec_iff (activeChain : CChain) (startHeight windowSize : Int32) (result : BeaconResult)
    (returned : getrandombeacon activeChain startHeight windowSize = .ok result) :
    BeaconMatchesSpec activeChain startHeight windowSize result ↔ lastHeight startHeight windowSize < 2 ^ 31 ∧
        digest (digest (windowMessage activeChain startHeight windowSize)).data =
          digest (windowMessage activeChain startHeight windowSize) := by
  have accepted := accepted_of_ok returned
  constructor
  · intro spec
    have confirmed := (window_present_iff accepted).mp spec.present
    have fits : lastHeight startHeight windowSize < 2 ^ 31 := by
      have tip := height_lt activeChain
      omega
    refine ⟨fits, Uint256.getHex_injective ?_⟩
    exact (beacon_of_ok returned fits).symm.trans spec.value
  · rintro ⟨fits, fixed⟩
    refine ⟨?_, ?_, ?_⟩
    · exact (window_present_iff accepted).mpr (confirmed_of_ok returned fits)
    · rw [beacon_of_ok returned fits, doubleDigest, fixed]
      rfl
    · intro other agree otherResult otherReturned
      have same : windowMixHashes other startHeight windowSize = windowMixHashes activeChain startHeight windowSize := by
        refine List.filterMap_congr fun offset member => ?_
        have inside := List.mem_range.mp member
        refine agree _ (by omega) ?_
        unfold lastHeight
        omega
      rw [beacon_of_ok otherReturned fits, beacon_of_ok returned fits, windowMessage, windowMessage, same]

theorem genesisChain_returns : getrandombeacon genesisChain 0 1 =
      .ok ⟨0, 0, 1, (doubleDigest (windowMessage genesisChain 0 1)).getHex⟩ :=
  getrandombeacon_of_confirmed ⟨by decide, by decide, by decide⟩ (by decide)

private theorem genesisChain_digest_not_fixed : digest (digest (windowMessage genesisChain 0 1)).data ≠
      digest (windowMessage genesisChain 0 1) := by
  decide +kernel

theorem genesisChain_beacon_not_spec : ∃ result, getrandombeacon genesisChain 0 1 = .ok result ∧
      result.beacon ≠ specBeacon genesisChain 0 1 ∧
      ¬ BeaconMatchesSpec genesisChain 0 1 result := by
  have differs : (doubleDigest (windowMessage genesisChain 0 1)).getHex ≠ specBeacon genesisChain 0 1 := fun same =>
    genesisChain_digest_not_fixed (Uint256.getHex_injective same)
  exact ⟨_, genesisChain_returns, differs, fun spec => differs spec.value⟩

theorem genesisChain_spec_iff_fixed : ∃ result, getrandombeacon genesisChain 0 1 = .ok result ∧
      (BeaconMatchesSpec genesisChain 0 1 result ↔ lastHeight 0 1 < 2 ^ 31 ∧
          digest (digest (windowMessage genesisChain 0 1)).data = digest (windowMessage genesisChain 0 1)) :=
  ⟨_, genesisChain_returns, beaconMatchesSpec_iff genesisChain 0 1 _ genesisChain_returns⟩

end Sharecoin.Rpc
