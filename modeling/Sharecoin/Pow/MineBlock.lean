import Sharecoin.Pow.CompactTarget

/-! `MineBlock`: the search for a nonce whose final ProgPoW hash is at most the target, and the
contract it keeps with the check of a header. The mix and the final hash are parameters. -/

set_option autoImplicit false

namespace Sharecoin

open Lib

/-! ## ProgPoW -/

/-- What the search and the check share of ProgPoW. The mix depends on the dataset of an epoch, the
final hash only on the header, the nonce and the mix. -/
structure ProgPow where
  hashMix : (epoch blockNumber : Int) → (headerHash : Uint256) → (nonce : UInt64) → Uint256
  hashFinal : (headerHash : Uint256) → (nonce : UInt64) → (mixHash : Uint256) → Uint256

structure ProgPowResult where
  finalHash : Uint256
  mixHash : Uint256

/-- `is_less_or_equal`: words of eight bytes, compared from the first on. -/
def isLessOrEqual : Nat → Bytes → Bytes → Bool
  | 0, _, _ => true
  | words + 1, left, right =>
    if ofBeBytes (left.take 8) > ofBeBytes (right.take 8) then false
    else if ofBeBytes (left.take 8) < ofBeBytes (right.take 8) then true
    else isLessOrEqual words (left.drop 8) (right.drop 8)

namespace ProgPow

variable (progpow : ProgPow)

def hash (epoch blockNumber : Int) (headerHash : Uint256) (nonce : UInt64) : ProgPowResult :=
  let mixHash := progpow.hashMix epoch blockNumber headerHash nonce
  { finalHash := progpow.hashFinal headerHash nonce mixHash, mixHash }

def verify (epoch blockNumber : Int) (headerHash mixHash : Uint256) (nonce : UInt64) (boundary : Bytes) : Bool :=
  if !isLessOrEqual 4 (progpow.hashFinal headerHash nonce mixHash).data boundary then false
  else progpow.hashMix epoch blockNumber headerHash nonce == mixHash

def env (sha256d : Bytes → Uint256) : HashEnv := { sha256d, progpowVerify := progpow.verify }

/-! ## The search -/

structure SearchResult where
  solutionFound : Bool := false
  nonce : UInt64 := 0
  finalHash : Uint256 := .zero
  mixHash : Uint256 := .zero

/-- The loop of `search_light`, with the nonces it tried. A count of turns of the distance to the end
never runs out. -/
def searchLoop (epoch blockNumber : Int) (headerHash : Uint256) (boundary : Bytes)
    (endNonce : UInt64) : Nat → UInt64 → SearchResult × List UInt64
  | 0, _ => ({}, [])
  | turns + 1, nonce =>
    if nonce < endNonce then
      let result := progpow.hash epoch blockNumber headerHash nonce
      if isLessOrEqual 4 result.finalHash.data boundary then
        ({ solutionFound := true, nonce, finalHash := result.finalHash,
           mixHash := result.mixHash }, [nonce])
      else
        let rest := searchLoop epoch blockNumber headerHash boundary endNonce turns (nonce + 1)
        (rest.1, nonce :: rest.2)
    else ({}, [])

def searchLight (epoch blockNumber : Int) (headerHash : Uint256) (boundary : Bytes)
    (startNonce iterations : UInt64) : SearchResult × List UInt64 :=
  let endNonce := startNonce + iterations
  progpow.searchLoop epoch blockNumber headerHash boundary endNonce (endNonce.toNat - startNonce.toNat) startNonce

end ProgPow

def maxPowLimit : Uint256 := arithToUint256 (~~~(0 : ArithUint256))

/-- What a call leaves behind: its answer, the header, the budget, and the nonces it hashed. -/
structure Mined where
  found : Bool
  block : CBlockHeader
  maxIterations : UInt64
  tried : List UInt64

def mineBlock (sha256d : Bytes → Uint256) (progpow : ProgPow) (block : CBlockHeader)
    (startNonce maxIterations : UInt64) : Mined :=
  match deriveTarget block.nBits maxPowLimit with
  | none => { found := false, block, maxIterations := 0, tried := [] }
  | some bnTarget =>
    let blockNumber := castInt block.nHeight
    let (result, tried) := progpow.searchLight (getEpochNumber blockNumber) blockNumber
      (block.getPoWHeaderHash sha256d) (targetToBoundary bnTarget) startNonce maxIterations
    if !result.solutionFound then { found := false, block, maxIterations := 0, tried }
    else
      let consumed := result.nonce - startNonce + 1
      { found := true
        block := { block with nNonce64 := result.nonce, mixHash := result.mixHash }
        maxIterations := if consumed < maxIterations then maxIterations - consumed else 0
        tried }

/-! ## Comparing with the target -/

/-- The first word decides unless it is equal. -/
theorem isLessOrEqual_iff {words : Nat} {left right : Bytes} (leftSize : left.length = 8 * words)
    (rightSize : right.length = 8 * words) :
    isLessOrEqual words left right = true ↔ ofBeBytes left ≤ ofBeBytes right := by
  induction words generalizing left right with
  | zero =>
    obtain rfl := List.length_eq_zero_iff.mp leftSize
    obtain rfl := List.length_eq_zero_iff.mp rightSize
    simp [isLessOrEqual]
  | succ words ih =>
    have rest := @ih (left.drop 8) (right.drop 8) (by rw [List.length_drop]; omega)
      (by rw [List.length_drop]; omega)
    have leftLow := ofBeBytes_lt (left.drop 8)
    have rightLow := ofBeBytes_lt (right.drop 8)
    rw [List.length_drop] at leftLow rightLow
    rw [isLessOrEqual, ofBeBytes_split 8 left, ofBeBytes_split 8 right]
    rw [leftSize] at leftLow ⊢
    rw [rightSize] at rightLow ⊢
    generalize 256 ^ (8 * (words + 1) - 8) = scale at leftLow rightLow ⊢
    rcases lt_trichotomy (ofBeBytes (left.take 8)) (ofBeBytes (right.take 8)) with less | same | more
    · rw [if_neg (not_lt_of_gt less), if_pos less]
      have scaled := Nat.mul_le_mul_left scale (Nat.succ_le_of_lt less)
      rw [Nat.succ_eq_add_one, Nat.mul_add_one] at scaled
      exact iff_of_true rfl (by omega)
    · rw [if_neg (by omega), if_neg (by omega), rest, same]
      omega
    rw [if_pos more]
    have scaled := Nat.mul_le_mul_left scale (Nat.succ_le_of_lt more)
    rw [Nat.succ_eq_add_one, Nat.mul_add_one] at scaled
    exact iff_of_false Bool.false_ne_true (by omega)

theorem ofBeBytes_targetToBoundary (target : ArithUint256) : ofBeBytes (targetToBoundary target) = target.toNat := by
  have fits : target.toNat < 256 ^ 32 := target.isLt
  rw [targetToBoundary, ofBeBytes, List.reverse_reverse, arithToUint256]
  exact ofLeBytes_leBytes_of_lt fits

/-- The boundary reverses the target's bytes, so the words compare as the numbers do. -/
theorem isLessOrEqual_targetToBoundary (hash : Uint256) (target : ArithUint256) :
    isLessOrEqual 4 hash.data (targetToBoundary target) = true ↔ ofBeBytes hash.data ≤ target.toNat := by
  rw [← ofBeBytes_targetToBoundary target]
  exact isLessOrEqual_iff hash.size_eq (by rw [targetToBoundary, List.length_reverse]; exact Uint256.size_eq _)

namespace ProgPow

variable (progpow : ProgPow) (height : Int) (headerHash mixHash : Uint256) (nonce : UInt64)

/-- The final hash of the supplied mix is at most the target, and the mix is the right one. -/
def Proves (target : Nat) : Prop :=
  ofBeBytes (progpow.hashFinal headerHash nonce mixHash).data ≤ target ∧
    mixHash = progpow.hashMix (getEpochNumber height) height headerHash nonce

theorem verify_iff (target : ArithUint256) :
    progpow.verify (getEpochNumber height) height headerHash mixHash nonce (targetToBoundary target) =
      true ↔ progpow.Proves height headerHash mixHash nonce target.toNat := by
  have compared := isLessOrEqual_targetToBoundary (progpow.hashFinal headerHash nonce mixHash) target
  rw [verify, Proves, ← compared]
  cases isLessOrEqual 4 (progpow.hashFinal headerHash nonce mixHash).data (targetToBoundary target) with
  | false => simp
  | true =>
    simp only [Bool.not_true, Bool.false_eq_true, if_false, beq_iff_eq, true_and]
    exact eq_comm

end ProgPow

section Derived

variable {nBits : UInt32} {target : ArithUint256}

theorem deriveTarget_of_le {powLimit easier : Uint256} (derived : deriveTarget nBits easier = some target)
    (within : target ≤ uintToArith256 powLimit) : deriveTarget nBits powLimit = some target := by
  obtain ⟨unsigned, positive, _, same⟩ := deriveTarget_eq_some_iff.mp derived
  rw [BitVec.le_def, toNat_uintToArith256, same] at within
  exact deriveTarget_eq_some_iff.mpr ⟨unsigned, positive, within, same⟩

theorem checkProofOfWorkImpl_of_derived {sha256d : Bytes → Uint256} {progpow : ProgPow} {block : CBlockHeader}
    {params : Params} (derived : deriveTarget nBits params.powLimit = some target) :
    (checkProofOfWorkImpl (progpow.env sha256d) block nBits params).1 = true ↔
      progpow.Proves (castInt block.nHeight) (block.getPoWHeaderHash sha256d) block.mixHash block.nNonce64
        target.toNat := by
  rw [checkProofOfWorkImpl, derived]
  exact progpow.verify_iff _ _ _ _ target

end Derived

/-! ## What a search finds -/

variable {nonce : UInt64}

namespace ProgPow

section Search

variable (progpow : ProgPow) (epoch blockNumber : Int) (headerHash : Uint256) (boundary : Bytes)

def Meets (nonce : UInt64) : Prop :=
  isLessOrEqual 4 (progpow.hash epoch blockNumber headerHash nonce).finalHash.data boundary = true

def solution (nonce : UInt64) : SearchResult :=
  { solutionFound := true
    nonce
    finalHash := (progpow.hash epoch blockNumber headerHash nonce).finalHash
    mixHash := (progpow.hash epoch blockNumber headerHash nonce).mixHash }

theorem searchLoop_cases {endNonce : UInt64} {turns : Nat} (distance : nonce.toNat + turns = endNonce.toNat) :
    (∃ found, nonce.toNat ≤ found.toNat ∧ found < endNonce ∧ progpow.Meets epoch blockNumber headerHash boundary found ∧
        (∀ earlier : UInt64, nonce.toNat ≤ earlier.toNat → earlier < found →
          ¬ progpow.Meets epoch blockNumber headerHash boundary earlier) ∧
        (progpow.searchLoop epoch blockNumber headerHash boundary endNonce turns nonce).1 =
          progpow.solution epoch blockNumber headerHash found) ∨
      (progpow.searchLoop epoch blockNumber headerHash boundary endNonce turns nonce).1 = {} ∧
        ∀ tried : UInt64, nonce.toNat ≤ tried.toNat → tried < endNonce →
          ¬ progpow.Meets epoch blockNumber headerHash boundary tried ∧
            tried ∈ (progpow.searchLoop epoch blockNumber headerHash boundary endNonce turns nonce).2 := by
  induction turns generalizing nonce with
  | zero =>
    refine .inr ⟨rfl, fun tried above below => ?_⟩
    have := UInt64.lt_iff_toNat_lt.mp below
    omega
  | succ turns ih =>
    have below : nonce < endNonce := UInt64.lt_iff_toNat_lt.mpr (by omega)
    have endFits := endNonce.toNat_lt
    have next : (nonce + 1).toNat = nonce.toNat + 1 := by
      rw [UInt64.toNat_add, UInt64.toNat_one, Nat.mod_eq_of_lt (by omega)]
    rw [searchLoop, if_pos below]
    by_cases meets : progpow.Meets epoch blockNumber headerHash boundary nonce
    · refine .inl ⟨nonce, le_rfl, below, meets, fun earlier above before => ?_, ?_⟩
      · have := UInt64.lt_iff_toNat_lt.mp before
        omega
      · rw [Meets] at meets
        simp only [meets, if_true]
        rfl
    · -- every later nonce is this one or in the rest of the range
      have split : ∀ other : UInt64, nonce.toNat ≤ other.toNat → other = nonce ∨ (nonce + 1).toNat ≤ other.toNat := by
        intro other above
        rcases Nat.eq_or_lt_of_le above with same | more
        · exact .inl (UInt64.toNat_inj.mp same.symm)
        · exact .inr (by omega)
      have failed : isLessOrEqual 4 (progpow.hash epoch blockNumber headerHash nonce).finalHash.data
          boundary = false := by
        rw [Meets] at meets
        exact Bool.eq_false_of_not_eq_true meets
      simp only [failed, Bool.false_eq_true, if_false]
      rcases @ih (nonce + 1) (by omega) with ⟨found, above, before, passes, first, result⟩ | ⟨result, all⟩
      · refine .inl ⟨found, by omega, before, passes, fun earlier low early => ?_, result⟩
        rcases split earlier low with rfl | later
        · exact meets
        · exact first earlier later early
      refine .inr ⟨result, fun tried low early => ?_⟩
      rcases split tried low with rfl | later
      · exact ⟨meets, .head _⟩
      · exact ⟨(all tried later early).1, .tail _ (all tried later early).2⟩

end Search

end ProgPow

/-! ## The contract -/

section Contract

variable (sha256d : Bytes → Uint256) (progpow : ProgPow) (block : CBlockHeader) (startNonce maxIterations : UInt64)

/-- The hash a nonce gives the header. -/
def headerWork (nonce : UInt64) : ProgPowResult :=
  progpow.hash (getEpochNumber (castInt block.nHeight)) (castInt block.nHeight) (block.getPoWHeaderHash sha256d) nonce

/-- The nonce's final hash is at most the target. -/
def Solves (target : ArithUint256) (nonce : UInt64) : Prop :=
  ofBeBytes (headerWork sha256d progpow block nonce).finalHash.data ≤ target.toNat

/-- The nonces a call is to try. -/
def ToTry (nonce : UInt64) : Prop :=
  startNonce.toNat ≤ nonce.toNat ∧ nonce.toNat < startNonce.toNat + maxIterations.toNat

/-- What a caller relies on. -/
structure MineContract (target : ArithUint256) : Prop where
  found_iff : (mineBlock sha256d progpow block startNonce maxIterations).found = true ↔
    ∃ nonce, ToTry startNonce maxIterations nonce ∧ Solves sha256d progpow block target nonce
  smallest : (mineBlock sha256d progpow block startNonce maxIterations).found = true →
    ∃ nonce, ToTry startNonce maxIterations nonce ∧ Solves sha256d progpow block target nonce ∧
      (∀ earlier, ToTry startNonce maxIterations earlier → earlier < nonce →
        ¬ Solves sha256d progpow block target earlier) ∧
      (mineBlock sha256d progpow block startNonce maxIterations).block =
        { block with nNonce64 := nonce, mixHash := (headerWork sha256d progpow block nonce).mixHash } ∧
      (mineBlock sha256d progpow block startNonce maxIterations).maxIterations.toNat =
        maxIterations.toNat - (nonce.toNat - startNonce.toNat + 1)
  accepted : (mineBlock sha256d progpow block startNonce maxIterations).found = true →
    ∀ params : Params, target ≤ uintToArith256 params.powLimit → (checkProofOfWorkImpl (progpow.env sha256d)
        (mineBlock sha256d progpow block startNonce maxIterations).block block.nBits params).1 = true
  tried : (mineBlock sha256d progpow block startNonce maxIterations).found = false →
    ∀ nonce, ToTry startNonce maxIterations nonce →
      nonce ∈ (mineBlock sha256d progpow block startNonce maxIterations).tried

variable {sha256d progpow block startNonce maxIterations} {target : ArithUint256}

theorem meets_iff (nonce : UInt64) : progpow.Meets (getEpochNumber (castInt block.nHeight)) (castInt block.nHeight)
        (block.getPoWHeaderHash sha256d) (targetToBoundary target) nonce ↔
      Solves sha256d progpow block target nonce :=
  isLessOrEqual_targetToBoundary _ target

theorem checkProofOfWorkImpl_solved (derived : deriveTarget block.nBits maxPowLimit = some target)
    (solves : Solves sha256d progpow block target nonce) {params : Params}
    (within : target ≤ uintToArith256 params.powLimit) :
    (checkProofOfWorkImpl (progpow.env sha256d)
      { block with nNonce64 := nonce, mixHash := (headerWork sha256d progpow block nonce).mixHash }
      block.nBits params).1 = true :=
  (checkProofOfWorkImpl_of_derived (deriveTarget_of_le derived within)).mpr ⟨solves, rfl⟩

/-- A budget that wraps ends the range before its start, and nothing is tried. -/
theorem mineBlock_of_wraps (wraps : 2 ^ 64 ≤ startNonce.toNat + maxIterations.toNat) :
    (mineBlock sha256d progpow block startNonce maxIterations).found = false ∧
      (mineBlock sha256d progpow block startNonce maxIterations).tried = [] := by
  have wrapped : (startNonce + maxIterations).toNat - startNonce.toNat = 0 := by
    have startFits := startNonce.toNat_lt
    have budgetFits := maxIterations.toNat_lt
    rw [UInt64.toNat_add]
    omega
  unfold mineBlock
  split
  · exact ⟨rfl, rfl⟩
  · simp only [ProgPow.searchLight, wrapped, ProgPow.searchLoop, Bool.not_false, if_true]
    exact ⟨trivial, trivial⟩

theorem remaining_budget (toTry : ToTry startNonce maxIterations nonce) :
    (if nonce - startNonce + 1 < maxIterations then maxIterations - (nonce - startNonce + 1)
      else 0).toNat = maxIterations.toNat - (nonce.toNat - startNonce.toNat + 1) := by
  obtain ⟨above, below⟩ := toTry
  have budgetFits := maxIterations.toNat_lt
  have distance : (nonce - startNonce).toNat = nonce.toNat - startNonce.toNat :=
    UInt64.toNat_sub_of_le _ _ (UInt64.le_iff_toNat_le.mpr above)
  have consumed : (nonce - startNonce + 1).toNat = nonce.toNat - startNonce.toNat + 1 := by
    rw [UInt64.toNat_add, distance, UInt64.toNat_one, Nat.mod_eq_of_lt (by omega)]
  split
  · rename_i left
    rw [UInt64.toNat_sub_of_le _ _ (UInt64.le_of_lt left), consumed]
  rename_i spent
  rw [UInt64.lt_iff_toNat_lt, consumed] at spent
  rw [UInt64.toNat_zero]
  omega

theorem mineContract_of_fits (derived : deriveTarget block.nBits maxPowLimit = some target)
    (fits : startNonce.toNat + maxIterations.toNat < 2 ^ 64) :
    MineContract sha256d progpow block startNonce maxIterations target := by
  have ends : (startNonce + maxIterations).toNat = startNonce.toNat + maxIterations.toNat := by
    rw [UInt64.toNat_add, Nat.mod_eq_of_lt fits]
  have inRange : ∀ nonce, ToTry startNonce maxIterations nonce ↔
      startNonce.toNat ≤ nonce.toNat ∧ nonce < startNonce + maxIterations := by
    intro nonce
    rw [ToTry, UInt64.lt_iff_toNat_lt, ends]
  have searched := progpow.searchLoop_cases (getEpochNumber (castInt block.nHeight))
    (castInt block.nHeight) (block.getPoWHeaderHash sha256d) (targetToBoundary target)
    (show startNonce.toNat + ((startNonce + maxIterations).toNat - startNonce.toNat) =
      (startNonce + maxIterations).toNat by omega)
  rcases searched with ⟨nonce, above, below, meets, first, result⟩ | ⟨result, all⟩
  · have solves := (meets_iff nonce).mp meets
    obtain ⟨tried, mined⟩ : ∃ tried, mineBlock sha256d progpow block startNonce maxIterations =
        { found := true
          block := { block with
            nNonce64 := nonce, mixHash := (headerWork sha256d progpow block nonce).mixHash }
          maxIterations :=
            if nonce - startNonce + 1 < maxIterations then maxIterations - (nonce - startNonce + 1) else 0
          tried } := by
      simp only [mineBlock, derived, ProgPow.searchLight, result, ProgPow.solution, Bool.not_true,
        Bool.false_eq_true, if_false]
      exact ⟨_, rfl⟩
    have toTry : ToTry startNonce maxIterations nonce := (inRange nonce).mpr ⟨above, below⟩
    have found : (mineBlock sha256d progpow block startNonce maxIterations).found = true := by
      rw [mined]
    refine ⟨iff_of_true found ⟨nonce, toTry, solves⟩, fun _ => ?_, fun _ params within => ?_, ?_⟩
    · refine ⟨nonce, toTry, solves, fun earlier inside before solved => ?_, by rw [mined], ?_⟩
      · exact first earlier ((inRange earlier).mp inside).1 before ((meets_iff earlier).mpr solved)
      · rw [mined]
        exact remaining_budget toTry
    · rw [mined]
      exact checkProofOfWorkImpl_solved derived solves within
    · intro notFound
      rw [found] at notFound
      cases notFound
  · have mined : (mineBlock sha256d progpow block startNonce maxIterations).found = false ∧
        (mineBlock sha256d progpow block startNonce maxIterations).tried =
          (progpow.searchLight (getEpochNumber (castInt block.nHeight)) (castInt block.nHeight)
            (block.getPoWHeaderHash sha256d) (targetToBoundary target) startNonce maxIterations).2 := by
      simp only [mineBlock, derived, ProgPow.searchLight, result, Bool.not_false, if_true]
      exact ⟨trivial, trivial⟩
    have notFound := Bool.eq_false_iff.mp mined.1
    refine ⟨iff_of_false notFound ?_, fun found => absurd found notFound,
      fun found => absurd found notFound, fun _ nonce inside => ?_⟩
    · rintro ⟨nonce, inside, solves⟩
      obtain ⟨above, below⟩ := (inRange nonce).mp inside
      exact (all nonce above below).1 ((meets_iff nonce).mpr solves)
    · obtain ⟨above, below⟩ := (inRange nonce).mp inside
      rw [mined.2]
      exact (all nonce above below).2

/-- The contract holds exactly for the calls whose range does not pass the last nonce. -/
theorem mineContract_iff (derived : deriveTarget block.nBits maxPowLimit = some target) :
    MineContract sha256d progpow block startNonce maxIterations target ↔
      startNonce.toNat + maxIterations.toNat < 2 ^ 64 := by
  constructor
  · intro contract
    by_contra wraps
    obtain ⟨notFound, nothing⟩ := @mineBlock_of_wraps sha256d progpow block startNonce maxIterations (by omega)
    have startFits := startNonce.toNat_lt
    have missed := contract.tried notFound startNonce ⟨le_rfl, by omega⟩
    rw [nothing] at missed
    cases missed
  · exact mineContract_of_fits derived

end Contract

/-- A hash function whose work is always enough. -/
def easyWork : ProgPow := { hashMix := fun _ _ _ _ => .zero, hashFinal := fun _ _ _ => .zero }

/-- Only the ninth nonce has enough work. -/
def ninthWork : ProgPow :=
  { easyWork with hashFinal := fun _ nonce _ => if nonce = 8 then .zero else .ofNat (2 ^ 256 - 1) }

theorem mineContract_ninth :
    (mineBlock (fun _ => .zero) ninthWork (regtestParams fun _ => .zero).genesis 0 1000).block.nNonce64 = 8 ∧
      MineContract (fun _ => .zero) ninthWork (regtestParams fun _ => .zero).genesis 0 1000
        (setCompact 0x207fffff).value :=
  ⟨by decide +kernel, (mineContract_iff (by decide +kernel)).mpr (by decide)⟩

/-- The last range `bitcoin-util grind` can be given: the budget reaches the end of the nonces, and no
nonce is tried although each of them solves the header. -/
theorem grind_last_range_tries_nothing : deriveTarget (regtestParams fun _ => .zero).genesis.nBits maxPowLimit =
        some (setCompact 0x207fffff).value ∧
      ¬ MineContract (fun _ => .zero) easyWork (regtestParams fun _ => .zero).genesis
        0xffffffff00000001 0xffffffff (setCompact 0x207fffff).value := by
  refine ⟨by decide +kernel, fun contract => ?_⟩
  have missed := contract.found_iff.mpr ⟨0xffffffff00000001, ⟨by decide, by decide⟩, by rw [Solves]; decide +kernel⟩
  revert missed
  decide +kernel

end Sharecoin
