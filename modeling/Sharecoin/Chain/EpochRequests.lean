import Sharecoin.Chain.AcceptHeaderProperties

/-! Which ProgPoW epochs a message of headers makes a node build. The epoch comes
from the height a header declares, before its predecessor is looked up. -/

set_option autoImplicit false

namespace Sharecoin

open Lib

def maxHeight (blocks : BlockMap) : Int := (blocks.entries.map fun entry => entry.2.nHeight).foldl max 0

def messageEpochs (env : HashEnv) (params : Params) (minPowChecked : Bool) (now : Int)
    (headers : List CBlockHeader) (chainman : ChainstateManager) : List Int :=
  (processNewBlockHeaders env params minPowChecked now headers { chainman with epochs := [] }).2.epochs

/-- The epoch a header asks for: its own height decides it, and its target must decode. -/
def Requests (params : Params) (header : CBlockHeader) (epoch : Int) : Prop :=
  (deriveTarget header.nBits params.powLimit).isSome ∧ epoch = getEpochNumber (castInt header.nHeight)

section Requests

variable {env : HashEnv} {params : Params} {epoch : Int} {headers : List CBlockHeader}

theorem checkProofOfWork_requests {header : CBlockHeader}
    (requested : epoch ∈ (checkProofOfWork env header header.nBits params).2) : Requests params header epoch := by
  unfold checkProofOfWork checkProofOfWorkImpl at requested
  cases derived : deriveTarget header.nBits params.powLimit with
  | none => simp [derived] at requested
  | some target =>
    simp only [derived, List.mem_singleton] at requested
    exact ⟨by rw [derived]; rfl, requested⟩

theorem hasValidProofOfWork_requests (requested : epoch ∈ (hasValidProofOfWork env params headers).2) :
    ∃ header ∈ headers, Requests params header epoch := by
  induction headers with
  | nil => cases requested
  | cons header headers ih =>
    have first := @checkProofOfWork_requests env params epoch header
    rw [List.exists_mem_cons_iff]
    unfold hasValidProofOfWork at requested
    cases outcome : checkProofOfWork env header header.nBits params with
    | mk verified epochs =>
      rw [outcome] at first
      cases verified with
      | false =>
        simp only [outcome] at requested
        exact .inl (first requested)
      | true =>
        simp only [outcome, List.mem_append] at requested
        exact requested.imp first ih

theorem checkNewHeader_requests {input : HeaderInput} {blocks : BlockMap}
    (requested : epoch ∈ (checkNewHeader env params input blocks).2) : Requests params input.block epoch := by
  have asked : epoch ∈ (checkProofOfWork env input.block input.block.nBits params).2 := by
    unfold checkNewHeader checkBlockHeader at requested
    cases outcome : checkProofOfWork env input.block input.block.nBits params with
    | mk verified epochs =>
      cases verified with
      | false => simpa only [outcome] using requested
      | true =>
        simp only [outcome] at requested
        split at requested
        · exact requested
        · split at requested <;> exact requested
  exact checkProofOfWork_requests asked

theorem admitHeader_epochs (input : HeaderInput) (chainman : ChainstateManager) :
    (admitHeader env input chainman).2.epochs = chainman.epochs := by
  unfold admitHeader addToBlockIndex
  split
  · dsimp only
    split <;> rfl
  · rfl

theorem acceptBlockHeader_requests {input : HeaderInput} {chainman : ChainstateManager}
    (requested : epoch ∈ (acceptBlockHeader env params input chainman).2.epochs) :
    Requests params input.block epoch ∨ epoch ∈ chainman.epochs := by
  unfold acceptBlockHeader at requested
  by_cases isGenesis : input.block.getHash env.sha256d = params.hashGenesisBlock
  · rw [if_pos isGenesis, admitHeader_epochs] at requested
    exact .inr requested
  rw [if_neg isGenesis] at requested
  cases known : chainman.mBlockIndex.lookup (input.block.getHash env.sha256d) with
  | some pindex =>
    simp only [known] at requested
    split at requested <;> exact .inr requested
  | none =>
    have asked : epoch ∈ (checkNewHeader env params input chainman.mBlockIndex).2 ∨ epoch ∈ chainman.epochs := by
      cases checks : checkNewHeader env params input chainman.mBlockIndex with
      | mk outcome epochs =>
        cases outcome with
        | error error => simpa [known, checks] using requested
        | ok passed => simpa [known, checks, admitHeader_epochs] using requested
    exact asked.imp_left checkNewHeader_requests

theorem processNewBlockHeaders_requests {minPowChecked : Bool} {now : Int} {chainman : ChainstateManager}
    (requested : epoch ∈ (processNewBlockHeaders env params minPowChecked now headers chainman).2.epochs) :
    (∃ header ∈ headers, Requests params header epoch) ∨ epoch ∈ chainman.epochs := by
  induction headers generalizing chainman with
  | nil => exact .inr requested
  | cons header headers ih =>
    have step := @acceptBlockHeader_requests env params epoch ⟨header, minPowChecked, now⟩ chainman
    rw [List.exists_mem_cons_iff, or_right_comm]
    unfold processNewBlockHeaders at requested
    cases outcome : acceptBlockHeader env params ⟨header, minPowChecked, now⟩ chainman with
    | mk result after =>
      rw [outcome] at step
      cases result with
      | error error =>
        simp only [outcome] at requested
        exact .inl (step requested)
      | ok hash =>
        simp only [outcome] at requested
        rcases ih requested with later | earlier
        · exact .inr later
        · exact .inl (step earlier)

theorem getEpochNumber_eq (height : Int) :
    getEpochNumber height = if 0 ≤ height then height / 7500 else -(-height / 7500) := by
  unfold getEpochNumber epochLength
  split_ifs with other nonneg negative
  · exact Int.tdiv_eq_ediv_of_nonneg nonneg
  · rw [← Int.tdiv_eq_ediv_of_nonneg (by omega : 0 ≤ -height), Int.neg_tdiv, neg_neg]
  all_goals omega

/-- Division truncates, so the 7499 heights below zero have epoch 0 too. -/
theorem getEpochNumber_mem_iff {height last : Int} (nonneg : 0 ≤ last) :
    0 ≤ getEpochNumber height ∧ getEpochNumber height ≤ last ↔ -7500 < height ∧ height < 7500 * (last + 1) := by
  rw [getEpochNumber_eq]
  split <;> omega

theorem maxHeight_nonneg (blocks : BlockMap) : 0 ≤ maxHeight blocks :=
  List.foldlRecOn _ max le_rfl fun _ nonneg _ _ => le_max_of_le_left nonneg

end Requests

/-- Every epoch a message makes the node build is the epoch of the height some
header of the message declares. -/
theorem message_epochs_follow_declared_heights {env : HashEnv} {params : Params}
    {minPowChecked : Bool} {now : Int} {headers : List CBlockHeader} {chainman : ChainstateManager} {epoch : Int}
    (requested : epoch ∈ (hasValidProofOfWork env params headers).2 ∨
      epoch ∈ messageEpochs env params minPowChecked now headers chainman) :
    ∃ header ∈ headers, Requests params header epoch := by
  rcases requested with checked | accepted
  · exact hasValidProofOfWork_requests checked
  · rcases processNewBlockHeaders_requests accepted with found | impossible
    · exact found
    · cases impossible

/-- No epoch is beyond the heights the node knows and the headers of the message, whatever
the proofs of work are. `HasValidProofOfWork` gets a message as a whole and
`AcceptBlockHeader` header by header, so any part of it may be passed on. -/
def EpochsKnown (params : Params) (headers : List CBlockHeader) (chainman : ChainstateManager) : Prop :=
  ∀ part, part.Sublist headers → ∀ env minPowChecked now epoch,
    (epoch ∈ (hasValidProofOfWork env params part).2 ∨
      epoch ∈ messageEpochs env params minPowChecked now part chainman) →
    0 ≤ epoch ∧ epoch ≤ (maxHeight chainman.mBlockIndex + headers.length) / 7500

/-- Only the heights the headers declare keep the epochs in bounds, as those of the headers
whose bits decode: no check compares them with the chain. -/
theorem epochsKnown_iff (params : Params) (headers : List CBlockHeader) (chainman : ChainstateManager) :
    EpochsKnown params headers chainman ↔ ∀ header ∈ headers, (deriveTarget header.nBits params.powLimit).isSome →
      -7500 < castInt header.nHeight ∧ castInt header.nHeight <
        7500 * ((maxHeight chainman.mBlockIndex + headers.length) / 7500 + 1) := by
  have last : 0 ≤ (maxHeight chainman.mBlockIndex + headers.length) / 7500 := by
    have known := maxHeight_nonneg chainman.mBlockIndex
    omega
  constructor
  · intro known header member decodes
    obtain ⟨target, derived⟩ := Option.isSome_iff_exists.mp decodes
    refine (getEpochNumber_mem_iff last).mp (known [header] (List.singleton_sublist.mpr member)
      permissiveEnv true 0 _ (.inl ?_))
    simp [hasValidProofOfWork, checkProofOfWork, checkProofOfWorkImpl, derived, permissiveEnv]
  · intro bounded part within env minPowChecked now epoch requested
    obtain ⟨header, member, requests⟩ := message_epochs_follow_declared_heights requested
    rw [requests.2]
    exact (getEpochNumber_mem_iff last).mpr (bounded header (within.subset member) requests.1)

def tallHeader : CBlockHeader := { misnumberedHeader with nHeight := 0x7fffffff }

theorem tallHeader_epoch_exceeds_chain :
    maxHeight (genesisChainman permissiveEnv (regtestParams permissiveEnv.sha256d)).mBlockIndex = 0 ∧
      286331 ∈ (hasValidProofOfWork permissiveEnv (regtestParams permissiveEnv.sha256d).consensus [tallHeader]).2 ∧
      286331 ∈ messageEpochs permissiveEnv (regtestParams permissiveEnv.sha256d).consensus true 1296688603 [tallHeader]
        (genesisChainman permissiveEnv (regtestParams permissiveEnv.sha256d)) ∧
      ¬ ((286331 : Int) ≤ (0 + 1) / 7500) := by
  decide +kernel

end Sharecoin
