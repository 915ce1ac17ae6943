import Sharecoin.Coins.ViewProgram
import Sharecoin.Coins.ViewProperties

/-! What programs over a coins view do to the map the view stands for. -/

set_option autoImplicit false

namespace Sharecoin

open Lib Program CCoinsViewCache

/-! ## Operations -/

variable {coin : Coin} {possibleOverwrite : Bool} {done : Unit}

variable {here below : CoinMap} {layer : CCoinsViewCache}

variable {φ : Type} {view after : CCoinsView} {start : CoinMap} {deeper : List CoinMap} {outpoint : COutPoint}

theorem haveCoin_returns (represents : Represents view here deeper) (outpoint : COutPoint) :
    ∃ after, Returns (ViewM.haveCoin outpoint : ViewM φ Bool) view (here.lookup outpoint).isSome
      after ∧ Represents after here deeper := by
  obtain ⟨after, read, stands⟩ := haveCoin_spec represents outpoint
  exact ⟨after, returns_onState_iff.mpr read, stands⟩

theorem spendCoin_returns (represents : Represents view here (below :: deeper))
    (found : here.lookup outpoint = some coin) :
    ∃ after, Returns (ViewM.spendCoin outpoint : ViewM φ (Option Coin)) view (some coin) after ∧
      Represents after (here.erase outpoint) (below :: deeper) := by
  obtain ⟨moved, after, spent, taken, stands⟩ := spendCoin_spec represents outpoint
  rw [taken coin found] at spent
  exact ⟨after, returns_onState_iff.mpr spent, stands⟩

theorem returns_addCoin_iff :
    Returns (ViewM.addCoin outpoint coin possibleOverwrite : ViewM φ Unit) view done after ↔
      view.addCoin outpoint coin possibleOverwrite = .ok after := by
  rw [ViewM.addCoin, returns_change_iff]
  cases view.addCoin outpoint coin possibleOverwrite <;> simp

/-! ## Entries that hide a coin of the base view -/

variable {other : COutPoint} {added : CCoinsViewCache} {found : Bool}

namespace CCoinsViewCache

def cachesAt (layer : CCoinsViewCache) (outpoint : COutPoint) : Prop :=
  layer.cacheCoins.lookup outpoint ≠ none

section

variable (cached : layer.cachesAt outpoint)

include cached

theorem cachesAt_put (other : COutPoint) (entry : CCoinsCacheEntry) : (layer.put other entry).cachesAt outpoint := by
  by_cases same : outpoint = other
  · subst same
    rw [cachesAt, put, AList.lookup_insert]
    exact Option.some_ne_none entry
  · rw [cachesAt, put, AList.lookup_insert_ne same]
    exact cached

theorem cachesAt_erase (different : outpoint ≠ other) : (layer.erase other).cachesAt outpoint := by
  rw [cachesAt, erase, AList.lookup_erase_ne different]
  exact cached

theorem cachesAt_addCoin (ran : layer.addCoin other coin possibleOverwrite = .ok added) : added.cachesAt outpoint := by
  unfold addCoin at ran
  split at ran
  · cases ran
  split at ran
  · cases ran
    exact cached
  dsimp only at ran
  split at ran
  · cases ran
  · cases ran
    exact cachesAt_put cached other _

theorem cachesAt_fetchCoin {base : CCoinsView} {fromBase : Option Coin × CCoinsView} :
    (CCoinsView.fetchCoin layer base fromBase other).2.1.cachesAt outpoint := by
  unfold CCoinsView.fetchCoin
  split
  · exact cached
  · split
    · exact cachesAt_put cached other _
    · exact cached

end

end CCoinsViewCache

def CCoinsView.cachesAt (outpoint : COutPoint) : CCoinsView → Prop
  | .db _ => False
  | .cache layer _ => layer.cachesAt outpoint

/-! ## A view while a block is connected -/

/-- A view that stood for `start` when the work began and stands for `here` now. Every
coin of the base view that `start` does not show stays hidden by an entry, so a coin
added twice is noticed. -/
structure Working (start below : CoinMap) (deeper : List CoinMap) (view : CCoinsView)
    (here : CoinMap) : Prop where
  represents : Represents view here (below :: deeper)
  hidden : ∀ outpoint, start.lookup outpoint = none → below.lookup outpoint ≠ none → view.cachesAt outpoint

theorem addCoin_unspent (ran : layer.addCoin outpoint coin possibleOverwrite = .ok added) : coin.isSpent = false := by
  unfold addCoin at ran
  split at ran
  · cases ran
  · next unspent => exact Bool.eq_false_iff.mpr unspent

section

variable (overlays : Overlays layer below here)

include overlays

theorem Overlays.addCoin_eq (ran : layer.addCoin outpoint coin possibleOverwrite = .ok added)
    (admissible : possibleOverwrite = true ∨ here.lookup outpoint = none) :
    Overlays added below (plainAdd here outpoint coin) := by
  obtain ⟨expected, computed, overlaid⟩ := overlays.addCoin (addCoin_unspent ran) admissible
  rw [ran] at computed
  cases computed
  exact overlaid

theorem Overlays.absent_of_addCoin (hidden : below.lookup outpoint ≠ none → layer.cachesAt outpoint)
    (spendable : CScript.isUnspendable coin.out.scriptPubKey = false)
    (ran : layer.addCoin outpoint coin false = .ok added) : here.lookup outpoint = none := by
  unfold CCoinsViewCache.addCoin at ran
  rw [addCoin_unspent ran, spendable, if_neg Bool.false_ne_true, if_neg Bool.false_ne_true] at ran
  cases cached : layer.cacheCoins.lookup outpoint with
  | none =>
    rw [overlays.absent_eq cached]
    by_contra present
    exact hidden present cached
  | some entry =>
    rw [← overlays.unspentCoin_eq cached]
    apply unspentCoin_of_spent
    by_contra unspent
    dsimp only at ran
    rw [cached, Option.getD_some, Bool.eq_false_iff.mpr unspent] at ran
    cases ran

end

namespace Working

theorem begin (represents : Represents view start (below :: deeper)) : Working start below deeper view start := by
  refine ⟨represents, ?_⟩
  intro outpoint absent present
  cases represents with
  | cache overlays represents =>
    intro uncached
    rw [overlays.absent_eq uncached] at absent
    exact present absent

section

variable (working : Working start below deeper view here) {blockHash : Uint256}

include working

theorem step {next : CoinMap} (stands : Represents after next (below :: deeper))
    (kept : ∀ other, below.lookup other ≠ none → view.cachesAt other → after.cachesAt other) :
    Working start below deeper after next :=
  ⟨stands, fun other absent present => kept other present (working.hidden other absent present)⟩

theorem haveCoin (ran : Returns (ViewM.haveCoin outpoint : ViewM φ Bool) view found after) :
    found = (here.lookup outpoint).isSome ∧ Working start below deeper after here := by
  obtain ⟨reached, returned, stands⟩ := haveCoin_returns working.represents outpoint
  obtain ⟨same, rfl⟩ := returned.unique ran
  refine ⟨same, working.step stands fun other _ cached => ?_⟩
  cases working.represents with
  | cache overlays represents =>
    cases ran
    exact cachesAt_fetchCoin cached

theorem accessCoin (ran : Returns (ViewM.accessCoin outpoint : ViewM φ Coin) view coin after) :
    coin = (here.lookup outpoint).getD coinEmpty ∧ Working start below deeper after here := by
  obtain ⟨reached, read, stands⟩ := accessCoin_spec working.represents outpoint
  obtain ⟨same, rfl⟩ := (returns_onState_iff.mpr read).unique ran
  refine ⟨same, working.step stands fun other _ cached => ?_⟩
  cases working.represents with
  | cache overlays represents =>
    cases ran
    exact cachesAt_fetchCoin cached

theorem spendCoin {moved : Option Coin} (found : here.lookup outpoint = some coin)
    (ran : Returns (ViewM.spendCoin outpoint : ViewM φ (Option Coin)) view moved after) :
    moved = some coin ∧ Working start below deeper after (here.erase outpoint) := by
  obtain ⟨reached, returned, stands⟩ := spendCoin_returns working.represents found
  obtain ⟨same, rfl⟩ := returned.unique ran
  refine ⟨same, working.step stands fun other present cached => ?_⟩
  cases working.represents with
  | @cache layer base _ _ _ overlays represents =>
    obtain ⟨it, fetched, rest, fetch, overlaid, _, holds, missing⟩ :=
      fetchCoin_spec overlays represents (getCoin_spec represents outpoint)
    have kept : (CCoinsView.fetchCoin layer base (base.getCoin outpoint) outpoint).2.1.cachesAt
        other := cachesAt_fetchCoin cached
    rw [fetch] at kept
    have stepped := returns_onState_iff.mp ran
    rw [CCoinsView.spendCoin, fetch] at stepped
    cases it with
    | none =>
      rw [missing rfl] at found
      cases found
    | some entry =>
      cases stepped
      unfold spendEntry
      cases fresh : entry.fresh with
      | false => exact cachesAt_put kept _ _
      | true =>
        by_cases same : other = outpoint
        · subst same
          have dropped := (overlaid.tracks_of_found holds).remove
          simp only [CCoinsCacheEntry.slot, fresh, if_true] at dropped
          exact absurd dropped.absent_eq.symm present
        · exact cachesAt_erase kept same

theorem addCoin (absent : start.lookup outpoint = none)
    (ran : Returns (ViewM.addCoin outpoint coin possibleOverwrite : ViewM φ Unit) view done after) :
    Working start below deeper after (plainAdd here outpoint coin) ∧
      (possibleOverwrite = true ∨ CScript.isUnspendable coin.out.scriptPubKey = true ∨
        here.lookup outpoint = none) := by
  have added := returns_addCoin_iff.mp ran
  have stays := working.hidden outpoint absent
  cases working.represents with
  | @cache layer base _ _ _ overlays represents =>
    rw [CCoinsView.addCoin] at added
    split at added
    · cases added
    next topped layered =>
      cases added
      have allowed : possibleOverwrite = true ∨ CScript.isUnspendable coin.out.scriptPubKey = true ∨
          here.lookup outpoint = none := by
        cases possibleOverwrite with
        | true => exact .inl rfl
        | false =>
          cases spendable : CScript.isUnspendable coin.out.scriptPubKey with
          | true => exact .inr (.inl rfl)
          | false => exact .inr (.inr (overlays.absent_of_addCoin stays spendable layered))
      refine ⟨working.step ?_ fun other _ cached =>
        cachesAt_addCoin cached layered, allowed⟩
      refine .cache ?_ represents
      rcases allowed with overwrites | unspendable | nothing
      · exact overlays.addCoin_eq layered (.inl overwrites)
      · rw [plainAdd, if_pos unspendable]
        rw [addCoin, addCoin_unspent layered, if_neg Bool.false_ne_true, if_pos unspendable] at layered
        cases layered
        exact overlays
      · exact overlays.addCoin_eq layered (.inr nothing)

theorem getBestBlock (ran : Returns (ViewM.getBestBlock : ViewM φ Uint256) view blockHash after) :
    Working start below deeper after here := by
  cases ran
  refine working.step (getBestBlock_represents working.represents) fun other _ cached => ?_
  cases working.represents with
  | @cache layer base _ _ _ overlays represents =>
    unfold CCoinsView.getBestBlock
    split
    · exact cached
    · exact cached

theorem setBestBlock (ran : Returns (ViewM.setBestBlock blockHash : ViewM φ Unit) view done after) :
    Working start below deeper after here := by
  cases ran
  refine working.step (setBestBlock_represents working.represents blockHash) fun other _ cached => ?_
  cases working.represents with
  | cache overlays represents => exact cached

end

end Working

/-! ## Programs that only read -/

/-- Whatever the program returns, the view stands for the same map afterwards. -/
def ReadsOnly {φ α : Type} (program : ViewM φ α) : Prop :=
  ∀ ⦃start below : CoinMap⦄ ⦃deeper : List CoinMap⦄ ⦃view after : CCoinsView⦄ ⦃here : CoinMap⦄
    ⦃value : α⦄, Working start below deeper view here → Returns program view value after →
      Working start below deeper after here

namespace ReadsOnly

variable {α β : Type}

theorem pure (value : α) : ReadsOnly (Pure.pure value : ViewM φ α) := by
  intro start below deeper view after here value working ran
  obtain ⟨_, rfl⟩ := returns_pure_iff.mp ran
  exact working

theorem bind {first : ViewM φ α} {next : α → ViewM φ β} (reads : ReadsOnly first)
    (continues : ∀ value, ReadsOnly (next value)) : ReadsOnly (first >>= next) := by
  intro start below deeper view after here value working ran
  obtain ⟨found, middle, began, ended⟩ := returns_bind_iff.mp ran
  exact continues found (reads working began) ended

theorem throw (failure : φ) : ReadsOnly (MonadExcept.throw failure : ViewM φ α) := by
  intro start below deeper view after here value working ran
  exact absurd ran not_returns_throw

theorem insist (holds : Bool) (error : Abort) : ReadsOnly (Program.insist holds error : ViewM φ Unit) := by
  intro start below deeper view after here value working ran
  obtain ⟨_, rfl⟩ := returns_insist_iff.mp ran
  exact working

theorem accessCoin (outpoint : COutPoint) : ReadsOnly (ViewM.accessCoin outpoint : ViewM φ Coin) := by
  intro start below deeper view after here value working ran
  exact (working.accessCoin ran).2

theorem spentOutputs (vin : List CTxIn) : ReadsOnly (ViewM.spentOutputs vin : ViewM φ (List CTxOut)) := by
  induction vin with
  | nil => exact pure []
  | cons txin vin ih =>
    exact bind (accessCoin _) fun coin => bind (insist _ _) fun _ => bind ih fun _ => pure _

end ReadsOnly

/-! ## Inputs and outputs of a transaction -/

namespace Working

theorem haveAll {vin : List CTxIn} (working : Working start below deeper view here)
    (ran : Returns (ViewM.haveAll vin : ViewM φ Bool) view found after) :
    Working start below deeper after here ∧ (found = true → ∀ txin ∈ vin, here.lookup txin.prevout ≠ none) := by
  induction vin generalizing view with
  | nil =>
    obtain ⟨_, rfl⟩ := returns_pure_iff.mp ran
    exact ⟨working, fun _ => List.forall_mem_nil _⟩
  | cons txin vin ih =>
    obtain ⟨present, middle, looked, continued⟩ := returns_bind_iff.mp ran
    obtain ⟨known, working⟩ := working.haveCoin looked
    cases present with
    | false =>
      obtain ⟨rfl, rfl⟩ := returns_pure_iff.mp continued
      exact ⟨working, nofun⟩
    | true =>
      obtain ⟨working, others⟩ := ih working continued
      exact ⟨working, fun complete =>
        List.forall_mem_cons.mpr ⟨Option.isSome_iff_ne_none.mp known.symm, others complete⟩⟩

end Working

end Sharecoin
