import Sharecoin.Coins.CacheProperties

/-! Which maps a stack of coins views stands for, and what the operations of
`CCoinsViewCache` do to them. Reading fills caches on the way down but changes no
map. -/

set_option autoImplicit false

namespace Sharecoin

open Lib CCoinsView

/-- A view stands for the map `here`, and the views below it, from the nearest to the
bottom, for the maps `deeper`. -/
inductive Represents : CCoinsView → CoinMap → List CoinMap → Prop where
  | db (base : CoinsDB) : Represents (.db base) base.coins.toFinmap []
  | cache {layer : CCoinsViewCache} {base : CCoinsView} {below here : CoinMap}
      {deeper : List CoinMap} (overlays : Overlays layer below here)
      (represents : Represents base below deeper) :
      Represents (.cache layer base) here (below :: deeper)

variable {view : CCoinsView} {here below : CoinMap} {deeper : List CoinMap}

variable {outpoint : COutPoint} {coin : Coin}

theorem Represents.unspent (represents : Represents view here deeper)
    (found : here.lookup outpoint = some coin) : coin.isSpent = false := by
  induction represents with
  | db base => exact base.unspent outpoint coin found
  | @cache layer base below here deeper overlays _ ih =>
    cases cached : layer.cacheCoins.lookup outpoint with
    | none =>
      rw [overlays.absent_eq cached] at found
      exact ih found
    | some entry =>
      have content := overlays.unspentCoin_eq cached
      rw [found, unspentCoin] at content
      split at content
      · cases content
      · next unspent =>
          cases content
          exact Bool.eq_false_iff.mpr unspent

/-! ## Reading -/

variable {layer : CCoinsViewCache} {base : CCoinsView}

/-- The entry a fetch returns is the cached one, and there is none only where the view
has no coin. -/
theorem fetchCoin_spec {answer : Option Coin × CCoinsView} (overlays : Overlays layer below here)
    (represents : Represents base below deeper)
    (answers : ∃ answered, answer = (below.lookup outpoint, answered) ∧ Represents answered below deeper) :
    ∃ it fetched rest, fetchCoin layer base answer outpoint = (it, fetched, rest) ∧
        Overlays fetched below here ∧ Represents rest below deeper ∧
        fetched.cacheCoins.lookup outpoint = it ∧
        (it = none → here.lookup outpoint = none) := by
  obtain ⟨answered, rfl, answers⟩ := answers
  unfold fetchCoin
  cases cached : layer.cacheCoins.lookup outpoint with
  | some entry =>
    refine ⟨some entry, layer, base, rfl, overlays, represents, cached, ?_⟩
    intro nothing
    cases nothing
  | none =>
    cases found : below.lookup outpoint with
    | some coin =>
      refine ⟨_, _, answered, rfl, overlays.putFetched cached found (answers.unspent found),
        answers, AList.lookup_insert _, ?_⟩
      intro nothing
      cases nothing
    | none =>
      refine ⟨none, layer, answered, rfl, overlays, answers, cached, fun _ => ?_⟩
      rw [overlays.absent_eq cached, found]

section

variable (represents : Represents view here deeper)

include represents

theorem getCoin_spec (outpoint : COutPoint) :
    ∃ after, view.getCoin outpoint = (here.lookup outpoint, after) ∧ Represents after here deeper := by
  induction represents with
  | db base => exact ⟨.db base, rfl, .db base⟩
  | @cache layer base below here deeper overlays represents ih =>
    obtain ⟨it, fetched, rest, fetch, overlaid, stands, cached, missing⟩ := fetchCoin_spec overlays represents ih
    refine ⟨.cache fetched rest, ?_, .cache overlaid stands⟩
    rw [getCoin, fetch]
    cases it with
    | none =>
      rw [missing rfl]
      rfl
    | some entry =>
      rw [← overlaid.unspentCoin_eq cached]
      rfl

theorem Represents.unique {other : CoinMap} {others : List CoinMap} (also : Represents view other others) :
    here = other := by
  apply Finmap.ext_lookup
  intro outpoint
  obtain ⟨_, read, _⟩ := getCoin_spec represents outpoint
  obtain ⟨_, again, _⟩ := getCoin_spec also outpoint
  rw [read] at again
  exact congrArg Prod.fst again

theorem haveCoin_spec (outpoint : COutPoint) :
    ∃ after, view.haveCoin outpoint = ((here.lookup outpoint).isSome, after) ∧ Represents after here deeper := by
  obtain ⟨after, read, stands⟩ := getCoin_spec represents outpoint
  refine ⟨after, ?_, stands⟩
  rw [haveCoin, read]

end

theorem Overlays.coin_eq (overlays : Overlays layer below here) {entry : CCoinsCacheEntry}
    (cached : layer.cacheCoins.lookup outpoint = some entry) :
    entry.coin = (here.lookup outpoint).getD coinEmpty := by
  have content := overlays.unspentCoin_eq cached
  rw [← content, unspentCoin]
  split
  · next spent => exact overlays.emptied outpoint entry cached spent
  · rfl

theorem accessCoin_spec (represents : Represents view here deeper) (outpoint : COutPoint) :
    ∃ after, view.accessCoin outpoint = ((here.lookup outpoint).getD coinEmpty, after) ∧
      Represents after here deeper := by
  cases represents with
  | db base => exact ⟨.db base, rfl, .db base⟩
  | cache overlays represents =>
    obtain ⟨it, fetched, rest, fetch, overlaid, stands, cached, missing⟩ :=
      fetchCoin_spec overlays represents (getCoin_spec represents outpoint)
    refine ⟨.cache fetched rest, ?_, .cache overlaid stands⟩
    rw [accessCoin, fetch]
    cases it with
    | none =>
      rw [missing rfl]
      rfl
    | some entry =>
      rw [← overlaid.coin_eq cached]
      rfl

/-! ## Changing the top layer -/

theorem addCoin_spec (represents : Represents view here (below :: deeper)) {possibleOverwrite : Bool}
    (unspent : coin.isSpent = false) (admissible : possibleOverwrite = true ∨ here.lookup outpoint = none) :
    ∃ after, view.addCoin outpoint coin possibleOverwrite = .ok after ∧
      Represents after (plainAdd here outpoint coin) (below :: deeper) := by
  cases represents with
  | cache overlays represents =>
    obtain ⟨added, ran, overlaid⟩ := overlays.addCoin unspent admissible
    refine ⟨.cache added _, ?_, .cache overlaid represents⟩
    rw [addCoin, ran]

theorem spendCoin_spec (represents : Represents view here (below :: deeper)) (outpoint : COutPoint) :
    ∃ moved after, view.spendCoin outpoint = (moved, after) ∧
      (∀ coin, here.lookup outpoint = some coin → moved = some coin) ∧
      Represents after (here.erase outpoint) (below :: deeper) := by
  cases represents with
  | cache overlays represents =>
    obtain ⟨it, fetched, rest, fetch, overlaid, stands, cached, missing⟩ :=
      fetchCoin_spec overlays represents (getCoin_spec represents outpoint)
    rw [spendCoin, fetch]
    cases it with
    | none =>
      have nothing := missing rfl
      have same : here.erase outpoint = here := by
        apply Finmap.ext_lookup
        intro other
        by_cases own : other = outpoint
        · rw [own, Finmap.lookup_erase, nothing]
        · exact Finmap.lookup_erase_ne own
      refine ⟨none, .cache fetched rest, rfl, ?_, ?_⟩
      · intro coin found
        rw [nothing] at found
        cases found
      · rw [same]
        exact .cache overlaid stands
    | some entry =>
      have content := overlaid.coin_eq cached
      refine ⟨some entry.coin, .cache (fetched.spendEntry outpoint entry) rest, rfl, ?_,
        .cache (overlaid.spendEntry cached) stands⟩
      intro coin found
      rw [content, found, Option.getD_some]

theorem uncache_spec (represents : Represents view here deeper) (outpoint : COutPoint) :
    Represents (view.uncache outpoint) here deeper := by
  cases represents with
  | db base => exact .db base
  | cache overlays represents => exact .cache overlays.uncache represents

/-! ## Writing back -/

/-- The assertion of the database that a block is named ended the call. -/
def Stopped {α : Type} (isDatabase : Bool) (outcome : Except CoinsError α) : Prop :=
  isDatabase = true ∧ outcome = .error .nullBlockHash

theorem not_stopped {α : Type} (outcome : Except CoinsError α) : ¬ Stopped false outcome :=
  fun stopped => Bool.false_ne_true stopped.1

theorem batchWrite_spec (isDatabase : Bool) (blockHash : Uint256) (overlays : Overlays layer below here)
    (represents : Represents base below deeper) :
    Stopped isDatabase (base.batchWrite layer.cursor blockHash isDatabase) ∨
      ∃ written, base.batchWrite layer.cursor blockHash isDatabase = .ok written ∧ Represents written here deeper := by
  have batch := overlays.cursor_batch
  have writtenBack := overlays.cursor_writtenBack
  cases represents with
  | db base =>
    have coins := CoinsDB.writeEntries_coins rfl batch writtenBack
    by_cases stops : (isDatabase && blockHash.isNull) = true
    · exact .inl ⟨(Bool.and_eq_true_iff.mp stops).1, if_pos stops⟩
    · refine .inr ⟨_, if_neg stops, ?_⟩
      subst coins
      exact .db _
  | cache parent represents =>
    obtain ⟨result, ran, overlaid⟩ := parent.writeEntries batch writtenBack
    refine .inr ⟨.cache { result with mBlockHash := blockHash } _, ?_, .cache ?_ represents⟩
    · rw [batchWrite, ran]
    · exact ⟨overlaid.nodup, overlaid.listed, overlaid.counted, overlaid.emptied, overlaid.tracks⟩

section

variable (represents : Represents view here (below :: deeper))

include represents

theorem flush_spec (isDatabase : Bool) : Stopped isDatabase (view.flush isDatabase) ∨
    ∃ flushed, view.flush isDatabase = .ok flushed ∧ Represents flushed here (here :: deeper) := by
  cases represents with
  | @cache layer base _ _ _ overlays represents =>
    rw [flush]
    rcases batchWrite_spec isDatabase layer.mBlockHash overlays represents with stopped | ⟨written, wrote, stands⟩
    · exact .inl ⟨stopped.1, by rw [stopped.2]⟩
    · exact .inr ⟨.cache layer.cleared written, by rw [wrote], .cache overlays.cleared stands⟩

theorem sync_spec (isDatabase : Bool) : Stopped isDatabase (view.sync isDatabase) ∨
    ∃ synced, view.sync isDatabase = .ok synced ∧ Represents synced here (here :: deeper) := by
  cases represents with
  | @cache layer base _ _ _ overlays represents =>
    rw [sync]
    rcases batchWrite_spec isDatabase layer.mBlockHash overlays represents with stopped | ⟨written, wrote, stands⟩
    · exact .inl ⟨stopped.1, by rw [stopped.2]⟩
    obtain ⟨overlaid, unflagged⟩ := overlays.settled layer.mSentinel rfl
    refine .inr ⟨.cache (layer.mSentinel.foldl CCoinsViewCache.nextAndMaybeErase layer) written, ?_,
      .cache overlaid stands⟩
    rw [wrote]
    simp only [unflagged, List.isEmpty_nil, if_true]

theorem reset_spec : Represents view.reset below (below :: deeper) := by
  cases represents with
  | cache overlays represents => exact .cache (.empty .zero below) represents

end

/-! ## Best block -/

theorem getBestBlock_represents (represents : Represents view here deeper) :
    Represents view.getBestBlock.2 here deeper := by
  induction represents with
  | db base => exact .db base
  | @cache layer base below here deeper overlays represents ih =>
    unfold getBestBlock
    split
    · exact .cache ⟨overlays.nodup, overlays.listed, overlays.counted, overlays.emptied, overlays.tracks⟩ ih
    · exact .cache overlays represents

theorem setBestBlock_represents (represents : Represents view here deeper) (blockHash : Uint256) :
    Represents (view.setBestBlock blockHash) here deeper := by
  cases represents with
  | db base => exact .db base
  | cache overlays represents =>
    exact .cache ⟨overlays.nodup, overlays.listed, overlays.counted, overlays.emptied, overlays.tracks⟩ represents

end Sharecoin
