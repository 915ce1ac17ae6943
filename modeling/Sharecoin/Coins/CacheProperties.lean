import Mathlib.Data.Finmap
import Sharecoin.Coins.Cache
import Sharecoin.Lib.WriteBack

/-! What one `CCoinsViewCache` layer makes of the map below it, and what every
operation on the layer, and writing it back to its parent, does to the two maps. -/

set_option autoImplicit false

namespace Sharecoin

open Lib CCoinsViewCache CCoinsCacheEntry CCoinsView

abbrev CoinMap := Finmap fun _ : COutPoint => Coin

/-! ## One layer -/

/-- An entry as a slot of a write-back cache; a spent coin is a removed value. -/
def CCoinsCacheEntry.slot (entry : CCoinsCacheEntry) : Slot Coin :=
  ⟨unspentCoin entry, entry.dirty, entry.fresh⟩

def CCoinsViewCache.slot (layer : CCoinsViewCache) (outpoint : COutPoint) : Option (Slot Coin) :=
  (layer.cacheCoins.lookup outpoint).map CCoinsCacheEntry.slot

/-- What the entry at an outpoint adds to the count of dirty ones. -/
def CCoinsViewCache.weightAt (layer : CCoinsViewCache) (outpoint : COutPoint) : Nat :=
  ((layer.cacheCoins.lookup outpoint).getD {}).dirtyWeight

/-- A layer over a view that stands for `below` makes it stand for `here`. The list
holds the dirty entries, each once, and is counted; spent entries are cleared. -/
structure Overlays (layer : CCoinsViewCache) (below here : CoinMap) : Prop where
  nodup : layer.mSentinel.Nodup
  listed : ∀ outpoint, outpoint ∈ layer.mSentinel ↔
    ∃ entry, layer.cacheCoins.lookup outpoint = some entry ∧ entry.dirty = true
  counted : layer.mDirtyCount = layer.mSentinel.length
  emptied : ∀ outpoint entry, layer.cacheCoins.lookup outpoint = some entry →
    entry.coin.isSpent = true → entry.coin = coinEmpty
  tracks : ∀ outpoint, Tracks (layer.slot outpoint) (below.lookup outpoint) (here.lookup outpoint)

variable {entry child : CCoinsCacheEntry} {layer : CCoinsViewCache} {below here after : CoinMap}
  {outpoint : COutPoint} {coin : Coin}

def plainAdd (coins : CoinMap) (outpoint : COutPoint) (coin : Coin) : CoinMap :=
  if CScript.isUnspendable coin.out.scriptPubKey then coins else coins.insert outpoint coin

theorem unspentCoin_of_spent (spent : entry.coin.isSpent = true) : unspentCoin entry = none := if_pos spent

theorem unspentCoin_of_unspent (unspent : entry.coin.isSpent = false) : unspentCoin entry = some entry.coin := by
  rw [unspentCoin, unspent]
  rfl

theorem unspentCoin_isNone : (unspentCoin entry).isNone = entry.coin.isSpent := by
  cases spent : entry.coin.isSpent <;> simp [unspentCoin, spent]

theorem unspentCoin_isSome : (unspentCoin entry).isSome = !entry.coin.isSpent := by
  rw [← unspentCoin_isNone, Option.not_isNone]

theorem unspentCoin_eq_none_iff : unspentCoin entry = none ↔ entry.coin.isSpent = true := by
  rw [← unspentCoin_isNone, Option.isNone_iff_eq_none]

namespace Overlays

theorem slot_of_absent (absent : layer.cacheCoins.lookup outpoint = none) : layer.slot outpoint = none := by
  rw [CCoinsViewCache.slot, absent, Option.map_none]

section Found

variable (found : layer.cacheCoins.lookup outpoint = some entry)

include found

theorem slot_of_found : layer.slot outpoint = some entry.slot := by
  rw [CCoinsViewCache.slot, found, Option.map_some]

theorem weightAt_of_found : layer.weightAt outpoint = entry.dirtyWeight := by
  rw [weightAt, found, Option.getD_some]

variable (overlays : Overlays layer below here)

include overlays

theorem tracks_of_found : Tracks (some entry.slot) (below.lookup outpoint) (here.lookup outpoint) :=
  slot_of_found found ▸ overlays.tracks outpoint

theorem unspentCoin_eq : unspentCoin entry = here.lookup outpoint :=
  (overlays.tracks_of_found found).value_eq

theorem dirty_of_fresh (fresh : entry.fresh = true) : entry.dirty = true :=
  (overlays.tracks_of_found found).dirty_of_fresh fresh

end Found

section

variable (overlays : Overlays layer below here) {base : CoinMap}

include overlays

theorem absent_eq (absent : layer.cacheCoins.lookup outpoint = none) :
    here.lookup outpoint = below.lookup outpoint := by
  have tracks := overlays.tracks outpoint
  rw [slot_of_absent absent] at tracks
  exact tracks.absent_eq

theorem flagged_iff : (layer.cacheCoins.lookup outpoint).any flagged = true ↔
      outpoint ∈ layer.mSentinel := by
  rw [overlays.listed]
  cases found : layer.cacheCoins.lookup outpoint with
  | none => simp
  | some entry =>
    have dirty := overlays.dirty_of_fresh found
    simp only [Option.any_some, flagged, Bool.or_eq_true, Option.some.injEq, exists_eq_left']
    constructor
    · rintro (isDirty | isFresh)
      · exact isDirty
      · exact dirty isFresh
    · exact .inl

theorem weightAt_eq : layer.weightAt outpoint = if outpoint ∈ layer.mSentinel then 1 else 0 := by
  simp only [weightAt, overlays.listed]
  cases layer.cacheCoins.lookup outpoint with
  | none => simp [dirtyWeight]
  | some entry => simp [dirtyWeight]

theorem weightAt_le : layer.weightAt outpoint ≤ layer.mDirtyCount := by
  rw [overlays.weightAt_eq, overlays.counted]
  split
  · next listed => exact List.length_pos_of_mem listed
  · exact Nat.zero_le _

theorem dirtyWeight_le (found : layer.cacheCoins.lookup outpoint = some entry) :
    entry.dirtyWeight ≤ layer.mDirtyCount :=
  weightAt_of_found found ▸ overlays.weightAt_le

theorem change {changed : CCoinsViewCache} {entry : Option CCoinsCacheEntry}
    (own : changed.cacheCoins.lookup outpoint = entry)
    (others : ∀ other, other ≠ outpoint → changed.cacheCoins.lookup other = layer.cacheCoins.lookup other ∧
        base.lookup other = below.lookup other ∧ after.lookup other = here.lookup other)
    (nodup : changed.mSentinel.Nodup)
    (listed : ∀ other, other ∈ changed.mSentinel ↔
      if other = outpoint then entry.any CCoinsCacheEntry.dirty = true else other ∈ layer.mSentinel)
    (counted : changed.mDirtyCount = changed.mSentinel.length)
    (emptied : ∀ stored, entry = some stored → stored.coin.isSpent = true → stored.coin = coinEmpty)
    (tracks : Tracks (entry.map CCoinsCacheEntry.slot) (base.lookup outpoint)
      (after.lookup outpoint)) : Overlays changed base after := by
  refine ⟨nodup, fun other => ?_, counted, fun other stored found spent => ?_, fun other => ?_⟩
  · rw [listed other]
    split
    · next same => rw [same, own, Option.any_eq_true]
    · next different => rw [(others other different).1, overlays.listed]
  · by_cases same : other = outpoint
    · subst same
      exact emptied stored (own.symm.trans found) spent
    · exact overlays.emptied other stored ((others other same).1.symm.trans found) spent
  by_cases same : other = outpoint
  · subst same
    rw [CCoinsViewCache.slot, own]
    exact tracks
  · obtain ⟨kept, sameBase, sameAfter⟩ := others other same
    rw [CCoinsViewCache.slot, kept, sameBase, sameAfter]
    exact overlays.tracks other

theorem put_mSentinel (dirty : entry.dirty = true) : (layer.put outpoint entry).mSentinel =
      if outpoint ∈ layer.mSentinel then layer.mSentinel else layer.mSentinel ++ [outpoint] := by
  by_cases listed : outpoint ∈ layer.mSentinel
  · have flagged := overlays.flagged_iff.mpr listed
    simp [put, flagged, listed]
  have unflagged : (layer.cacheCoins.lookup outpoint).any flagged = false := by
    rw [Bool.eq_false_iff]
    exact fun flagged => listed (overlays.flagged_iff.mp flagged)
  simp [put, unflagged, listed, flagged, dirty]

variable {count : Nat}

theorem put (dirty : entry.dirty = true) (emptied : entry.coin.isSpent = true → entry.coin = coinEmpty)
    (own : Tracks (some entry.slot) (below.lookup outpoint) (after.lookup outpoint))
    (others : ∀ other, other ≠ outpoint → after.lookup other = here.lookup other)
    (counts : count + layer.weightAt outpoint = layer.mDirtyCount + 1) :
    Overlays { layer.put outpoint entry with mDirtyCount := count } below after := by
  have sentinel : (layer.put outpoint entry).mSentinel = _ := overlays.put_mSentinel dirty
  rw [overlays.weightAt_eq, overlays.counted] at counts
  refine overlays.change (AList.lookup_insert _)
    (fun other different => ⟨AList.lookup_insert_ne different, rfl, others other different⟩)
    ?_ (fun other => ?_) ?_ (fun _ same => by cases same; exact emptied) own
  all_goals dsimp only; rw [sentinel]; split
  · exact overlays.nodup
  · next unlisted =>
      rw [← List.concat_eq_append]
      exact List.Nodup.concat unlisted overlays.nodup
  · next listed =>
      split
      · next same => simp [same, listed, dirty]
      · rfl
  · by_cases same : other = outpoint <;> simp [same, dirty]
  · next listed =>
      rw [if_pos listed] at counts
      omega
  · next unlisted =>
      rw [if_neg unlisted] at counts
      rw [List.length_append, List.length_singleton]
      omega

theorem putFetched (absent : layer.cacheCoins.lookup outpoint = none)
    (found : below.lookup outpoint = some coin) (unspent : coin.isSpent = false) :
    Overlays (layer.put outpoint { coin }) below here := by
  have sentinel : (layer.put outpoint { coin }).mSentinel = layer.mSentinel := by
    simp [CCoinsViewCache.put, CCoinsCacheEntry.flagged]
  have unlisted : outpoint ∉ layer.mSentinel := by
    rw [overlays.listed, absent]
    simp
  refine overlays.change (AList.lookup_insert _) (fun other different => ⟨AList.lookup_insert_ne different, rfl, rfl⟩)
    (sentinel ▸ overlays.nodup) (fun other => ?_) (sentinel ▸ overlays.counted)
    (fun _ same spent => ?_) ?_
  · rw [sentinel]
    split
    · next same => simp [same, unlisted]
    · rfl
  · cases same
    rw [unspent] at spent
    cases spent
  have miss := overlays.tracks outpoint
  rw [slot_of_absent absent, found] at miss
  rw [found, Option.map_some, CCoinsCacheEntry.slot, unspentCoin_of_unspent unspent]
  exact miss.fetch

theorem erase_listed {entry : Option CCoinsCacheEntry} (clean : entry.any dirty = false) (other : COutPoint) :
    other ∈ layer.mSentinel.erase outpoint ↔ if other = outpoint then
      entry.any dirty = true else other ∈ layer.mSentinel := by
  rw [overlays.nodup.mem_erase_iff]
  split <;> simp [*]

section

variable (counts : count + layer.weightAt outpoint = layer.mDirtyCount)

include counts

theorem erase_length : count = (layer.mSentinel.erase outpoint).length := by
  rw [overlays.weightAt_eq, overlays.counted] at counts
  by_cases listed : outpoint ∈ layer.mSentinel
  · rw [if_pos listed] at counts
    rw [List.length_erase_of_mem listed]
    omega
  · rw [if_neg listed] at counts
    rw [List.erase_of_not_mem listed]
    exact counts

theorem erase (own : after.lookup outpoint = base.lookup outpoint) (others : ∀ other, other ≠ outpoint →
      base.lookup other = below.lookup other ∧ after.lookup other = here.lookup other) :
    Overlays { layer.erase outpoint with mDirtyCount := count } base after :=
  overlays.change (AList.lookup_erase _ _)
    (fun other different => ⟨AList.lookup_erase_ne different, others other different⟩)
    (overlays.nodup.erase _) (overlays.erase_listed rfl) (overlays.erase_length counts)
    (nofun) (own ▸ .absent _)

theorem setClean (found : layer.cacheCoins.lookup outpoint = some entry) (unspent : entry.coin.isSpent = false)
    (own : base.lookup outpoint = here.lookup outpoint)
    (others : ∀ other, other ≠ outpoint → base.lookup other = below.lookup other) : Overlays { layer with
        cacheCoins := layer.cacheCoins.insert outpoint { coin := entry.coin }
        mSentinel := layer.mSentinel.erase outpoint
        mDirtyCount := count }
      base here := by
  refine overlays.change (AList.lookup_insert _)
    (fun other different => ⟨AList.lookup_insert_ne different, others other different, rfl⟩)
    (overlays.nodup.erase _) (overlays.erase_listed rfl) (overlays.erase_length counts)
    (fun _ same spent => ?_) ?_
  · cases same
    exact absurd spent (Bool.eq_false_iff.mp unspent)
  have content := overlays.unspentCoin_eq found
  have cleaned : CCoinsView.unspentCoin { coin := entry.coin } = some entry.coin := unspentCoin_of_unspent unspent
  rw [unspentCoin_of_unspent unspent] at content
  rw [own, ← content, Option.map_some, CCoinsCacheEntry.slot, cleaned]
  exact .clean entry.coin

end

/-! ## Operations of a layer -/

theorem addCoin {possibleOverwrite : Bool} (unspent : coin.isSpent = false)
    (admissible : possibleOverwrite = true ∨ here.lookup outpoint = none) :
    ∃ added, layer.addCoin outpoint coin possibleOverwrite = .ok added ∧
      Overlays added below (plainAdd here outpoint coin) := by
  unfold CCoinsViewCache.addCoin plainAdd
  rw [unspent, if_neg Bool.false_ne_true]
  split
  · exact ⟨layer, rfl, overlays⟩
  have flags : (layer.slot outpoint).elim false Slot.fresh = ((layer.cacheCoins.lookup outpoint).getD {}).fresh ∧
      (layer.slot outpoint).elim false Slot.dirty = ((layer.cacheCoins.lookup outpoint).getD {}).dirty := by
    rw [CCoinsViewCache.slot]
    cases layer.cacheCoins.lookup outpoint <;> exact ⟨rfl, rfl⟩
  have free : (!possibleOverwrite && !((layer.cacheCoins.lookup outpoint).getD {}).coin.isSpent) = false := by
    rcases admissible with rfl | nothing
    · rfl
    cases found : layer.cacheCoins.lookup outpoint with
    | none => simp [show coinEmpty.isSpent = true from rfl]
    | some entry =>
      have spent := unspentCoin_eq_none_iff.mp ((overlays.unspentCoin_eq found).trans nothing)
      simp [spent]
  have tracks := (overlays.tracks outpoint).add coin admissible
  rw [flags.1, flags.2] at tracks
  dsimp only
  rw [free, if_neg Bool.false_ne_true]
  refine ⟨_, rfl, overlays.put rfl ?_ ?_ ?_ ?_⟩
  · intro spent
    rw [unspent] at spent
    cases spent
  · rw [Finmap.lookup_insert, CCoinsCacheEntry.slot, unspentCoin_of_unspent unspent]
    exact tracks
  · intro other different
    exact Finmap.lookup_insert_of_ne here different
  · have bound : layer.weightAt outpoint ≤ layer.mDirtyCount := overlays.weightAt_le
    rw [CCoinsViewCache.weightAt] at bound ⊢
    omega

theorem spendEntry (found : layer.cacheCoins.lookup outpoint = some entry) :
    Overlays (layer.spendEntry outpoint entry) below (here.erase outpoint) := by
  have tracks := (overlays.tracks_of_found found).remove
  have bound := overlays.dirtyWeight_le found
  have others (other : COutPoint) (different : other ≠ outpoint) :
      (here.erase outpoint).lookup other = here.lookup other := Finmap.lookup_erase_ne different
  unfold CCoinsViewCache.spendEntry
  cases fresh : entry.fresh with
  | true =>
    have nothing : below.lookup outpoint = none := by
      simp only [CCoinsCacheEntry.slot, fresh, if_true] at tracks
      exact tracks.absent_eq.symm
    refine overlays.erase ?_ ?_ fun other different => ⟨rfl, others other different⟩
    · rw [weightAt_of_found found]
      omega
    · rw [Finmap.lookup_erase, nothing]
  | false =>
    simp only [CCoinsCacheEntry.slot, fresh] at tracks
    refine overlays.put rfl (fun _ => rfl) ?_ others ?_
    · rw [Finmap.lookup_erase]
      exact tracks
    · rw [weightAt_of_found found]
      omega

theorem uncache : Overlays (layer.uncache outpoint) below here := by
  unfold CCoinsViewCache.uncache
  cases found : layer.cacheCoins.lookup outpoint with
  | none => exact overlays
  | some entry =>
    cases dirty : entry.dirty with
    | true => simpa [dirty] using overlays
    | false =>
      simp only [dirty, Bool.false_eq_true, if_false]
      have counts : layer.mDirtyCount + layer.weightAt outpoint = layer.mDirtyCount := by
        rw [weightAt_of_found found, CCoinsCacheEntry.dirtyWeight, dirty]
        rfl
      exact overlays.erase counts ((overlays.tracks_of_found found).clean_eq dirty) fun _ _ => ⟨rfl, rfl⟩

end

end Overlays

/-! ## Writing a layer back -/

structure Writes (below here : CoinMap) (outpoint : COutPoint) (child : CCoinsCacheEntry) :
    Prop where
  dirty : child.dirty = true
  emptied : child.coin.isSpent = true → child.coin = coinEmpty
  tracks : Tracks (some child.slot) (below.lookup outpoint) (here.lookup outpoint)

namespace Overlays

variable {deeper : CoinMap} (overlays : Overlays layer deeper below) (writes : Writes below here outpoint child)
  (own : after.lookup outpoint = here.lookup outpoint)
  (others : ∀ other, other ≠ outpoint → after.lookup other = below.lookup other)

include overlays writes own others

theorem writeEntry : ∃ written, layer.writeEntry outpoint child = .ok written ∧ Overlays written deeper after := by
  obtain ⟨merged, merges, tracks⟩ := (overlays.tracks outpoint).write_back writes.tracks writes.dirty
  rw [← own] at tracks
  simp only [CCoinsViewCache.writeEntry, writes.dirty, Bool.not_true, Bool.false_eq_true, if_false]
  cases found : layer.cacheCoins.lookup outpoint with
  | none =>
    rw [slot_of_absent found, Tracks.merge, CCoinsCacheEntry.slot, unspentCoin_isNone] at merges
    dsimp only
    split at merges
    next dropped =>
      cases merges
      have same : after = below := by
        apply Finmap.ext_lookup
        intro other
        by_cases here : other = outpoint
        · subst here
          rw [tracks.absent_eq, overlays.absent_eq found]
        · exact others other here
      rw [if_pos dropped, same]
      exact ⟨layer, rfl, overlays⟩
    next stored =>
      cases merges
      rw [if_neg stored]
      refine ⟨_, rfl, overlays.put rfl writes.emptied tracks others ?_⟩
      rw [CCoinsViewCache.weightAt, found]
      rfl
  | some us =>
    have bound := overlays.dirtyWeight_le found
    rw [slot_of_found found, Tracks.merge, CCoinsCacheEntry.slot, CCoinsCacheEntry.slot,
      unspentCoin_isNone, unspentCoin_isSome] at merges
    dsimp only
    split at merges
    · cases merges
    next applied =>
      rw [if_neg applied]
      split at merges
      next dropped =>
        cases merges
        rw [if_pos dropped]
        refine ⟨_, rfl, overlays.erase ?_ tracks.absent_eq fun other different => ⟨rfl, others other different⟩⟩
        rw [weightAt_of_found found]
        omega
      next stored =>
        cases merges
        rw [if_neg stored]
        refine ⟨_, rfl, overlays.put rfl writes.emptied tracks others ?_⟩
        rw [weightAt_of_found found, CCoinsCacheEntry.dirtyWeight]
        split <;> rfl

end Overlays

def setCoin (coins : CoinMap) (outpoint : COutPoint) : Option Coin → CoinMap
  | some coin => coins.insert outpoint coin
  | none => coins.erase outpoint

theorem lookup_setCoin (coins : CoinMap) (outpoint : COutPoint) (content : Option Coin) :
    (setCoin coins outpoint content).lookup outpoint = content := by
  cases content with
  | some coin => exact Finmap.lookup_insert coins
  | none => exact Finmap.lookup_erase outpoint coins

theorem lookup_setCoin_ne (coins : CoinMap) {other : COutPoint} (different : other ≠ outpoint)
    (content : Option Coin) : (setCoin coins outpoint content).lookup other = coins.lookup other := by
  cases content with
  | some coin => exact Finmap.lookup_insert_of_ne coins different
  | none => exact Finmap.lookup_erase_ne different

/-- A batch of entries with distinct outpoints, each written by a child that stands
for `here` over a view that stands for `below`. -/
structure Batch (below here : CoinMap) (entries : List (COutPoint × CCoinsCacheEntry)) : Prop where
  distinct : (entries.map Prod.fst).Nodup
  writes : ∀ record ∈ entries, Writes below here record.1 record.2

def WrittenBack (below here after : CoinMap) (entries : List (COutPoint × CCoinsCacheEntry)) :
    Prop :=
  ∀ outpoint, after.lookup outpoint =
    if outpoint ∈ entries.map Prod.fst then here.lookup outpoint else below.lookup outpoint

variable {entries : List (COutPoint × CCoinsCacheEntry)}

theorem Batch.tail (batch : Batch below here ((outpoint, child) :: entries)) :
    Batch (setCoin below outpoint (here.lookup outpoint)) here entries := by
  have distinct := List.nodup_cons.mp batch.distinct
  refine ⟨distinct.2, ?_⟩
  intro record member
  have different : record.1 ≠ outpoint := by
    intro same
    have repeated := List.mem_map_of_mem member (f := Prod.fst)
    rw [same] at repeated
    exact distinct.1 repeated
  obtain ⟨dirty, emptied, tracks⟩ := batch.writes record (.tail _ member)
  exact ⟨dirty, emptied, lookup_setCoin_ne below different _ ▸ tracks⟩

theorem WrittenBack.tail (written : WrittenBack below here after ((outpoint, child) :: entries)) :
    WrittenBack (setCoin below outpoint (here.lookup outpoint)) here after entries := by
  intro other
  rw [written other]
  by_cases same : other = outpoint
  · subst same
    have first : other ∈ ((other, child) :: entries).map Prod.fst := (.head _)
    rw [lookup_setCoin, if_pos first, ite_self]
  have rest : other ∈ ((outpoint, child) :: entries).map Prod.fst ↔ other ∈ entries.map Prod.fst := by simp [same]
  rw [lookup_setCoin_ne below same]
  by_cases member : other ∈ entries.map Prod.fst
  · rw [if_pos member, if_pos (rest.mpr member)]
  · rw [if_neg member, if_neg (fun listed => member (rest.mp listed))]

theorem WrittenBack.nil_eq (written : WrittenBack below here after []) : after = below := by
  apply Finmap.ext_lookup
  intro outpoint
  rw [written outpoint]
  rfl

theorem Overlays.writeEntries {deeper : CoinMap} (overlays : Overlays layer deeper below) (batch : Batch below here entries)
    (written : WrittenBack below here after entries) :
    ∃ result, CCoinsViewCache.writeEntries entries layer = .ok result ∧ Overlays result deeper after := by
  induction entries generalizing layer below with
  | nil =>
    rw [written.nil_eq]
    exact ⟨layer, rfl, overlays⟩
  | cons record entries ih =>
    obtain ⟨outpoint, child⟩ := record
    obtain ⟨step, wrote, next⟩ := overlays.writeEntry (batch.writes (outpoint, child) (.head _))
      (lookup_setCoin below outpoint (here.lookup outpoint))
      (fun other different => lookup_setCoin_ne below different _)
    obtain ⟨result, rest, final⟩ := ih next batch.tail written.tail
    refine ⟨result, ?_, final⟩
    rw [CCoinsViewCache.writeEntries, wrote]
    exact rest

theorem CoinsDB.writeEntry_coins (db : CoinsDB) (stands : db.coins.toFinmap = below)
    (writes : Writes below here outpoint child) :
    (db.writeEntry outpoint child).coins.toFinmap = setCoin below outpoint (here.lookup outpoint) := by
  have content : unspentCoin child = here.lookup outpoint := writes.tracks.value_eq
  rw [← content, ← stands]
  by_cases spent : child.coin.isSpent = true
  · rw [unspentCoin_of_spent spent]
    simp [CoinsDB.writeEntry, writes.dirty, spent, setCoin]
  · rw [unspentCoin_of_unspent (Bool.eq_false_iff.mpr spent)]
    simp [CoinsDB.writeEntry, writes.dirty, spent, setCoin]

theorem CoinsDB.writeEntries_coins {db : CoinsDB} (stands : db.coins.toFinmap = below) (batch : Batch below here entries)
    (written : WrittenBack below here after entries) :
    (entries.foldl (fun db entry => db.writeEntry entry.1 entry.2) db).coins.toFinmap =
      after := by
  induction entries generalizing db below with
  | nil =>
    rw [written.nil_eq]
    exact stands
  | cons record entries ih =>
    obtain ⟨outpoint, child⟩ := record
    have wrote := db.writeEntry_coins stands (batch.writes (outpoint, child) (.head _))
    exact ih wrote batch.tail written.tail

/-! ## Flush and sync -/

namespace Overlays

theorem empty (blockHash : Uint256) (here : CoinMap) : Overlays { mBlockHash := blockHash } here here where
  nodup := List.nodup_nil
  listed outpoint := by simp
  counted := rfl
  emptied outpoint entry found := by
    rw [AList.lookup_empty] at found
    cases found
  tracks outpoint := .absent (here.lookup outpoint)

theorem foldl_dirtyWeight (dirty : ∀ record ∈ entries, record.2.dirty = true) (count : Nat) :
    entries.foldl (fun count entry => count - entry.2.dirtyWeight) count =
      count - entries.length := by
  induction entries generalizing count with
  | nil => rfl
  | cons record entries ih =>
    rw [List.foldl_cons, ih (List.forall_mem_cons.mp dirty).2,
      dirtyWeight, dirty record (.head _), List.length_cons]
    simp only [if_true]
    omega

section

variable (overlays : Overlays layer below here)

include overlays

theorem cursor_keys : layer.cursor.map Prod.fst = layer.mSentinel := by
  have present : ∀ outpoint ∈ layer.mSentinel,
      ((layer.cacheCoins.lookup outpoint).map (outpoint, ·)).map Prod.fst = some outpoint := by
    intro outpoint listed
    obtain ⟨entry, found, _⟩ := (overlays.listed outpoint).mp listed
    rw [found]
    rfl
  rw [cursor, List.map_filterMap]
  calc layer.mSentinel.filterMap (fun outpoint =>
        ((layer.cacheCoins.lookup outpoint).map (outpoint, ·)).map Prod.fst)
      = layer.mSentinel.filterMap some := List.filterMap_congr present
    _ = layer.mSentinel := List.filterMap_some

theorem mem_cursor {record : COutPoint × CCoinsCacheEntry} (member : record ∈ layer.cursor) :
    layer.cacheCoins.lookup record.1 = some record.2 ∧ record.2.dirty = true := by
  obtain ⟨outpoint, listed, found⟩ := List.mem_filterMap.mp member
  obtain ⟨entry, lookup, same⟩ := Option.map_eq_some_iff.mp found
  subst same
  obtain ⟨stored, storedFound, dirty⟩ := (overlays.listed outpoint).mp listed
  rw [lookup] at storedFound
  cases storedFound
  exact ⟨lookup, dirty⟩

theorem cursor_batch : Batch below here layer.cursor := by
  refine ⟨overlays.cursor_keys ▸ overlays.nodup, ?_⟩
  intro record member
  obtain ⟨found, dirty⟩ := overlays.mem_cursor member
  exact ⟨dirty, overlays.emptied record.1 record.2 found, overlays.tracks_of_found found⟩

theorem unlisted_eq (unlisted : outpoint ∉ layer.mSentinel) : here.lookup outpoint = below.lookup outpoint := by
  cases found : layer.cacheCoins.lookup outpoint with
  | none => exact overlays.absent_eq found
  | some entry =>
    apply (overlays.tracks_of_found found).clean_eq
    apply Bool.eq_false_iff.mpr
    intro dirty
    exact unlisted ((overlays.listed outpoint).mpr ⟨entry, found, dirty⟩)

theorem cursor_writtenBack : WrittenBack below here here layer.cursor := by
  intro outpoint
  rw [overlays.cursor_keys]
  split
  · rfl
  · next unlisted => exact overlays.unlisted_eq unlisted

theorem cleared : Overlays layer.cleared here here := by
  have keys := congrArg List.length overlays.cursor_keys
  rw [List.length_map] at keys
  have count : layer.cleared.mDirtyCount = 0 := by
    rw [CCoinsViewCache.cleared]
    dsimp only
    rw [foldl_dirtyWeight (fun record member => (overlays.mem_cursor member).2), keys,
      overlays.counted, Nat.sub_self]
  have same : layer.cleared = { mBlockHash := layer.mBlockHash } := by
    rw [CCoinsViewCache.cleared] at count ⊢
    dsimp only at count
    rw [count]
  rw [same]
  exact empty layer.mBlockHash here

theorem nextAndMaybeErase (listed : outpoint ∈ layer.mSentinel) :
    Overlays (layer.nextAndMaybeErase outpoint) (setCoin below outpoint (here.lookup outpoint)) here ∧
      (layer.nextAndMaybeErase outpoint).mSentinel = layer.mSentinel.erase outpoint := by
  obtain ⟨entry, found, _⟩ := (overlays.listed outpoint).mp listed
  have counts : layer.mDirtyCount - entry.dirtyWeight + layer.weightAt outpoint =
      layer.mDirtyCount := by
    have bound := overlays.dirtyWeight_le found
    rw [weightAt_of_found found]
    omega
  have own := lookup_setCoin below outpoint (here.lookup outpoint)
  have others (other : COutPoint) (different : other ≠ outpoint) :=
    lookup_setCoin_ne below different (here.lookup outpoint)
  unfold CCoinsViewCache.nextAndMaybeErase
  rw [found]
  cases spent : entry.coin.isSpent with
  | true =>
    simp only [spent, if_true]
    exact ⟨overlays.erase counts own.symm fun other different => ⟨others other different, rfl⟩, rfl⟩
  | false =>
    simp only [spent, Bool.false_eq_true, if_false]
    exact ⟨overlays.setClean counts found spent own others, trivial⟩

theorem settled (sentinel : List COutPoint) (listed : layer.mSentinel = sentinel) :
    Overlays (sentinel.foldl CCoinsViewCache.nextAndMaybeErase layer) here here ∧
      (sentinel.foldl CCoinsViewCache.nextAndMaybeErase layer).mSentinel = [] := by
  induction sentinel generalizing layer below with
  | nil =>
    have same : here = below := by
      apply Finmap.ext_lookup
      intro outpoint
      apply overlays.unlisted_eq
      rw [listed]
      exact List.not_mem_nil
    subst same
    exact ⟨overlays, listed⟩
  | cons outpoint sentinel ih =>
    have member : outpoint ∈ layer.mSentinel := listed ▸ (.head _)
    obtain ⟨next, rest⟩ := overlays.nextAndMaybeErase member
    apply ih next
    rw [rest, listed, List.erase_cons_head]

/-! ## The sanity check -/

theorem dirty_keys : ((layer.cacheCoins.entries.filter fun record => record.2.dirty).map Sigma.fst).Perm
      layer.mSentinel := by
  refine (List.perm_ext_iff_of_nodup (layer.cacheCoins.nodupKeys.sublist List.filter_sublist)
    overlays.nodup).mpr fun outpoint => ?_
  rw [overlays.listed, List.mem_keys]
  refine exists_congr fun entry => ?_
  rw [List.mem_filter, ← AList.mem_lookup_iff, Option.mem_def]

/-- Layers in use pass the source's own consistency check. -/
theorem sanityCheck : layer.sanityCheck = true := by
  have entries : layer.cacheCoins.entries.all (fun record =>
      if record.2.coin.isSpent then record.2.dirty && !record.2.fresh
      else record.2.dirty || !record.2.fresh) = true := by
    rw [List.all_eq_true]
    intro record member
    have found : layer.cacheCoins.lookup record.1 = some record.2 := AList.mem_lookup_iff.mpr member
    cases spent : record.2.coin.isSpent with
    | true =>
      obtain ⟨dirty, stale⟩ : record.2.dirty = true ∧ record.2.fresh = false :=
        (overlays.tracks_of_found found).removed_flags (unspentCoin_of_spent spent)
      simp [dirty, stale]
    | false =>
      cases fresh : record.2.fresh with
      | true => simp [overlays.dirty_of_fresh found fresh]
      | false => simp
  have list : layer.mSentinel.all (fun outpoint =>
      (layer.cacheCoins.lookup outpoint).any CCoinsCacheEntry.dirty) = true := by
    rw [List.all_eq_true]
    intro outpoint listed
    obtain ⟨entry, found, dirty⟩ := (overlays.listed outpoint).mp listed
    rw [found, Option.any_some, dirty]
  have count : (layer.cacheCoins.entries.countP fun record => record.2.dirty) =
      layer.mSentinel.length := by
    rw [List.countP_eq_length_filter, ← overlays.dirty_keys.length_eq, List.length_map]
  simp [CCoinsViewCache.sanityCheck, entries, list, count, overlays.counted]

end

end Overlays

end Sharecoin
