import Sharecoin.Node.TxOrphanage

/-! The counters and indexes of the orphanage are at all times those of its announcements.
Each is stated for a list of announcements up to order, so that removing or changing one
announcement is a step at the head of the list. -/

set_option autoImplicit false

namespace Sharecoin

open Lib TxOrphanage Announcement

variable {sha256d : Bytes → Uint256} {wtxid : Uint256} {outpoint : COutPoint}

/-! ## What the announcements amount to -/

def recountPeer (anns : List (Announcement sha256d)) (peer : NodeId) : PeerDoSInfo :=
  { totalUsage := totalOf announcer getMemUsage anns peer
    countAnnouncements := totalOf announcer (fun _ => 1) anns peer
    totalLatencyScore := totalOf announcer getLatencyScore anns peer }

/-- An announced transaction with this wtxid spends the outpoint. -/
def OrphanSpends (anns : List (Announcement sha256d)) (outpoint : COutPoint) (wtxid : Uint256) : Prop :=
  ∃ ann ∈ anns, ann.tx.witnessHash = wtxid ∧ outpoint ∈ ann.tx.tx.vin.map CTxIn.prevout

def Reconsiders (anns : List (Announcement sha256d)) (wtxid : Uint256) : Prop :=
  ∃ ann ∈ anns, ann.reconsider = true ∧ ann.tx.witnessHash = wtxid

/-- No set of the index is empty or holds a wtxid twice. -/
def Filled (index : AList fun _ : COutPoint => List Uint256) : Prop :=
  ∀ outpoint wtxids, index.lookup outpoint = some wtxids → wtxids ≠ [] ∧ wtxids.Nodup

/-- Announcements as the orphanage keeps them: one of each transaction by each peer, of
which at most one is to be reconsidered, with the transactions told apart by wtxid. -/
structure Announced (anns : List (Announcement sha256d)) : Prop where
  keys : (anns.map byWtxid).Nodup
  single : ∀ left ∈ anns, ∀ right ∈ anns, left.reconsider = true → right.reconsider = true →
    left.tx.witnessHash = right.tx.witnessHash → left.announcer = right.announcer
  apart : ∀ left ∈ anns, ∀ right ∈ anns, left.tx.witnessHash = right.tx.witnessHash → left.tx = right.tx

/-- The counters and indexes are those of the announcements. -/
structure Tallies (anns : List (Announcement sha256d)) (orphanage : TxOrphanage sha256d) : Prop where
  unique : orphanage.uniqueOrphans = distinctTotal tx (fun _ => 1) anns
  usage : orphanage.uniqueOrphanUsage =
    distinctTotal tx (fun tx => (getTransactionWeight tx.tx : Int)) anns
  rounded : orphanage.uniqueRoundedInputScores = distinctTotal tx (fun tx => tx.tx.vin.length / 10) anns
  peers : ∀ peer, orphanage.peerOrphanageInfo.lookup peer =
    if (recountPeer anns peer).countAnnouncements = 0 then none else some (recountPeer anns peer)
  references : ∀ outpoint wtxid,
    wtxid ∈ (orphanage.outpointToOrphanWtxids.lookup outpoint).getD [] ↔ OrphanSpends anns outpoint wtxid
  filled : Filled orphanage.outpointToOrphanWtxids
  reconsiderable : ∀ wtxid, wtxid ∈ orphanage.reconsiderableWtxids ↔ Reconsiders anns wtxid
  reconsiderable_nodup : orphanage.reconsiderableWtxids.Nodup

structure TxOrphanage.Consistent (orphanage : TxOrphanage sha256d) : Prop where
  announced : Announced orphanage.orphans
  tallies : Tallies orphanage.orphans orphanage

theorem consistent_empty : ({} : TxOrphanage sha256d).Consistent where
  announced := ⟨List.nodup_nil, by simp, by simp⟩
  tallies :=
    { unique := rfl
      usage := rfl
      rounded := rfl
      peers := fun _ => rfl
      references := by simp [OrphanSpends]
      filled := by simp [Filled]
      reconsiderable := by simp [Reconsiders]
      reconsiderable_nodup := List.nodup_nil }

variable {anns : List (Announcement sha256d)} {ann : Announcement sha256d} {orphanage : TxOrphanage sha256d}

/-! ## Order does not matter -/

section Perm

variable {others : List (Announcement sha256d)}

theorem Announced.of_subset (announced : Announced anns) (keys : (others.map byWtxid).Nodup)
    (among : ∀ ann ∈ others, ann ∈ anns) : Announced others where
  keys := keys
  single left inLeft right inRight := announced.single left (among left inLeft) right (among right inRight)
  apart left inLeft right inRight := announced.apart left (among left inLeft) right (among right inRight)

variable (order : anns.Perm others)

include order

theorem Announced.perm (announced : Announced anns) : Announced others :=
  announced.of_subset ((order.map _).nodup_iff.mp announced.keys) fun _ => order.mem_iff.mpr

theorem recountPeer_perm (peer : NodeId) : recountPeer anns peer = recountPeer others peer := by
  simp only [recountPeer, totalOf_perm order]

theorem orphanSpends_perm :
    OrphanSpends anns outpoint wtxid ↔ OrphanSpends others outpoint wtxid := by
  simp only [OrphanSpends, order.mem_iff]

theorem reconsiders_perm : Reconsiders anns wtxid ↔ Reconsiders others wtxid := by
  simp only [Reconsiders, order.mem_iff]

theorem Tallies.perm (tallies : Tallies anns orphanage) : Tallies others orphanage where
  unique := tallies.unique.trans (distinctTotal_perm order)
  usage := tallies.usage.trans (distinctTotal_perm order)
  rounded := tallies.rounded.trans (distinctTotal_perm order)
  peers peer := by
    rw [← recountPeer_perm order]
    exact tallies.peers peer
  references outpoint wtxid := (tallies.references outpoint wtxid).trans (orphanSpends_perm order)
  filled := tallies.filled
  reconsiderable wtxid := (tallies.reconsiderable wtxid).trans (reconsiders_perm order)
  reconsiderable_nodup := tallies.reconsiderable_nodup

end Perm

/-! ## One announcement more or less -/

theorem Announced.tail (announced : Announced (ann :: anns)) : Announced anns :=
  announced.of_subset (List.nodup_cons.mp announced.keys).2 fun _ => .tail _

theorem forall_pairs_cons {α : Type} {relates : α → α → Prop} {item : α} {items : List α} (own : relates item item)
    (ahead : ∀ other ∈ items, relates item other) (behind : ∀ other ∈ items, relates other item)
    (rest : ∀ left ∈ items, ∀ right ∈ items, relates left right) :
    ∀ left ∈ item :: items, ∀ right ∈ item :: items, relates left right := by
  intro left inLeft right inRight
  rcases List.mem_cons.mp inLeft with same | inLeft <;>
    rcases List.mem_cons.mp inRight with same' | inRight
  · exact same ▸ same' ▸ own
  · exact same ▸ ahead right inRight
  · exact same' ▸ behind left inLeft
  · exact rest left inLeft right inRight

theorem Announced.nodup (announced : Announced anns) : anns.Nodup :=
  List.Nodup.of_map _ announced.keys

theorem Announced.tx_mem_iff (announced : Announced (ann :: anns)) :
    ann.tx ∈ anns.map tx ↔ ∃ other ∈ anns, other.tx.witnessHash = ann.tx.witnessHash := by
  constructor
  · intro member
    obtain ⟨other, inside, same⟩ := List.mem_map.mp member
    exact ⟨other, inside, by rw [same]⟩
  · rintro ⟨other, inside, same⟩
    rw [List.mem_map]
    exact ⟨other, inside, announced.apart other (.tail _ inside) ann (.head _) same⟩

theorem recountPeer_cons (ann : Announcement sha256d) (anns : List (Announcement sha256d)) (peer : NodeId) :
    recountPeer (ann :: anns) peer =
      if ann.announcer = peer then (recountPeer anns peer).add ann else recountPeer anns peer := by
  simp only [recountPeer, totalOf_cons, PeerDoSInfo.add]
  split
  · simp only [PeerDoSInfo.mk.injEq]
    omega
  · simp

theorem PeerDoSInfo.subtract_add (info : PeerDoSInfo) (ann : Announcement sha256d) :
    (info.add ann).subtract ann = info := by
  simp [PeerDoSInfo.add, PeerDoSInfo.subtract]

theorem orphanSpends_cons : OrphanSpends (ann :: anns) outpoint wtxid ↔
      (ann.tx.witnessHash = wtxid ∧ outpoint ∈ ann.tx.tx.vin.map CTxIn.prevout) ∨ OrphanSpends anns outpoint wtxid := by
  simp only [OrphanSpends, List.mem_cons, exists_eq_or_imp]

theorem orphanSpends_cons_of_known (known : ann.tx ∈ anns.map tx) :
    OrphanSpends (ann :: anns) outpoint wtxid ↔ OrphanSpends anns outpoint wtxid := by
  rw [orphanSpends_cons, or_iff_right_of_imp]
  rintro ⟨rfl, spent⟩
  obtain ⟨other, inside, same⟩ := List.mem_map.mp known
  exact ⟨other, inside, by rw [same], by rwa [same]⟩

theorem reconsiders_cons : Reconsiders (ann :: anns) wtxid ↔
      (ann.reconsider = true ∧ ann.tx.witnessHash = wtxid) ∨ Reconsiders anns wtxid := by
  simp only [Reconsiders, List.mem_cons, exists_eq_or_imp]

/-! ## The index by outpoint -/

section References

variable {index : AList fun _ : COutPoint => List Uint256} {wtxid other : Uint256}
  {prevout : COutPoint} {prevouts : List COutPoint}

section

variable (filled : Filled index)

include filled

theorem Filled.erase : Filled (index.erase prevout) := by
  intro outpoint kept known
  by_cases same : outpoint = prevout
  · rw [same, AList.lookup_erase] at known
    cases known
  · rw [AList.lookup_erase_ne same] at known
    exact filled outpoint kept known

theorem Filled.insert {wtxids : List Uint256} (some : wtxids ≠ []) (nodup : wtxids.Nodup) :
    Filled (index.insert prevout wtxids) := by
  intro outpoint kept known
  by_cases same : outpoint = prevout
  · rw [same, AList.lookup_insert] at known
    cases known
    exact ⟨some, nodup⟩
  · rw [AList.lookup_insert_ne same] at known
    exact filled outpoint kept known

theorem filled_eraseReference (wtxid : Uint256) (prevout : COutPoint) :
    Filled (eraseReference wtxid index prevout) := by
  unfold eraseReference
  cases found : index.lookup prevout with
  | none => exact filled
  | some wtxids =>
    dsimp only
    by_cases emptied : (wtxids.erase wtxid).isEmpty = true
    · rw [if_pos emptied]
      exact filled.erase
    · rw [if_neg emptied]
      exact filled.insert (fun empty => emptied (List.isEmpty_iff.mpr empty)) ((filled prevout wtxids found).2.erase _)

theorem mem_eraseReference :
    other ∈ ((eraseReference wtxid index prevout).lookup outpoint).getD [] ↔
      other ∈ (index.lookup outpoint).getD [] ∧ ¬ (wtxid = other ∧ outpoint = prevout) := by
  unfold eraseReference
  cases found : index.lookup prevout with
  | none =>
    by_cases same : outpoint = prevout
    · subst same
      simp [found]
    · simp [same]
  | some wtxids =>
    have nodup := (filled prevout wtxids found).2
    dsimp only
    by_cases same : outpoint = prevout
    · subst same
      by_cases emptied : (wtxids.erase wtxid).isEmpty = true
      · have none : ¬ (other ≠ wtxid ∧ other ∈ wtxids) := by
          rw [← nodup.mem_erase_iff, List.isEmpty_iff.mp emptied]
          exact List.not_mem_nil
        rw [if_pos emptied, AList.lookup_erase, found]
        simp only [Option.getD_none, List.not_mem_nil, Option.getD_some, and_true, false_iff]
        exact fun inside => none ⟨fun same => inside.2 same.symm, inside.1⟩
      · rw [if_neg emptied, AList.lookup_insert, found]
        simp only [Option.getD_some, nodup.mem_erase_iff, and_true, ne_eq, eq_comm]
        exact and_comm
    · simp only [same, and_false, not_false_eq_true, and_true]
      split
      · rw [AList.lookup_erase_ne same]
      · rw [AList.lookup_insert_ne same]

theorem filled_eraseReferences (wtxid : Uint256) (prevouts : List COutPoint) :
    Filled (prevouts.foldl (eraseReference wtxid) index) :=
  List.foldlRecOn _ _ filled fun _ kept prevout _ => filled_eraseReference kept wtxid prevout

theorem mem_eraseReferences :
    other ∈ ((prevouts.foldl (eraseReference wtxid) index).lookup outpoint).getD [] ↔
      other ∈ (index.lookup outpoint).getD [] ∧ ¬ (wtxid = other ∧ outpoint ∈ prevouts) := by
  induction prevouts generalizing index with
  | nil => simp
  | cons prevout prevouts ih =>
    rw [List.foldl_cons, ih (filled_eraseReference filled wtxid prevout), mem_eraseReference filled, List.mem_cons]
    tauto

theorem filled_addReference (wtxid : Uint256) (prevout : COutPoint) : Filled (addReference wtxid index prevout) := by
  refine filled.insert (List.ne_nil_of_mem List.mem_insert_self) (List.Nodup.insert ?_)
  cases found : index.lookup prevout with
  | none => exact List.nodup_nil
  | some wtxids => exact (filled prevout wtxids found).2

end

theorem mem_addReference : other ∈ ((addReference wtxid index prevout).lookup outpoint).getD [] ↔
      (wtxid = other ∧ outpoint = prevout) ∨ other ∈ (index.lookup outpoint).getD [] := by
  unfold addReference
  by_cases same : outpoint = prevout
  · subst same
    rw [AList.lookup_insert]
    simp [eq_comm]
  · rw [AList.lookup_insert_ne same]
    simp [same]

theorem filled_addReferences (filled : Filled index) (wtxid : Uint256) (prevouts : List COutPoint) :
    Filled (prevouts.foldl (addReference wtxid) index) :=
  List.foldlRecOn _ _ filled fun _ kept prevout _ => filled_addReference kept wtxid prevout

theorem mem_addReferences :
    other ∈ ((prevouts.foldl (addReference wtxid) index).lookup outpoint).getD [] ↔
      (wtxid = other ∧ outpoint ∈ prevouts) ∨ other ∈ (index.lookup outpoint).getD [] := by
  induction prevouts generalizing index with
  | nil => simp
  | cons prevout prevouts ih =>
    rw [List.foldl_cons, ih, mem_addReference, List.mem_cons]
    tauto

end References

/-! ## Removing an announcement -/

theorem isUnique_iff (announced : Announced (ann :: anns)) (perm : orphanage.orphans.Perm (ann :: anns)) :
    orphanage.isUnique ann = true ↔ ann.tx ∉ anns.map tx := by
  have length : (orphanage.announcementsOf ann.tx.witnessHash).length =
      (anns.filter fun other => other.tx.witnessHash = ann.tx.witnessHash).length + 1 := by
    rw [announcementsOf, (perm.filter _).length_eq]
    simp
  rw [isUnique, length, announced.tx_mem_iff]
  simp [List.filter_eq_nil_iff]

theorem lookup_erasePeerInfo (tallies : Tallies (ann :: anns) orphanage) (peer : NodeId) :
    (erasePeerInfo orphanage.peerOrphanageInfo ann).lookup peer =
      if (recountPeer anns peer).countAnnouncements = 0 then none else some (recountPeer anns peer) := by
  have own : orphanage.peerOrphanageInfo.lookup ann.announcer = some ((recountPeer anns ann.announcer).add ann) := by
    rw [tallies.peers, recountPeer_cons, if_pos rfl]
    exact if_neg (Nat.succ_ne_zero _)
  unfold erasePeerInfo
  rw [own]
  simp only [PeerDoSInfo.subtract_add]
  by_cases same : peer = ann.announcer
  · subst same
    split
    · exact AList.lookup_erase _ _
    · exact AList.lookup_insert _
  have others := tallies.peers peer
  rw [recountPeer_cons, if_neg (Ne.symm same)] at others
  rw [← others]
  split
  · exact AList.lookup_erase_ne same
  · exact AList.lookup_insert_ne same

theorem Tallies.erase (tallies : Tallies (ann :: anns) orphanage) (announced : Announced (ann :: anns))
    (perm : orphanage.orphans.Perm (ann :: anns)) : Tallies anns (orphanage.erase ann) := by
  have reconsiderable : ∀ wtxid, wtxid ∈ (orphanage.erase ann).reconsiderableWtxids ↔ Reconsiders anns wtxid := by
    intro wtxid
    have before := tallies.reconsiderable wtxid
    rw [reconsiders_cons] at before
    simp only [TxOrphanage.erase]
    split
    next flagged =>
      rw [tallies.reconsiderable_nodup.mem_erase_iff, before]
      -- No other announcement of this transaction can carry the mark.
      have alone : ¬ Reconsiders anns ann.tx.witnessHash := by
        rintro ⟨other, inside, marked, same⟩
        have announcer := announced.single other (.tail _ inside) ann (.head _) marked flagged same
        refine (List.nodup_cons.mp announced.keys).1 (List.mem_map.mpr ⟨other, inside, ?_⟩)
        simp only [Announcement.byWtxid, same, announcer]
      constructor
      · rintro ⟨other, mark | kept⟩
        · exact absurd mark.2.symm other
        · exact kept
      intro kept
      refine ⟨?_, .inr kept⟩
      rintro rfl
      exact alone kept
    next unflagged =>
      rw [before]
      simp [unflagged]
  have reconsiderable_nodup : (orphanage.erase ann).reconsiderableWtxids.Nodup := by
    simp only [TxOrphanage.erase]
    split
    · exact tallies.reconsiderable_nodup.erase _
    · exact tallies.reconsiderable_nodup
  simp only [TxOrphanage.erase] at reconsiderable reconsiderable_nodup ⊢
  by_cases known : ann.tx ∈ anns.map Announcement.tx
  · have shared : orphanage.isUnique ann = false := by
      rw [← Bool.not_eq_true, isUnique_iff announced perm]
      exact not_not_intro known
    simp only [shared, Bool.false_eq_true, if_false]
    refine ⟨?_, ?_, ?_, lookup_erasePeerInfo tallies, ?_, tallies.filled, reconsiderable, reconsiderable_nodup⟩
    · exact tallies.unique.trans (distinctTotal_cons_of_mem known)
    · exact tallies.usage.trans (distinctTotal_cons_of_mem known)
    · exact tallies.rounded.trans (distinctTotal_cons_of_mem known)
    · exact fun outpoint wtxid =>
        (tallies.references outpoint wtxid).trans (orphanSpends_cons_of_known known)
  · have alone : orphanage.isUnique ann = true := (isUnique_iff announced perm).mpr known
    have unique := tallies.unique
    have usage := tallies.usage
    have rounded := tallies.rounded
    rw [distinctTotal_cons_of_notMem known] at unique usage rounded
    simp only [alone, if_true]
    refine ⟨?_, ?_, ?_, lookup_erasePeerInfo tallies, ?_, ?_, reconsiderable, reconsiderable_nodup⟩
    · simp only [TxOrphanage.eraseUnique]
      omega
    · simp only [TxOrphanage.eraseUnique, Announcement.getMemUsage]
      omega
    · simp only [TxOrphanage.eraseUnique, Announcement.getLatencyScore]
      omega
    · intro outpoint wtxid
      simp only [TxOrphanage.eraseUnique]
      rw [mem_eraseReferences tallies.filled, tallies.references, orphanSpends_cons]
      constructor
      · rintro ⟨own | spent, other⟩
        · exact absurd own other
        · exact spent
      intro spent
      refine ⟨.inr spent, ?_⟩
      rintro ⟨rfl, -⟩
      obtain ⟨other, inside, same, -⟩ := spent
      exact known (announced.tx_mem_iff.mpr ⟨other, inside, same⟩)
    · exact filled_eraseReferences tallies.filled _ _

namespace TxOrphanage.Consistent

variable (consistent : orphanage.Consistent)

include consistent

theorem focus (member : ann ∈ orphanage.orphans) :
    Announced (ann :: orphanage.orphans.erase ann) ∧ Tallies (ann :: orphanage.orphans.erase ann) orphanage :=
  ⟨consistent.announced.perm (List.perm_cons_erase member), consistent.tallies.perm (List.perm_cons_erase member)⟩

theorem erase (member : ann ∈ orphanage.orphans) : (orphanage.erase ann).Consistent := by
  obtain ⟨announced, tallies⟩ := consistent.focus member
  exact ⟨announced.tail, tallies.erase announced (List.perm_cons_erase member)⟩

theorem mem_orphans_erase {other : Announcement sha256d} :
    other ∈ (orphanage.erase ann).orphans ↔ other ≠ ann ∧ other ∈ orphanage.orphans :=
  consistent.announced.nodup.mem_erase_iff

theorem eraseAll {removed : List (Announcement sha256d)} (nodup : removed.Nodup)
    (members : ∀ ann ∈ removed, ann ∈ orphanage.orphans) :
    (removed.foldl TxOrphanage.erase orphanage).Consistent ∧
      ∀ ann, ann ∈ (removed.foldl TxOrphanage.erase orphanage).orphans ↔ ann ∈ orphanage.orphans ∧ ann ∉ removed := by
  induction removed generalizing orphanage with
  | nil => exact ⟨consistent, by simp⟩
  | cons first removed ih =>
    obtain ⟨fresh, nodup⟩ := List.nodup_cons.mp nodup
    have later := consistent.erase (members first (.head _))
    obtain ⟨last, kept⟩ := ih later nodup fun ann inside =>
      consistent.mem_orphans_erase.mpr ⟨fun same => fresh (same ▸ inside), members ann (.tail _ inside)⟩
    refine ⟨last, fun ann => ?_⟩
    rw [List.foldl_cons, kept, consistent.mem_orphans_erase, List.mem_cons]
    tauto

end TxOrphanage.Consistent

/-! ## Adding an announcement -/

/-- An announcement that may join: unmarked, with a key of its own, and of a transaction
that no other announced one shares its wtxid with. -/
structure Joins (orphanage : TxOrphanage sha256d) (ann : Announcement sha256d) : Prop where
  unmarked : ann.reconsider = false
  fresh : ann.byWtxid ∉ orphanage.orphans.map byWtxid
  apart : ∀ other ∈ orphanage.orphans, other.tx.witnessHash = ann.tx.witnessHash → other.tx = ann.tx

theorem emplaceable_fresh (free : orphanage.emplaceable ann = true) :
    ann.byWtxid ∉ orphanage.orphans.map byWtxid := by
  intro taken
  obtain ⟨other, inside, same⟩ := List.mem_map.mp taken
  have apart := List.all_eq_true.mp free other inside
  simp [same] at apart

theorem Joins.announced (joins : Joins orphanage ann) (announced : Announced orphanage.orphans) :
    Announced (ann :: orphanage.orphans) where
  keys := List.nodup_cons.mpr ⟨joins.fresh, announced.keys⟩
  single := forall_pairs_cons (fun _ _ _ => rfl) (fun _ _ marked => by simp [joins.unmarked] at marked)
    (fun _ _ _ marked => by simp [joins.unmarked] at marked) announced.single
  apart := forall_pairs_cons (fun _ => rfl)
    (fun other inside same => (joins.apart other inside same.symm).symm) joins.apart announced.apart

theorem lookup_announce (tallies : Tallies orphanage.orphans orphanage) (peer : NodeId) :
    (orphanage.announce ann).peerOrphanageInfo.lookup peer =
      if (recountPeer (ann :: orphanage.orphans) peer).countAnnouncements = 0 then none
      else some (recountPeer (ann :: orphanage.orphans) peer) := by
  rw [recountPeer_cons]
  simp only [announce]
  by_cases same : peer = ann.announcer
  · subst same
    have before : (orphanage.peerOrphanageInfo.lookup ann.announcer).getD {} =
        recountPeer orphanage.orphans ann.announcer := by
      rw [tallies.peers]
      split
      next none =>
        -- A peer without announcements has nothing to count.
        have nothing : orphanage.orphans.filter (fun other => other.announcer = ann.announcer) = [] := by
          simpa [recountPeer, totalOf] using none
        simp [recountPeer, totalOf, nothing]
      next => rfl
    rw [AList.lookup_insert, if_pos rfl, before]
    exact (if_neg (Nat.succ_ne_zero _)).symm
  · rw [AList.lookup_insert_ne same, if_neg (Ne.symm same)]
    exact tallies.peers peer

theorem reconsiders_cons_unmarked
    (unmarked : ann.reconsider = false) : Reconsiders (ann :: anns) wtxid ↔ Reconsiders anns wtxid := by
  simp [reconsiders_cons, unmarked]

theorem haveTx_iff : orphanage.haveTx wtxid = true ↔ ∃ ann ∈ orphanage.orphans, ann.tx.witnessHash = wtxid := by
  simp [haveTx, announcementsOf]

theorem Tallies.setReconsider (tallies : Tallies (ann :: anns) orphanage) (reconsider : Bool) {marked : List Uint256}
    (reconsiderable : ∀ wtxid, wtxid ∈ marked ↔ Reconsiders ({ ann with reconsider := reconsider } :: anns) wtxid)
    (nodup : marked.Nodup) :
    Tallies ({ ann with reconsider := reconsider } :: anns)
      { orphanage.setReconsider ann reconsider with reconsiderableWtxids := marked } where
  unique := tallies.unique
  usage := tallies.usage
  rounded := tallies.rounded
  peers peer := by
    have before := tallies.peers peer
    rw [recountPeer_cons] at before ⊢
    exact before
  references outpoint wtxid := by
    have before := tallies.references outpoint wtxid
    rw [orphanSpends_cons] at before ⊢
    exact before
  filled := tallies.filled
  reconsiderable := reconsiderable
  reconsiderable_nodup := nodup

/-- A mark may be set where no other announcement of the transaction is marked. -/
theorem Announced.setReconsider (announced : Announced (ann :: anns))
    (reconsider : Bool) (alone : reconsider = true → ¬ Reconsiders anns ann.tx.witnessHash) :
    Announced ({ ann with reconsider := reconsider } :: anns) where
  keys := announced.keys
  single := forall_pairs_cons (fun _ _ _ => rfl)
    (fun other inside own marked same => absurd ⟨other, inside, marked, same.symm⟩ (alone own))
    (fun other inside marked own same => absurd ⟨other, inside, marked, same⟩ (alone own))
    announced.tail.single
  apart := forall_pairs_cons (fun _ => rfl)
    (fun other inside => announced.apart ann (.head _) other (.tail _ inside))
    (fun other inside => announced.apart other (.tail _ inside) ann (.head _))
    announced.tail.apart

namespace TxOrphanage.Consistent

variable (consistent : orphanage.Consistent)

include consistent

theorem announce (joins : Joins orphanage ann) (known : ann.tx ∈ orphanage.orphans.map tx) :
    (orphanage.announce ann).Consistent := by
  have tallies := consistent.tallies
  refine ⟨joins.announced consistent.announced, ?_, ?_, ?_, lookup_announce tallies, ?_, tallies.filled,
    ?_, tallies.reconsiderable_nodup⟩
  · exact tallies.unique.trans (distinctTotal_cons_of_mem known).symm
  · exact tallies.usage.trans (distinctTotal_cons_of_mem known).symm
  · exact tallies.rounded.trans (distinctTotal_cons_of_mem known).symm
  · exact fun outpoint wtxid =>
      (tallies.references outpoint wtxid).trans (orphanSpends_cons_of_known known).symm
  · exact fun wtxid =>
      (tallies.reconsiderable wtxid).trans (reconsiders_cons_unmarked joins.unmarked).symm

theorem addUnique (joins : Joins orphanage ann) (brandNew : ann.tx ∉ orphanage.orphans.map Announcement.tx) :
    ((orphanage.announce ann).addUnique ann).Consistent := by
  have tallies := consistent.tallies
  have unique := tallies.unique
  have usage := tallies.usage
  have rounded := tallies.rounded
  refine ⟨joins.announced consistent.announced, ?_, ?_, ?_, lookup_announce tallies, ?_, ?_, ?_,
    tallies.reconsiderable_nodup⟩
  · simp only [TxOrphanage.addUnique, TxOrphanage.announce, distinctTotal_cons_of_notMem brandNew]
    omega
  · simp only [TxOrphanage.addUnique, TxOrphanage.announce, distinctTotal_cons_of_notMem brandNew,
      Announcement.getMemUsage]
    omega
  · simp only [TxOrphanage.addUnique, TxOrphanage.announce, distinctTotal_cons_of_notMem brandNew,
      Announcement.getLatencyScore]
    omega
  · intro outpoint wtxid
    simp only [TxOrphanage.addUnique, TxOrphanage.announce]
    rw [mem_addReferences, tallies.references, orphanSpends_cons]
  · exact filled_addReferences tallies.filled _ _
  · exact fun wtxid =>
      (tallies.reconsiderable wtxid).trans (reconsiders_cons_unmarked joins.unmarked).symm

theorem addTx (tx : CTransactionRef sha256d) (peer : NodeId)
    (apart : ∀ other ∈ orphanage.orphans, other.tx.witnessHash = tx.witnessHash → other.tx = tx) :
    (orphanage.addTx tx peer).1.Consistent := by
  unfold TxOrphanage.addTx
  split
  · exact consistent
  dsimp only
  split
  · exact consistent
  next free =>
    have joins : Joins orphanage ⟨tx, peer, orphanage.currentSequence, false⟩ :=
      ⟨rfl, emplaceable_fresh (by simpa using free), apart⟩
    split
    next have_ =>
      obtain ⟨other, inside, same⟩ := haveTx_iff.mp have_
      exact consistent.announce joins (List.mem_map.mpr ⟨other, inside, apart other inside same⟩)
    next haveNot =>
      refine consistent.addUnique joins fun known => haveNot ?_
      obtain ⟨other, inside, same⟩ := List.mem_map.mp known
      exact haveTx_iff.mpr ⟨other, inside, by rw [same]⟩

theorem addAnnouncer (wtxid : Uint256) (peer : NodeId) : (orphanage.addAnnouncer wtxid peer).1.Consistent := by
  unfold TxOrphanage.addAnnouncer
  split
  · exact consistent
  next known rest found =>
    have listed : known ∈ orphanage.announcementsOf wtxid := by
      rw [found]
      exact .head _
    have inside := (List.mem_filter.mp listed).1
    dsimp only
    split
    · exact consistent
    next free =>
      refine consistent.announce ⟨rfl, emplaceable_fresh (by simpa using free), ?_⟩
        (List.mem_map.mpr ⟨known, inside, rfl⟩)
      exact fun other member same => consistent.announced.apart other member known inside same

/-! ## Removing and marking whole groups -/

theorem eraseSelected {selected : Announcement sha256d → Bool} :
    ((orphanage.orphans.filter selected).foldl TxOrphanage.erase orphanage).Consistent ∧
      ∀ ann ∈ ((orphanage.orphans.filter selected).foldl TxOrphanage.erase orphanage).orphans,
        ann ∈ orphanage.orphans := by
  obtain ⟨kept, mem_iff⟩ := consistent.eraseAll (consistent.announced.nodup.filter selected)
    fun _ inside => (List.mem_filter.mp inside).1
  exact ⟨kept, fun ann inside => ((mem_iff ann).mp inside).1⟩

theorem eraseTxInternal (wtxid : Uint256) : (orphanage.eraseTxInternal wtxid).Consistent := consistent.eraseSelected.1

theorem eraseForPeer (peer : NodeId) : (orphanage.eraseForPeer peer).1.Consistent := by
  unfold TxOrphanage.eraseForPeer
  split
  · exact consistent
  · exact consistent.eraseSelected.1

theorem eraseForBlock (block : CBlock) : (orphanage.eraseForBlock block).1.Consistent := by
  unfold TxOrphanage.eraseForBlock
  split
  · exact consistent
  · exact List.foldlRecOn _ _ consistent fun _ kept wtxid _ => kept.eraseTxInternal wtxid

theorem setReconsider_perm (member : ann ∈ orphanage.orphans) (reconsider : Bool) :
    (orphanage.setReconsider ann reconsider).orphans.Perm
      ({ ann with reconsider := reconsider } :: orphanage.orphans.erase ann) := by
  refine ((List.perm_cons_erase member).map _).trans ?_
  rw [List.map_cons, if_pos rfl]
  refine List.Perm.cons _ (List.Perm.of_eq ?_)
  refine (List.map_congr_left fun other inside => ?_).trans (List.map_id _)
  exact if_neg (consistent.announced.nodup.mem_erase_iff.mp inside).1

theorem markChild (random : Nat) (wtxid : Uint256) : (orphanage.markChild random wtxid).Consistent := by
  unfold TxOrphanage.markChild
  split
  · exact consistent
  next unmarked =>
    split
    · exact consistent
    next ann drawn =>
      obtain ⟨member, rfl⟩ : ann ∈ orphanage.orphans ∧ ann.tx.witnessHash = wtxid := by
        have listed := List.mem_of_getElem? drawn
        simpa [TxOrphanage.announcementsOf] using listed
      obtain ⟨announced, tallies⟩ := consistent.focus member
      have marks := consistent.setReconsider_perm member true
      have none : ¬ Reconsiders (ann :: orphanage.orphans.erase ann) ann.tx.witnessHash := by
        rw [← tallies.reconsiderable]
        simpa using unmarked
      rw [reconsiders_cons, not_or] at none
      refine ⟨(announced.setReconsider true fun _ => none.2).perm marks.symm,
        (tallies.setReconsider true ?_ tallies.reconsiderable_nodup.insert).perm marks.symm⟩
      intro other
      rw [List.mem_insert_iff, tallies.reconsiderable, reconsiders_cons, reconsiders_cons]
      constructor
      · rintro (rfl | ⟨marked, rfl⟩ | kept)
        · exact .inl ⟨rfl, rfl⟩
        · exact .inl ⟨rfl, rfl⟩
        · exact .inr kept
      · rintro (⟨-, same⟩ | kept)
        · exact .inl same.symm
        · exact .inr (.inr kept)

theorem addChildrenToWorkSet (tx : CTransactionRef sha256d) (randrange : Nat → Nat) :
    (orphanage.addChildrenToWorkSet tx randrange).Consistent :=
  List.foldlRecOn _ _ consistent fun _ kept _ _ => kept.markChild _ _

theorem getTxToReconsider (peer : NodeId) : (orphanage.getTxToReconsider peer).2.Consistent := by
  unfold TxOrphanage.getTxToReconsider
  split
  · exact consistent
  next ann found =>
    have listed := List.mem_filter.mp (greatest_mem found)
    have member := (List.mem_filter.mp listed.1).1
    obtain ⟨announced, tallies⟩ := consistent.focus member
    have marks := consistent.setReconsider_perm member false
    have erased := (tallies.erase announced (List.perm_cons_erase member)).reconsiderable
    simp only [TxOrphanage.erase, listed.2, if_true] at erased
    refine ⟨(announced.setReconsider false nofun).perm marks.symm,
      (tallies.setReconsider false ?_ (tallies.reconsiderable_nodup.erase _)).perm marks.symm⟩
    intro wtxid
    rw [erased, reconsiders_cons_unmarked rfl]

end TxOrphanage.Consistent

end Sharecoin
