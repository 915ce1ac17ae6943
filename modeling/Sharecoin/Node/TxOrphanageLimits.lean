import Sharecoin.Node.TxOrphanageProperties

/-! Eviction ends within the limits and spares every peer within its own share. A
transaction counts once for the whole and once for each of its announcers, so whenever the
whole is too much some peer is above its share; the heap always holds all such peers with
their present scores. -/

set_option autoImplicit false

namespace Sharecoin

open Lib TxOrphanage

variable {sha256d : Bytes → Uint256} {orphanage : TxOrphanage sha256d}

/-! ## Scores -/

variable {maxLat : Nat} {maxMem : Int} {info : PeerDoSInfo} {peer : NodeId} {limits : OrphanageLimits}

def PeerDoSInfo.Exceeds (maxLat : Nat) (maxMem : Int) (info : PeerDoSInfo) : Prop :=
  maxLat < info.totalLatencyScore ∨ maxMem < info.totalUsage

/-- The shares of a peer are positive and fit the size of a fraction. -/
structure Shares (maxLat : Nat) (maxMem : Int) : Prop where
  lat_pos : 0 < maxLat
  lat_fits : maxLat < 2 ^ 31
  mem_pos : 0 < maxMem
  mem_fits : maxMem < 2 ^ 31

def PeerDoSInfo.dosScore (maxLat : Nat) (maxMem : Int) (info : PeerDoSInfo) : FeeFrac :=
  FeeFrac.maxByRatioNegSize ⟨info.totalLatencyScore, maxLat⟩ ⟨info.totalUsage, maxMem⟩

theorem one_lt_ratio_iff {fee size : Int} (positive : 0 < size) : 1 < (FeeFrac.mk fee size).ratio ↔ size < fee := by
  have cast : (0 : ℚ) < size := Int.cast_pos.mpr positive
  rw [FeeFrac.ratio, one_lt_div cast]
  exact Int.cast_lt

theorem compareByRatio_one_iff {score : FeeFrac} (positive : 0 < score.size) :
    score.compareByRatio ⟨1, 1⟩ = .gt ↔ 1 < score.ratio := by
  rw [FeeFrac.compareByRatio_gt_iff positive (by decide)]
  simp [FeeFrac.ratio]

namespace Shares

variable (shares : Shares maxLat maxMem)

include shares

theorem getDosScore (info : PeerDoSInfo) : info.getDosScore maxLat maxMem = .ok (info.dosScore maxLat maxMem) := by
  have lat_pos := shares.lat_pos
  have lat_fits := shares.lat_fits
  have mem_pos := shares.mem_pos
  unfold PeerDoSInfo.getDosScore
  rw [if_neg (by omega), wrap32_eq_self (by omega) (by omega),
    wrap32_eq_self (by omega) shares.mem_fits]
  rfl

theorem lat_size : (0 : Int) < maxLat := by
  have := shares.lat_pos
  omega

theorem size_pos : 0 < (info.dosScore maxLat maxMem).size := by
  unfold PeerDoSInfo.dosScore
  exact FeeFrac.maxByRatioNegSize_size_pos shares.lat_size shares.mem_pos

theorem one_lt_score_iff : 1 < (info.dosScore maxLat maxMem).ratio ↔ info.Exceeds maxLat maxMem := by
  rw [PeerDoSInfo.dosScore, FeeFrac.ratio_maxByRatioNegSize shares.lat_size shares.mem_pos, lt_max_iff,
    one_lt_ratio_iff shares.lat_size, one_lt_ratio_iff shares.mem_pos, Nat.cast_lt]
  rfl

end Shares

/-! ## Some peer is above its share -/

variable {ann : Announcement sha256d}

theorem recountPeer_eq_zero_iff {anns : List (Announcement sha256d)} :
    (recountPeer anns peer).countAnnouncements = 0 ↔ ∀ ann ∈ anns, ann.announcer ≠ peer := by
  simp [recountPeer, totalOf, List.filter_eq_nil_iff]

section

variable (consistent : orphanage.Consistent)

include consistent

theorem TxOrphanage.Consistent.lookup_iff : orphanage.peerOrphanageInfo.lookup peer = some info ↔
      (∃ ann ∈ orphanage.orphans, ann.announcer = peer) ∧ info = recountPeer orphanage.orphans peer := by
  rw [consistent.tallies.peers peer]
  by_cases none : (recountPeer orphanage.orphans peer).countAnnouncements = 0
  · have nobody := recountPeer_eq_zero_iff.mp none
    rw [if_pos none]
    constructor
    · intro found
      cases found
    · rintro ⟨⟨ann, inside, same⟩, -⟩
      exact absurd same (nobody ann inside)
  · have somebody : ∃ ann ∈ orphanage.orphans, ann.announcer = peer := by
      rw [recountPeer_eq_zero_iff] at none
      simpa using none
    rw [if_neg none, Option.some.injEq, eq_comm]
    exact ⟨fun same => ⟨somebody, same⟩, And.right⟩

theorem TxOrphanage.Consistent.announcer_mem (inside : ann ∈ orphanage.orphans) :
    ann.announcer ∈ orphanage.peerOrphanageInfo.keys := by
  have found := consistent.lookup_iff.mpr ⟨⟨ann, inside, rfl⟩, rfl⟩
  rw [← AList.mem_keys, ← AList.lookup_isSome, found]
  rfl

theorem latencyScore_le_sum :
    orphanage.totalLatencyScore ≤ (orphanage.orphans.map Announcement.getLatencyScore).sum := by
  have counted := @distinctTotal_le_sum _ _ _ _ Announcement.tx orphanage.orphans
    (fun tx : CTransactionRef sha256d => tx.tx.vin.length / 10) _ _ _ (fun _ => Nat.zero_le _)
  have split : (orphanage.orphans.map Announcement.getLatencyScore).sum =
      orphanage.orphans.length + (orphanage.orphans.map fun ann => ann.tx.tx.vin.length / 10).sum := by
    induction orphanage.orphans with
    | nil => rfl
    | cons ann anns ih =>
      simp only [List.map_cons, List.sum_cons, List.length_cons, ih, Announcement.getLatencyScore]
      omega
  rw [totalLatencyScore, consistent.tallies.rounded, split]
  omega

theorem usage_le_sum : orphanage.uniqueOrphanUsage ≤ (orphanage.orphans.map Announcement.getMemUsage).sum := by
  rw [consistent.tallies.usage]
  exact distinctTotal_le_sum fun _ => Int.natCast_nonneg _

theorem sum_le_of_each {M : Type} [AddCommMonoid M] [PartialOrder M] [IsOrderedAddMonoid M]
    (value : Announcement sha256d → M) {bound : M}
    (each : ∀ peer ∈ orphanage.peerOrphanageInfo.keys,
      totalOf Announcement.announcer value orphanage.orphans peer ≤ bound) :
    (orphanage.orphans.map value).sum ≤ orphanage.peerOrphanageInfo.keys.length • bound := by
  have covered : ∀ ann ∈ orphanage.orphans, ann.announcer ∈ orphanage.peerOrphanageInfo.keys.toFinset :=
    fun ann inside => List.mem_toFinset.mpr (consistent.announcer_mem inside)
  rw [← sum_totalOf value covered, ← List.toFinset_card_of_nodup orphanage.peerOrphanageInfo.keys_nodup]
  exact Finset.sum_le_card_nsmul _ _ _ fun peer member => each peer (List.mem_toFinset.mp member)

theorem TxOrphanage.Consistent.lookup_of_mem_keys (member : peer ∈ orphanage.peerOrphanageInfo.keys) :
    orphanage.peerOrphanageInfo.lookup peer = some (recountPeer orphanage.orphans peer) := by
  rw [← AList.mem_keys, ← AList.lookup_isSome] at member
  obtain ⟨info, found⟩ := Option.isSome_iff_exists.mp member
  rw [found, (consistent.lookup_iff.mp found).2]

theorem within_of_none_exceeds (none : ∀ peer info, orphanage.peerOrphanageInfo.lookup peer = some info →
      ¬ info.Exceeds maxLat maxMem) :
    orphanage.totalLatencyScore ≤ orphanage.peerOrphanageInfo.keys.length * maxLat ∧
      orphanage.uniqueOrphanUsage ≤ orphanage.peerOrphanageInfo.keys.length * maxMem := by
  have within : ∀ peer ∈ orphanage.peerOrphanageInfo.keys,
      (recountPeer orphanage.orphans peer).totalLatencyScore ≤ maxLat ∧
        (recountPeer orphanage.orphans peer).totalUsage ≤ maxMem := by
    intro peer member
    have fine := none peer _ (consistent.lookup_of_mem_keys member)
    rw [PeerDoSInfo.Exceeds, not_or, Nat.not_lt, Int.not_lt] at fine
    exact fine
  constructor
  · exact (latencyScore_le_sum consistent).trans (sum_le_of_each consistent _ fun peer member => (within peer member).1)
  · have bounded := sum_le_of_each consistent Announcement.getMemUsage fun peer member => (within peer member).2
    rw [nsmul_eq_mul] at bounded
    exact (usage_le_sum consistent).trans bounded

end

theorem needsTrim_eq_false_iff :
    orphanage.needsTrim limits = false ↔ orphanage.totalLatencyScore ≤ limits.maxGlobalLatencyScore ∧
      orphanage.uniqueOrphanUsage ≤ orphanage.maxGlobalUsage limits := by
  simp [needsTrim]

/-! ## Evicting from one peer -/

section EvictFrom

variable {before middle after : TxOrphanage sha256d} {dosThreshold : FeeFrac}

/-- Some announcements of one peer are gone, nothing else. -/
structure Evicted (peer : NodeId) (before after : TxOrphanage sha256d) : Prop where
  consistent : after.Consistent
  subset : ∀ ann ∈ after.orphans, ann ∈ before.orphans
  kept : ∀ ann ∈ before.orphans, ann.announcer ≠ peer → ann ∈ after.orphans
  fewer : after.orphans.length ≤ before.orphans.length

theorem Evicted.same (consistent : orphanage.Consistent) : Evicted peer orphanage orphanage :=
  ⟨consistent, fun _ inside => inside, fun _ inside _ => inside, le_rfl⟩

theorem Evicted.trans (first : Evicted peer before middle) (second : Evicted peer middle after) :
    Evicted peer before after where
  consistent := second.consistent
  subset ann inside := first.subset ann (second.subset ann inside)
  kept ann inside other := second.kept ann (first.kept ann inside other) other
  fewer := second.fewer.trans first.fewer

theorem evicted_erase (consistent : orphanage.Consistent) (inside : ann ∈ orphanage.orphans) :
    Evicted ann.announcer orphanage (orphanage.erase ann) where
  consistent := consistent.erase inside
  subset other member := (consistent.mem_orphans_erase.mp member).2
  kept other member apart := consistent.mem_orphans_erase.mpr ⟨fun same => apart (by rw [same]), member⟩
  fewer := List.length_erase_le

theorem length_erase_lt (inside : ann ∈ orphanage.orphans) :
    (orphanage.erase ann).orphans.length < orphanage.orphans.length := by
  have positive := List.length_pos_of_mem inside
  have length : (orphanage.erase ann).orphans.length = orphanage.orphans.length - 1 := List.length_erase_of_mem inside
  omega

theorem Evicted.lookup_other (evicted : Evicted peer before after) (consistent : before.Consistent) {other : NodeId}
    (apart : other ≠ peer) : after.peerOrphanageInfo.lookup other = before.peerOrphanageInfo.lookup other := by
  have perm : (after.announcementsFrom other).Perm (before.announcementsFrom other) := by
    refine (List.perm_ext_iff_of_nodup (evicted.consistent.announced.nodup.filter _)
      (consistent.announced.nodup.filter _)).mpr fun ann => ?_
    simp only [List.mem_filter, decide_eq_true_eq]
    constructor
    · rintro ⟨inside, same⟩
      exact ⟨evicted.subset ann inside, same⟩
    · rintro ⟨inside, rfl⟩
      exact ⟨evicted.kept ann inside apart, rfl⟩
  have recount : recountPeer after.orphans other = recountPeer before.orphans other := by
    unfold announcementsFrom at perm
    simp only [recountPeer, totalOf, (perm.map _).sum_eq]
  rw [evicted.consistent.tallies.peers, consistent.tallies.peers, recount]

theorem Evicted.keys_length (evicted : Evicted peer before after) (consistent : before.Consistent) :
    after.peerOrphanageInfo.keys.length ≤ before.peerOrphanageInfo.keys.length := by
  refine (List.subperm_of_subset after.peerOrphanageInfo.keys_nodup fun other member => ?_).length_le
  have found := evicted.consistent.lookup_of_mem_keys member
  obtain ⟨⟨ann, inside, rfl⟩, -⟩ := evicted.consistent.lookup_iff.mp found
  exact consistent.announcer_mem (evicted.subset ann inside)

theorem oldestFrom_of_lookup (consistent : orphanage.Consistent)
    (found : orphanage.peerOrphanageInfo.lookup peer = some info) :
    ∃ ann, orphanage.oldestFrom peer = some ann ∧ ann ∈ orphanage.orphans ∧ ann.announcer = peer := by
  obtain ⟨⟨ann, inside, from_⟩, -⟩ := consistent.lookup_iff.mp found
  have nonempty : orphanage.announcementsFrom peer ≠ [] :=
    List.ne_nil_of_mem (List.mem_filter.mpr ⟨inside, decide_eq_true from_⟩)
  obtain ⟨oldest, chosen⟩ : ∃ oldest, orphanage.oldestFrom peer = some oldest := greatest_isSome nonempty
  have member := List.mem_filter.mp (greatest_mem chosen)
  exact ⟨oldest, chosen, member.1, of_decide_eq_true member.2⟩

theorem evictFrom_spec (shares : Shares maxLat maxMem) {fuel : Nat} (consistent : orphanage.Consistent)
    (enough : orphanage.orphans.length ≤ fuel) {info : PeerDoSInfo}
    (found : orphanage.peerOrphanageInfo.lookup peer = some info) :
    ∃ next, evictFrom limits maxLat maxMem peer dosThreshold fuel orphanage = .ok next ∧
      Evicted peer orphanage next ∧
      (orphanage.needsTrim limits = true → next.orphans.length < orphanage.orphans.length) := by
  induction fuel generalizing orphanage info with
  | zero =>
    obtain ⟨ann, -, inside, -⟩ := oldestFrom_of_lookup consistent found
    have positive := List.length_pos_of_mem inside
    omega
  | succ fuel ih =>
    obtain ⟨ann, oldest, inside, rfl⟩ := oldestFrom_of_lookup consistent found
    have shorter := length_erase_lt inside
    have step := evicted_erase consistent inside
    rw [evictFrom]
    by_cases trim : orphanage.needsTrim limits = true
    · rw [if_pos trim, oldest]
      dsimp only
      cases left : (orphanage.erase ann).peerOrphanageInfo.lookup ann.announcer with
      | none => exact ⟨_, rfl, step, fun _ => shorter⟩
      | some rest =>
        dsimp only
        rw [shares.getDosScore]
        by_cases settled : (rest.dosScore maxLat maxMem).compareByRatioNegSize dosThreshold ≠ .gt
        · refine ⟨orphanage.erase ann, ?_, step, fun _ => shorter⟩
          simp only [Except.bind, bind, if_pos settled]
          rfl
        obtain ⟨next, ran, later, -⟩ := ih step.consistent (by omega) left
        refine ⟨next, ?_, step.trans later, fun _ => later.fewer.trans_lt shorter⟩
        simp only [Except.bind, bind, if_neg settled]
        exact ran
    · rw [if_neg trim]
      exact ⟨orphanage, rfl, .same consistent, fun trims => absurd trims trim⟩

end EvictFrom

/-! ## Evicting from the worst peers -/

section EvictWorst

variable {start next : TxOrphanage sha256d} {heap : List (NodeId × FeeFrac)} {worst : NodeId × FeeFrac}

/-- The heap holds peers with their present scores, among them all that exceed their share. -/
structure HeapOf (maxLat : Nat) (maxMem : Int) (orphanage : TxOrphanage sha256d)
    (heap : List (NodeId × FeeFrac)) : Prop where
  exact : ∀ entry ∈ heap, ∃ info, orphanage.peerOrphanageInfo.lookup entry.1 = some info ∧
    entry.2 = info.dosScore maxLat maxMem
  complete : ∀ peer info, orphanage.peerOrphanageInfo.lookup peer = some info →
    info.Exceeds maxLat maxMem → (peer, info.dosScore maxLat maxMem) ∈ heap
  nodup : (heap.map Prod.fst).Nodup

/-- A peer within its share at the start has lost nothing. -/
def Spared (maxLat : Nat) (maxMem : Int) (start now : TxOrphanage sha256d) : Prop :=
  ∀ peer info, start.peerOrphanageInfo.lookup peer = some info → ¬ info.Exceeds maxLat maxMem →
    now.peerOrphanageInfo.lookup peer = some info ∧ ∀ ann ∈ start.orphans, ann.announcer = peer → ann ∈ now.orphans

/-- The limits are no less than what the shares of that many peers add up to. -/
structure SharesOf (limits : OrphanageLimits) (maxLat : Nat) (maxMem : Int)
    (orphanage : TxOrphanage sha256d) : Prop where
  shares : Shares maxLat maxMem
  lat : orphanage.peerOrphanageInfo.keys.length * maxLat ≤ limits.maxGlobalLatencyScore
  mem : limits.reservedUsagePerPeer = maxMem

theorem compareScore_ratio (shares : Shares maxLat maxMem) (heapOf : HeapOf maxLat maxMem orphanage heap)
    {left right : NodeId × FeeFrac} (inLeft : left ∈ heap) (inRight : right ∈ heap) :
    (compareScore left right = true → left.2.ratio ≤ right.2.ratio) ∧
      (compareScore left right = false → right.2.ratio ≤ left.2.ratio) := by
  obtain ⟨leftInfo, -, leftScore⟩ := heapOf.exact left inLeft
  obtain ⟨rightInfo, -, rightScore⟩ := heapOf.exact right inRight
  have leftPositive : 0 < left.2.size := leftScore ▸ shares.size_pos
  have rightPositive : 0 < right.2.size := rightScore ▸ shares.size_pos
  unfold compareScore
  by_cases same : left.2 = right.2
  · rw [same]
    exact ⟨fun _ => le_rfl, fun _ => le_rfl⟩
  rw [if_pos same]
  constructor
  · exact fun less => FeeFrac.ratio_le_of_lt leftPositive rightPositive (eq_of_beq less)
  · exact fun less => FeeFrac.ratio_le_of_not_lt leftPositive rightPositive (ne_of_beq_false less)

section

variable (sharesOf : SharesOf limits maxLat maxMem orphanage) (consistent : orphanage.Consistent)

include sharesOf consistent

theorem SharesOf.evicted (evicted : Evicted peer orphanage next) : SharesOf limits maxLat maxMem next :=
  ⟨sharesOf.shares, (Nat.mul_le_mul_right _ (evicted.keys_length consistent)).trans sharesOf.lat, sharesOf.mem⟩

variable (trim : orphanage.needsTrim limits = true)

include trim

theorem exists_exceeds : ∃ peer info, orphanage.peerOrphanageInfo.lookup peer = some info ∧ info.Exceeds maxLat maxMem := by
  by_contra nobody
  push Not at nobody
  obtain ⟨lat, mem⟩ := within_of_none_exceeds consistent nobody
  have latency := sharesOf.lat
  have positive := sharesOf.shares.mem_pos
  have usage : orphanage.uniqueOrphanUsage ≤ orphanage.maxGlobalUsage limits := by
    rw [maxGlobalUsage, sharesOf.mem, mul_comm maxMem]
    refine mem.trans (mul_le_mul_of_nonneg_right ?_ positive.le)
    exact_mod_cast le_max_left _ _
  cases trim.symm.trans (needsTrim_eq_false_iff.mpr ⟨lat.trans latency, usage⟩)

/-- The top of the heap exceeds its share whenever something must go. -/
theorem worst_exceeds (heapOf : HeapOf maxLat maxMem orphanage heap) :
    ∃ worst info, greatest compareScore heap = some worst ∧ worst ∈ heap ∧
      1 < worst.2.ratio ∧ orphanage.peerOrphanageInfo.lookup worst.1 = some info ∧
      worst.2 = info.dosScore maxLat maxMem ∧ info.Exceeds maxLat maxMem := by
  obtain ⟨peer, info, found, exceeds⟩ := exists_exceeds sharesOf consistent trim
  have listed := heapOf.complete peer info found exceeds
  obtain ⟨worst, chosen⟩ : ∃ worst, greatest compareScore heap = some worst :=
    greatest_isSome (List.ne_nil_of_mem listed)
  have member := greatest_mem chosen
  obtain ⟨worstInfo, worstFound, score⟩ := heapOf.exact worst member
  have above : 1 < worst.2.ratio := by
    have most := measure_le_greatest (fun entry : NodeId × FeeFrac => entry.2.ratio)
      (fun left inLeft right inRight =>
        (compareScore_ratio sharesOf.shares heapOf inLeft inRight).1)
      (fun left inLeft right inRight =>
        (compareScore_ratio sharesOf.shares heapOf inLeft inRight).2) chosen listed
    exact (sharesOf.shares.one_lt_score_iff.mpr exceeds).trans_le most
  refine ⟨worst, worstInfo, chosen, member, above, worstFound, score, ?_⟩
  rw [score] at above
  exact sharesOf.shares.one_lt_score_iff.mp above

end

section

variable (heapOf : HeapOf maxLat maxMem orphanage heap) (consistent : orphanage.Consistent)
  (member : worst ∈ heap) (evicted : Evicted worst.1 orphanage next)

include heapOf consistent member evicted

/-- Without the top, the heap is that of the other peers, whatever the top loses. -/
theorem HeapOf.pop : (∀ entry ∈ heap.erase worst, entry.1 ≠ worst.1 ∧
      ∃ info, next.peerOrphanageInfo.lookup entry.1 = some info ∧ entry.2 = info.dosScore maxLat maxMem) ∧
    (∀ peer info, peer ≠ worst.1 → next.peerOrphanageInfo.lookup peer = some info →
      info.Exceeds maxLat maxMem → (peer, info.dosScore maxLat maxMem) ∈ heap.erase worst) ∧
    ((heap.erase worst).map Prod.fst).Nodup := by
  have split : (heap.map Prod.fst).Perm (worst.1 :: (heap.erase worst).map Prod.fst) :=
    (List.perm_cons_erase member).map Prod.fst
  obtain ⟨fresh, nodup⟩ := List.nodup_cons.mp (split.nodup_iff.mp heapOf.nodup)
  refine ⟨fun entry inside => ?_, fun peer info apart found exceeds => ?_, nodup⟩
  · have apart : entry.1 ≠ worst.1 := fun same => fresh (List.mem_map.mpr ⟨entry, inside, same⟩)
    rw [evicted.lookup_other consistent apart]
    exact ⟨apart, heapOf.exact entry (List.mem_of_mem_erase inside)⟩
  rw [evicted.lookup_other consistent apart] at found
  refine (List.mem_erase_of_ne ?_).mpr (heapOf.complete peer info found exceeds)
  rintro rfl
  exact apart rfl

theorem HeapOf.gone (gone : next.peerOrphanageInfo.lookup worst.1 = none) :
    HeapOf maxLat maxMem next (heap.erase worst) := by
  obtain ⟨exact_, complete, nodup⟩ := heapOf.pop consistent member evicted
  refine ⟨fun entry inside => (exact_ entry inside).2, fun peer info found exceeds => ?_, nodup⟩
  refine complete peer info ?_ found exceeds
  rintro rfl
  rw [gone] at found
  cases found

theorem HeapOf.push (found : next.peerOrphanageInfo.lookup worst.1 = some info) :
    HeapOf maxLat maxMem next ((worst.1, info.dosScore maxLat maxMem) :: heap.erase worst) := by
  obtain ⟨exact_, complete, nodup⟩ := heapOf.pop consistent member evicted
  refine ⟨fun entry inside => ?_, fun peer other known exceeds => ?_, ?_⟩
  · rcases List.mem_cons.mp inside with rfl | inside
    · exact ⟨info, found, rfl⟩
    · exact (exact_ entry inside).2
  · by_cases same : peer = worst.1
    · subst same
      rw [found] at known
      cases known
      exact .head _
    · exact .tail _ (complete peer other same known exceeds)
  · refine List.nodup_cons.mpr ⟨fun taken => ?_, nodup⟩
    obtain ⟨entry, inside, same⟩ := List.mem_map.mp taken
    exact (exact_ entry inside).1 same

end

theorem Spared.refl : Spared maxLat maxMem orphanage orphanage :=
  fun _ _ found _ => ⟨found, fun _ inside _ => inside⟩

theorem Spared.evicted (spared : Spared maxLat maxMem start orphanage)
    (consistent : orphanage.Consistent) (evicted : Evicted peer orphanage next)
    (found : orphanage.peerOrphanageInfo.lookup peer = some info)
    (exceeds : info.Exceeds maxLat maxMem) : Spared maxLat maxMem start next := by
  intro other otherInfo known within
  obtain ⟨same, kept⟩ := spared other otherInfo known within
  have apart : other ≠ peer := by
    rintro rfl
    rw [found] at same
    cases same
    exact within exceeds
  refine ⟨(evicted.lookup_other consistent apart).trans same, fun ann inside from_ => ?_⟩
  exact evicted.kept ann (kept ann inside from_) (from_ ▸ apart)

/-- The outer loop ends within the limits and spares whoever was within their share. -/
theorem evictWorst_spec {fuel : Nat} (sharesOf : SharesOf limits maxLat maxMem orphanage)
    (consistent : orphanage.Consistent) (heapOf : HeapOf maxLat maxMem orphanage heap)
    (spared : Spared maxLat maxMem start orphanage) (subset : ∀ ann ∈ orphanage.orphans, ann ∈ start.orphans)
    (trim : orphanage.needsTrim limits = true) (enough : orphanage.orphans.length ≤ fuel) :
    ∃ last, evictWorst limits maxLat maxMem fuel heap orphanage = .ok last ∧
      last.Consistent ∧ last.needsTrim limits = false ∧ Spared maxLat maxMem start last ∧
      ∀ ann ∈ last.orphans, ann ∈ start.orphans := by
  induction fuel generalizing orphanage heap with
  | zero =>
    obtain ⟨peer, info, found, -⟩ := exists_exceeds sharesOf consistent trim
    obtain ⟨⟨ann, inside, -⟩, -⟩ := consistent.lookup_iff.mp found
    have positive := List.length_pos_of_mem inside
    omega
  | succ fuel ih =>
    obtain ⟨worst, info, chosen, member, above, found, score, exceeds⟩ :=
      worst_exceeds sharesOf consistent trim heapOf
    have positive : 0 < worst.2.size := score ▸ sharesOf.shares.size_pos
    obtain ⟨next, ran, evicted, shorter⟩ := @evictFrom_spec _ orphanage maxLat maxMem worst.1 limits
      (((greatest compareScore (heap.erase worst)).map Prod.snd).getD ⟨1, 1⟩)
      sharesOf.shares _ consistent le_rfl info found
    have fewer := shorter trim
    have later := sharesOf.evicted consistent evicted
    have kept := spared.evicted consistent evicted found exceeds
    have inside : ∀ ann ∈ next.orphans, ann ∈ start.orphans :=
      fun ann member => subset ann (evicted.subset ann member)
    have counts : ¬ worst.2.compareByRatio ⟨1, 1⟩ ≠ .gt := not_not_intro ((compareByRatio_one_iff positive).mpr above)
    rw [evictWorst, chosen]
    simp only [if_neg counts, found, Option.isNone_some, Bool.false_eq_true, if_false, ran, bind,
      Except.bind, pure, Except.pure]
    by_cases more : next.needsTrim limits = true
    · simp only [more, not_true_eq_false, if_false]
      cases left : next.peerOrphanageInfo.lookup worst.1 with
      | none =>
        exact ih later evicted.consistent (heapOf.gone consistent member evicted left) kept inside more (by omega)
      | some rest =>
        have some_ : 0 < rest.countAnnouncements := by
          obtain ⟨⟨ann, listed, from_⟩, recount⟩ := evicted.consistent.lookup_iff.mp left
          by_contra zero
          rw [recount] at zero
          exact recountPeer_eq_zero_iff.mp (Nat.eq_zero_of_not_pos zero) ann listed from_
        simp only [if_pos some_, sharesOf.shares.getDosScore]
        exact ih later evicted.consistent (heapOf.push consistent member evicted left) kept inside more (by omega)
    · simp only [more]
      exact ⟨next, rfl, evicted.consistent, Bool.not_eq_true _ ▸ more, kept, inside⟩

end EvictWorst

/-! ## A call -/

theorem offenders_eq (shares : Shares maxLat maxMem) (peers : List ((_ : NodeId) × PeerDoSInfo)) :
    offenders maxLat maxMem peers = .ok ((peers.filter fun entry =>
          (entry.2.dosScore maxLat maxMem).compareByRatio ⟨1, 1⟩ = .gt).map
        fun entry => (entry.1, entry.2.dosScore maxLat maxMem)) := by
  induction peers with
  | nil => rfl
  | cons entry peers ih =>
    rw [offenders, shares.getDosScore, ih]
    by_cases above : (entry.2.dosScore maxLat maxMem).compareByRatio ⟨1, 1⟩ = .gt <;>
      simp [bind, Except.bind, pure, Except.pure, above]

theorem offenders_heapOf (shares : Shares maxLat maxMem) :
    ∃ heap, offenders maxLat maxMem orphanage.peerOrphanageInfo.entries = .ok heap ∧
      HeapOf maxLat maxMem orphanage heap := by
  refine ⟨_, offenders_eq shares _, fun entry inside => ?_, fun peer info found exceeds => ?_, ?_⟩
  · obtain ⟨⟨peer, info⟩, listed, rfl⟩ := List.mem_map.mp inside
    exact ⟨info, AList.mem_lookup_iff.mpr (List.mem_filter.mp listed).1, rfl⟩
  · refine List.mem_map.mpr ⟨⟨peer, info⟩, List.mem_filter.mpr ⟨AList.mem_lookup_iff.mp found, ?_⟩, rfl⟩
    rw [decide_eq_true_eq, compareByRatio_one_iff shares.size_pos]
    exact shares.one_lt_score_iff.mpr exceeds
  · rw [List.map_map]
    exact orphanage.peerOrphanageInfo.keys_nodup.sublist (List.filter_sublist.map Sigma.fst)

/-- The limits the size of a fraction can hold. -/
structure OrphanageLimits.Fit (limits : OrphanageLimits) : Prop where
  mem_pos : 0 < limits.reservedUsagePerPeer
  mem_fits : limits.reservedUsagePerPeer < 2 ^ 31
  lat_fits : limits.maxGlobalLatencyScore < 2 ^ 31

/-- What `LimitOrphans` does, as long as there are no more peers than units of latency. -/
theorem limitOrphans_spec (fit : limits.Fit) (consistent : orphanage.Consistent)
    (peers : orphanage.peerOrphanageInfo.keys.length ≤ limits.maxGlobalLatencyScore) :
    ∃ last, orphanage.limitOrphans limits = .ok last ∧ last.Consistent ∧ last.needsTrim limits = false ∧
      Spared (orphanage.maxPeerLatencyScore limits) limits.reservedUsagePerPeer orphanage last ∧
      ∀ ann ∈ last.orphans, ann ∈ orphanage.orphans := by
  unfold limitOrphans
  by_cases trim : orphanage.needsTrim limits = true
  · have somebody : 0 < orphanage.peerOrphanageInfo.keys.length := by
      by_contra nobody
      obtain ⟨lat, mem⟩ := @within_of_none_exceeds _ orphanage 0 0 consistent fun peer info found => by
          obtain ⟨⟨ann, inside, -⟩, -⟩ := consistent.lookup_iff.mp found
          exact absurd (List.length_pos_of_mem (consistent.announcer_mem inside)) nobody
      have share : 0 ≤ orphanage.maxGlobalUsage limits := mul_nonneg fit.mem_pos.le (Int.natCast_nonneg _)
      cases trim.symm.trans (needsTrim_eq_false_iff.mpr ⟨by omega, by omega⟩)
    have count : max orphanage.peerOrphanageInfo.keys.length 1 =
        orphanage.peerOrphanageInfo.keys.length := max_eq_left somebody
    have sharesOf : SharesOf limits (orphanage.maxPeerLatencyScore limits) limits.reservedUsagePerPeer orphanage := by
      refine ⟨⟨?_, ?_, fit.mem_pos, fit.mem_fits⟩, ?_, rfl⟩
      · rw [maxPeerLatencyScore, count]
        exact Nat.div_pos peers somebody
      · exact (Nat.div_le_self _ _).trans_lt fit.lat_fits
      · rw [maxPeerLatencyScore, count]
        exact Nat.mul_div_le _ _
    obtain ⟨heap, found, heapOf⟩ := @offenders_heapOf _ orphanage _ _ sharesOf.shares
    simp only [if_pos trim, found, bind, Except.bind]
    exact evictWorst_spec sharesOf consistent heapOf .refl
      (fun _ inside => inside) trim le_rfl
  · rw [if_neg trim]
    exact ⟨orphanage, rfl, consistent, Bool.not_eq_true _ ▸ trim, .refl, fun _ inside => inside⟩

/-! ## Runs -/

section Runs

variable {call : OrphanageCall sha256d} {txs : List (CTransactionRef sha256d)}

theorem mem_orphans_eraseForBlock (consistent : orphanage.Consistent) {wtxids : List Uint256}
    (inside : ann ∈ (wtxids.foldl eraseTxInternal orphanage).orphans) : ann ∈ orphanage.orphans := by
  induction wtxids generalizing orphanage with
  | nil => exact inside
  | cons wtxid wtxids ih =>
    exact consistent.eraseSelected.2 ann (ih (consistent.eraseTxInternal wtxid) inside)

theorem tx_mem_setReconsider {marked : Announcement sha256d} {reconsider : Bool}
    (inside : ann ∈ (orphanage.setReconsider marked reconsider).orphans) :
    ∃ other ∈ orphanage.orphans, other.tx = ann.tx := by
  obtain ⟨other, member, rfl⟩ := List.mem_map.mp inside
  refine ⟨other, member, ?_⟩
  split <;> rfl

theorem needsTrim_marked (ann : Announcement sha256d) (reconsider : Bool) (marked : List Uint256) :
    { orphanage.setReconsider ann reconsider with reconsiderableWtxids := marked }.needsTrim limits =
      orphanage.needsTrim limits := by
  have length : (orphanage.setReconsider ann reconsider).orphans.length = orphanage.orphans.length :=
    List.length_map _
  unfold needsTrim totalLatencyScore
  dsimp only
  rw [length]
  rfl

/-- The totals stay, and no transaction is added. -/
def SameTotals (limits : OrphanageLimits) (orphanage after : TxOrphanage sha256d) : Prop :=
  after.needsTrim limits = orphanage.needsTrim limits ∧
    ∀ ann ∈ after.orphans, ∃ other ∈ orphanage.orphans, other.tx = ann.tx

theorem SameTotals.refl : SameTotals limits orphanage orphanage := ⟨rfl, fun ann inside => ⟨ann, inside, rfl⟩⟩

theorem SameTotals.trans {middle after : TxOrphanage sha256d} (first : SameTotals limits orphanage middle)
    (second : SameTotals limits middle after) : SameTotals limits orphanage after := by
  refine ⟨second.1.trans first.1, fun ann inside => ?_⟩
  obtain ⟨other, member, same⟩ := second.2 ann inside
  obtain ⟨earlier, known, equal⟩ := first.2 other member
  exact ⟨earlier, known, equal.trans same⟩

theorem markChild_totals (random : Nat) (wtxid : Uint256) :
    SameTotals limits orphanage (orphanage.markChild random wtxid) := by
  unfold markChild
  split
  · exact .refl
  · split
    · exact .refl
    · exact ⟨needsTrim_marked _ _ _, fun ann inside => tx_mem_setReconsider inside⟩

theorem addChildrenToWorkSet_totals (tx : CTransactionRef sha256d) (randrange : Nat → Nat) :
    SameTotals limits orphanage (orphanage.addChildrenToWorkSet tx randrange) := by
  unfold addChildrenToWorkSet
  dsimp only
  generalize List.zipIdx _ = children
  induction children generalizing orphanage with
  | nil => exact .refl
  | cons child children ih => exact (markChild_totals (randrange child.2) child.1).trans ih

theorem getTxToReconsider_totals (peer : NodeId) :
    SameTotals limits orphanage (orphanage.getTxToReconsider peer).2 := by
  unfold getTxToReconsider
  split
  · exact .refl
  · exact ⟨needsTrim_marked _ _ _, fun ann inside => tx_mem_setReconsider inside⟩

/-- What the first part of a call does to the transactions, and to the totals if they are not limited
after it. -/
structure Begins (limits : OrphanageLimits) (orphanage : TxOrphanage sha256d) (call : OrphanageCall sha256d)
    (begun : TxOrphanage sha256d × Bool) : Prop where
  txs : ∀ ann ∈ begun.1.orphans,
    (∃ other ∈ orphanage.orphans, other.tx = ann.tx) ∨ ∃ peer, call = .addTx ann.tx peer
  totals : begun.2 = false → begun.1.needsTrim limits = orphanage.needsTrim limits

theorem SameTotals.begins {after : TxOrphanage sha256d} (same : SameTotals limits orphanage after) (limited : Bool) :
    Begins limits orphanage call (after, limited) :=
  ⟨fun ann inside => .inl (same.2 ann inside), fun _ => same.1⟩

theorem begins (consistent : orphanage.Consistent) (call : OrphanageCall sha256d) :
    Begins limits orphanage call (orphanage.begin call) := by
  have unchanged : Begins limits orphanage call (orphanage, false) := SameTotals.refl.begins false
  have fewer {after : TxOrphanage sha256d} (subset : ∀ ann ∈ after.orphans, ann ∈ orphanage.orphans) :
      Begins limits orphanage call (after, true) :=
    ⟨fun ann inside => .inl ⟨ann, subset ann inside, rfl⟩, fun unlimited => by cases unlimited⟩
  have announced {after : TxOrphanage sha256d} {ann : Announcement sha256d}
      (orphans : after.orphans = ann :: orphanage.orphans)
      (known : (∃ other ∈ orphanage.orphans, other.tx = ann.tx) ∨ ∃ peer, call = .addTx ann.tx peer) :
      Begins limits orphanage call (after, true) := by
    refine ⟨fun other inside => ?_, fun unlimited => by cases unlimited⟩
    rw [orphans] at inside
    rcases List.mem_cons.mp inside with rfl | inside
    · exact known
    · exact .inl ⟨other, inside, rfl⟩
  cases call with
  | addTx tx peer =>
    simp only [begin, addTx]
    split
    · exact unchanged
    split
    · exact unchanged
    split <;> exact announced rfl (.inr ⟨peer, rfl⟩)
  | addAnnouncer wtxid peer =>
    simp only [begin, addAnnouncer]
    split
    · exact unchanged
    next known rest found =>
      have member : known ∈ orphanage.announcementsOf wtxid := by
        rw [found]
        exact .head _
      split
      · exact unchanged
      · exact announced rfl (.inl ⟨known, (List.mem_filter.mp member).1, rfl⟩)
  | eraseTx wtxid => exact fewer consistent.eraseSelected.2
  | eraseForPeer peer =>
    simp only [begin, eraseForPeer]
    split
    · exact unchanged
    · exact fewer consistent.eraseSelected.2
  | eraseForBlock block =>
    simp only [begin, eraseForBlock]
    split
    · exact unchanged
    · exact fewer fun ann => mem_orphans_eraseForBlock consistent
  | addChildrenToWorkSet tx randrange => exact (addChildrenToWorkSet_totals tx randrange).begins false
  | getTxToReconsider peer => exact (getTxToReconsider_totals peer).begins false

theorem begin_consistent (consistent : orphanage.Consistent) (call : OrphanageCall sha256d)
    (apart : ∀ tx peer, call = .addTx tx peer → ∀ other ∈ orphanage.orphans,
      other.tx.witnessHash = tx.witnessHash → other.tx = tx) :
    (orphanage.begin call).1.Consistent := by
  cases call with
  | addTx tx peer => exact consistent.addTx tx peer (apart tx peer rfl)
  | addAnnouncer wtxid peer => exact consistent.addAnnouncer wtxid peer
  | eraseTx wtxid => exact consistent.eraseTxInternal wtxid
  | eraseForPeer peer => exact consistent.eraseForPeer peer
  | eraseForBlock block => exact consistent.eraseForBlock block
  | addChildrenToWorkSet tx randrange => exact consistent.addChildrenToWorkSet tx randrange
  | getTxToReconsider peer => exact consistent.getTxToReconsider peer

def TxOrphanage.run (limits : OrphanageLimits) (calls : List (OrphanageCall sha256d)) :
    Except OrphanageFailure (TxOrphanage sha256d) :=
  calls.foldlM (perform limits) {}

/-- At no time more peers have announcements than there are units of latency. -/
def staysWithin (limits : OrphanageLimits) : TxOrphanage sha256d → List (OrphanageCall sha256d) → Bool
  | _, [] => true
  | orphanage, call :: calls =>
    decide ((orphanage.begin call).1.peerOrphanageInfo.keys.length ≤ limits.maxGlobalLatencyScore) &&
      match orphanage.perform limits call with
      | .ok next => staysWithin limits next calls
      | .error _ => true

def addedTxs (calls : List (OrphanageCall sha256d)) : List (CTransactionRef sha256d) :=
  calls.filterMap fun
    | .addTx tx _ => some tx
    | _ => none

/-- No two transactions share a wtxid. -/
def ToldApart (txs : List (CTransactionRef sha256d)) : Prop :=
  ∀ left ∈ txs, ∀ right ∈ txs, left.witnessHash = right.witnessHash → left = right

/-- What a call leaves behind, seen from the state when it gets to `LimitOrphans`. -/
structure Protects (limits : OrphanageLimits) (reached after : TxOrphanage sha256d) : Prop where
  consistent : after.Consistent
  usage : after.uniqueOrphanUsage ≤ limits.reservedUsagePerPeer * after.peerOrphanageInfo.keys.length
  latency : after.totalLatencyScore ≤ limits.maxGlobalLatencyScore
  spares : ∀ ann ∈ reached.orphans, reached.usageByPeer ann.announcer ≤ limits.reservedUsagePerPeer →
    reached.latencyScoreFromPeer ann.announcer ≤ limits.maxGlobalLatencyScore / reached.peerOrphanageInfo.keys.length →
    ann ∈ after.orphans

/-- What holds between calls. -/
structure Kept (limits : OrphanageLimits) (txs : List (CTransactionRef sha256d))
    (orphanage : TxOrphanage sha256d) : Prop where
  consistent : orphanage.Consistent
  fine : orphanage.needsTrim limits = false
  txs : ∀ ann ∈ orphanage.orphans, ann.tx ∈ txs

theorem usage_le_of_fine (consistent : orphanage.Consistent) (fine : orphanage.needsTrim limits = false) :
    orphanage.uniqueOrphanUsage ≤ limits.reservedUsagePerPeer * orphanage.peerOrphanageInfo.keys.length := by
  have within := (needsTrim_eq_false_iff.mp fine).2
  rw [maxGlobalUsage] at within
  cases keys : orphanage.peerOrphanageInfo.keys with
  | nil =>
    -- Without peers there are no announcements, and nothing is used.
    have empty : orphanage.orphans = [] := by
      refine List.eq_nil_iff_forall_not_mem.mpr fun ann inside => ?_
      have member := consistent.announcer_mem inside
      rw [keys] at member
      cases member
    rw [consistent.tallies.usage, empty]
    simp [distinctTotal]
  | cons peer peers =>
    rw [keys] at within
    simpa using within

theorem Kept.perform (fit : limits.Fit) (told : ToldApart txs)
    (kept : Kept limits txs orphanage) (call : OrphanageCall sha256d)
    (added : ∀ tx peer, call = .addTx tx peer → tx ∈ txs)
    (peers : (orphanage.begin call).1.peerOrphanageInfo.keys.length ≤ limits.maxGlobalLatencyScore) :
    ∃ after, orphanage.perform limits call = .ok after ∧ Kept limits txs after ∧
      Protects limits (orphanage.begin call).1 after := by
  have consistent : (orphanage.begin call).1.Consistent :=
    begin_consistent kept.consistent call fun tx peer same other inside equal =>
      told other.tx (kept.txs other inside) tx (added tx peer same) equal
  have begins := @begins _ orphanage limits kept.consistent call
  have txs_begin : ∀ ann ∈ (orphanage.begin call).1.orphans, ann.tx ∈ txs := by
    intro ann inside
    rcases begins.txs ann inside with ⟨other, known, same⟩ | ⟨peer, same⟩
    · exact same ▸ kept.txs other known
    · exact added ann.tx peer same
  unfold TxOrphanage.perform
  generalize orphanage.begin call = begun at *
  obtain ⟨reached, limited⟩ := begun
  cases limited with
  | false =>
    have fine : reached.needsTrim limits = false := (begins.totals rfl).trans kept.fine
    exact ⟨_, rfl, ⟨consistent, fine, txs_begin⟩, consistent, usage_le_of_fine consistent fine,
      (needsTrim_eq_false_iff.mp fine).1, fun _ inside _ _ => inside⟩
  | true =>
    obtain ⟨after, ran, later, fine, spared, subset⟩ := limitOrphans_spec fit consistent peers
    refine ⟨after, ran, ⟨later, fine, fun ann inside => txs_begin ann (subset ann inside)⟩, later,
      usage_le_of_fine later fine, (needsTrim_eq_false_iff.mp fine).1, fun ann inside mem lat => ?_⟩
    have found := consistent.lookup_of_mem_keys (consistent.announcer_mem inside)
    have count : max reached.peerOrphanageInfo.keys.length 1 = reached.peerOrphanageInfo.keys.length :=
      max_eq_left (List.length_pos_of_mem (consistent.announcer_mem inside))
    rw [TxOrphanage.usageByPeer, found] at mem
    rw [TxOrphanage.latencyScoreFromPeer, found] at lat
    refine (spared ann.announcer _ found ?_).2 ann inside rfl
    rw [PeerDoSInfo.Exceeds, TxOrphanage.maxPeerLatencyScore, count, not_or]
    exact ⟨Nat.not_lt.mpr lat, Int.not_lt.mpr mem⟩

theorem Kept.run (fit : limits.Fit) (told : ToldApart txs)
    {calls later : List (OrphanageCall sha256d)} (kept : Kept limits txs orphanage)
    (added : ∀ tx ∈ addedTxs calls, tx ∈ txs) (stays : staysWithin limits orphanage (calls ++ later) = true) :
    ∃ last, calls.foldlM (TxOrphanage.perform limits) orphanage = .ok last ∧ Kept limits txs last ∧
      staysWithin limits last later = true := by
  induction calls generalizing orphanage with
  | nil => exact ⟨orphanage, rfl, kept, stays⟩
  | cons call calls ih =>
    rw [List.cons_append, staysWithin, Bool.and_eq_true] at stays
    obtain ⟨next, ran, keptNext, -⟩ := kept.perform fit told call
      (fun tx peer same => added tx (by simp [addedTxs, same])) (of_decide_eq_true stays.1)
    rw [ran] at stays
    obtain ⟨last, rest, keptLast, within⟩ := ih keptNext (fun tx inside => added tx (by
        rw [addedTxs, List.filterMap_cons]
        split
        · exact inside
        · exact .tail _ inside)) stays.2
    refine ⟨last, ?_, keptLast, within⟩
    rw [List.foldlM_cons, ran]
    exact rest

theorem kept_empty (fit : limits.Fit) (txs : List (CTransactionRef sha256d)) : Kept limits txs {} where
  consistent := consistent_empty
  fine := needsTrim_eq_false_iff.mpr ⟨Nat.zero_le _, mul_nonneg fit.mem_pos.le (Int.natCast_nonneg _)⟩
  txs := by simp

/-- Every call of every run ends, without meeting an empty heap or a worst peer within its
share; it leaves the orphanage consistent and within its limits, and `LimitOrphans` takes
nothing from a peer within its share. -/
theorem orphanage_protects (fit : limits.Fit) (calls : List (OrphanageCall sha256d)) (call : OrphanageCall sha256d)
    (told : ToldApart (addedTxs (calls ++ [call]))) (stays : staysWithin limits {} (calls ++ [call]) = true) :
    ∃ before after, TxOrphanage.run limits calls = .ok before ∧
      before.perform limits call = .ok after ∧ Protects limits (before.begin call).1 after := by
  have whole : addedTxs (calls ++ [call]) = addedTxs calls ++ addedTxs [call] := List.filterMap_append
  obtain ⟨before, ran, kept, within⟩ := (kept_empty fit (addedTxs (calls ++ [call]))).run fit told
    (fun tx inside => by rw [whole]; exact List.mem_append_left _ inside) stays
  rw [staysWithin, Bool.and_eq_true] at within
  obtain ⟨after, performed, -, protects⟩ := kept.perform fit told call (fun tx peer same => by
      rw [whole]
      exact List.mem_append_right _ (by simp [addedTxs, same])) (of_decide_eq_true within.1)
  exact ⟨before, after, ran, performed, protects⟩

def sampleTx (nLockTime : UInt32) (length : Nat) : CTransaction :=
  { vin := [{ prevout := ⟨.zero, 0⟩, scriptSig := List.replicate length 0, nSequence := 0 }]
    nLockTime := nLockTime }

def sampleOrphan (nLockTime : UInt32) (length hash : Nat)
    (hash_eq : .ofNat hash = (sampleTx nLockTime length).getHash Sha256.doubleDigest) :
    CTransactionRef Sha256.doubleDigest :=
  ⟨sampleTx nLockTime length, .ofNat hash, .ofNat hash, hash_eq, hash_eq⟩

/-- Peer 0 announces one heavy transaction, peer 1 a light one, and then a second one. -/
def sampleCalls : List (OrphanageCall Sha256.doubleDigest) :=
  [.addTx (sampleOrphan 1 150 0x83443daf87147669d6064036578c681fed023e2f62ab25b9656715ecc50639c0 (by decide +kernel)) 0,
   .addTx (sampleOrphan 2 0 0xaeb777cea9526a96be14f43228fdd81c05b03e10e36e1a7a0505d767bc707526 (by decide +kernel)) 1]

def sampleCall : OrphanageCall Sha256.doubleDigest :=
  .addTx (sampleOrphan 3 0 0x21e562fe99adeca09318ba674c2c211ff2451d0a7b1bf5150a4fdfaa400de5a3 (by decide +kernel)) 1

theorem sampleCalls_toldApart : ToldApart (addedTxs (sampleCalls ++ [sampleCall])) := by
  unfold ToldApart
  decide +kernel

theorem orphanage_protects_sample : ∃ before after, run ⟨2, 404000⟩ sampleCalls = .ok before ∧
      before.perform ⟨2, 404000⟩ sampleCall = .ok after ∧
      Protects ⟨2, 404000⟩ (before.begin sampleCall).1 after :=
  orphanage_protects ⟨by decide, by decide, by decide⟩ sampleCalls sampleCall sampleCalls_toldApart
    (by decide +kernel)

/-- A reserved usage of `2 ^ 32 + 1` is a size of one, and the heavy announcement is taken
from a peer within its share. With none reserved, the first call fails an assertion. -/
theorem orphanage_wide_limits : (ToldApart (addedTxs (sampleCalls ++ [sampleCall])) ∧
      staysWithin ⟨2, 4294967297⟩ {} (sampleCalls ++ [sampleCall]) = true ∧
      ¬ ∃ before after, run ⟨2, 4294967297⟩ sampleCalls = .ok before ∧
        before.perform ⟨2, 4294967297⟩ sampleCall = .ok after ∧
        Protects ⟨2, 4294967297⟩ (before.begin sampleCall).1 after) ∧
      ¬ ∃ after, perform ⟨2, 0⟩ {} sampleCall = .ok after := by
  have taken : (match run ⟨2, 4294967297⟩ sampleCalls with
      | .error _ => false
      | .ok before =>
        match before.perform ⟨2, 4294967297⟩ sampleCall with
        | .error _ => false
        | .ok after => (before.begin sampleCall).1.orphans.any fun ann =>
          decide ((before.begin sampleCall).1.usageByPeer ann.announcer ≤ 4294967297) &&
            decide ((before.begin sampleCall).1.latencyScoreFromPeer ann.announcer ≤
              2 / (before.begin sampleCall).1.peerOrphanageInfo.keys.length) &&
            decide (ann ∉ after.orphans)) = true := by
    decide +kernel
  refine ⟨⟨sampleCalls_toldApart, by decide +kernel, ?_⟩, ?_⟩
  · rintro ⟨before, after, ran, performed, protects⟩
    rw [ran] at taken
    dsimp only at taken
    rw [performed] at taken
    obtain ⟨ann, inside, found⟩ := List.any_eq_true.mp taken
    simp only [Bool.and_eq_true, decide_eq_true_eq] at found
    exact found.2 (protects.spares ann inside found.1.1 found.1.2)
  · rintro ⟨after, performed⟩
    have failed : (perform ⟨2, 0⟩ {} sampleCall).isOk = false := by decide +kernel
    rw [performed] at failed
    cases failed

end Runs

end Sharecoin
