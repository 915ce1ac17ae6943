import Sharecoin.Validation.DisconnectBlock
import Sharecoin.Validation.NoInflation

/-! Disconnecting a block right after it was connected, with the undo data of the
connection, leads back to the map of coins from before. Each loop of the disconnection
is followed backwards along the effect it takes back. -/

set_option autoImplicit false

namespace Sharecoin

open Lib Program

/-! ## Coins that can be put back -/

/-- A coin that undo data restore as it was: it has a height, which marks complete undo
data, and a script that `AddCoin` does not ignore. -/
structure Restorable (coin : Coin) : Prop where
  unspent : coin.isSpent = false
  dated : coin.nHeight ≠ 0
  spendable : CScript.isUnspendable coin.out.scriptPubKey = false

def RestorableAt (wanted : COutPoint → Prop) (coins : CoinMap) : Prop :=
  ∀ outpoint coin, wanted outpoint → coins.lookup outpoint = some coin → Restorable coin

def AllRestorable (coins : CoinMap) : Prop := RestorableAt (fun _ => True) coins

/-- The disconnection reports success and leaves these coins. -/
abbrev Restores (disconnect : DisconnectM) (view : CCoinsView) (coins : CoinMap) (layers : List CoinMap) : Prop :=
  ∃ finish, Returns disconnect view true finish ∧ Represents finish coins layers

variable {sha256d : Bytes → Uint256} {wanted : COutPoint → Prop} {here after below : CoinMap}
  {deeper : List CoinMap} {view : CCoinsView} {outpoint : COutPoint} {vin : List CTxIn}
  {coins : List Coin} {txout : CTxOut} {vtx : List CTransaction} {undos : List CTxUndo} {fees : Int} {coin : Coin}

theorem RestorableAt.erase (restorable : RestorableAt wanted here) (outpoint : COutPoint) :
    RestorableAt wanted (here.erase outpoint) := by
  intro other coin needed found
  by_cases same : other = outpoint
  · rw [same, Finmap.lookup_erase] at found
    cases found
  · rw [Finmap.lookup_erase_ne same] at found
    exact restorable other coin needed found

theorem RestorableAt.spends (restorable : RestorableAt wanted here) (needed : ∀ txin ∈ vin, wanted txin.prevout)
    (spends : Spends here vin coins after) : (∀ coin ∈ coins, Restorable coin) ∧ RestorableAt wanted after := by
  induction spends with
  | nil here => exact ⟨List.forall_mem_nil _, restorable⟩
  | @cons here after txin vin coin coins found rest ih =>
    obtain ⟨others, final⟩ := ih (restorable.erase txin.prevout) (List.forall_mem_cons.mp needed).2
    exact ⟨List.forall_mem_cons.mpr ⟨restorable txin.prevout _ (needed txin (.head _)) found, others⟩, final⟩

/-! ## Inputs -/

theorem applyTxInUndo_returns (restorable : Restorable coin) (found : here.lookup outpoint = some coin)
    (represents : Represents view (here.erase outpoint) (below :: deeper)) :
    Restores (applyTxInUndo coin outpoint) view here (below :: deeper) := by
  have absent : (here.erase outpoint).lookup outpoint = none := Finmap.lookup_erase outpoint here
  obtain ⟨looked, answered, stands⟩ := haveCoin_returns (φ := Unit) represents outpoint
  rw [absent] at answered
  obtain ⟨finish, added, stands⟩ := addCoin_spec stands restorable.unspent (.inr absent)
  have restored : plainAdd (here.erase outpoint) outpoint coin = here := by
    rw [plainAdd, if_neg (Bool.eq_false_iff.mp restorable.spendable)]
    exact insert_erase_of_lookup found
  rw [restored] at stands
  refine ⟨finish, ?_, stands⟩
  simp only [applyTxInUndo, fillUndo, restorable.dated, if_false, returns_bind_iff, returns_pure_iff]
  exact ⟨_, looked, answered, coin, looked, ⟨rfl, rfl⟩, (), finish, returns_addCoin_iff.mpr added, rfl, rfl⟩

theorem restoreInputs_returns (spends : Spends here vin coins after) (restorable : ∀ coin ∈ coins, Restorable coin)
    (represents : Represents view after (below :: deeper)) :
    Restores (restoreInputs (vin.zip coins).reverse) view here (below :: deeper) := by
  induction spends with
  | nil here => exact ⟨view, returns_pure_iff.mpr ⟨rfl, rfl⟩, represents⟩
  | @cons here after txin vin coin coins found rest ih =>
    obtain ⟨middle, others, stands⟩ := ih (List.forall_mem_cons.mp restorable).2 represents
    obtain ⟨finish, own, stands⟩ := applyTxInUndo_returns (restorable coin (.head _)) found stands
    rw [List.zip_cons_cons]
    exact ⟨finish, returns_allOf_reverse_cons others own, stands⟩

theorem Spends.length_eq (spends : Spends here vin coins after) : coins.length = vin.length := by
  induction spends with
  | nil here => rfl
  | cons found rest ih => rw [List.length_cons, List.length_cons, ih]

section

variable {nHeight : Int}

theorem Connects.length_eq (connects : Connects sha256d nHeight here vtx undos fees after) :
    undos.length = vtx.length := by
  induction connects with
  | nil here => rfl
  | cons regular applies paid nonneg rest ih => rw [List.length_cons, List.length_cons, ih]

/-! ## Outputs -/

variable {txid : Uint256} {fCoinbase : Bool} {i : Nat} {vout : List CTxOut}

theorem plainAdd_erase {other : COutPoint} (different : other ≠ outpoint) :
    plainAdd (here.erase other) outpoint coin = (plainAdd here outpoint coin).erase other := by
  unfold plainAdd
  split
  · rfl
  apply Finmap.ext_lookup
  intro key
  by_cases removed : key = other
  · subst removed
    rw [Finmap.lookup_insert_of_ne _ different, Finmap.lookup_erase, Finmap.lookup_erase]
  rw [Finmap.lookup_erase_ne removed]
  by_cases added : key = outpoint
  · subst added
    rw [Finmap.lookup_insert, Finmap.lookup_insert]
  · rw [Finmap.lookup_insert_of_ne _ added, Finmap.lookup_insert_of_ne _ added, Finmap.lookup_erase_ne removed]

section

variable (creates : Creates txid nHeight fCoinbase i here vout after)
  (other : ∀ j, i ≤ j → j < i + vout.length → outpoint ≠ ⟨txid, UInt32.ofNat j⟩)

include creates other

theorem Creates.lookup_eq : after.lookup outpoint = here.lookup outpoint := by
  induction creates with
  | nil i here => rfl
  | @cons i here after txout vout free rest ih =>
    rw [List.length_cons] at other
    rw [ih fun j lower upper => other j (by omega) (by omega),
      plainAdd_lookup_ne (other i (Nat.le_refl i) (by omega))]

theorem Creates.erase : Creates txid nHeight fCoinbase i (here.erase outpoint) vout (after.erase outpoint) := by
  induction creates with
  | nil i here => exact .nil i _
  | @cons i here after txout vout free rest ih =>
    rw [List.length_cons] at other
    have apart := other i (Nat.le_refl i) (by omega)
    refine .cons ?_ ?_
    · rw [Finmap.lookup_erase_ne apart.symm]
      exact free
    · rw [plainAdd_erase apart]
      exact ih fun j lower upper => other j (by omega) (by omega)

end

theorem Creates.uncons (fits : i + (vout.length + 1) < 2 ^ 32)
    (spendable : CScript.isUnspendable txout.scriptPubKey = false)
    (creates : Creates txid nHeight fCoinbase i here (txout :: vout) after) :
    after.lookup ⟨txid, UInt32.ofNat i⟩ = some (.ofOutput txout nHeight fCoinbase) ∧
      Creates txid nHeight fCoinbase (i + 1) here vout (after.erase ⟨txid, UInt32.ofNat i⟩) := by
  cases creates with
  | cons free rest =>
    have absent := free.resolve_left (Bool.eq_false_iff.mp spendable)
    have added : plainAdd here ⟨txid, UInt32.ofNat i⟩ (.ofOutput txout nHeight fCoinbase) =
        here.insert ⟨txid, UInt32.ofNat i⟩ (.ofOutput txout nHeight fCoinbase) :=
      if_neg (Bool.eq_false_iff.mp spendable)
    have other : ∀ j, i + 1 ≤ j → j < i + 1 + vout.length →
        (⟨txid, UInt32.ofNat i⟩ : COutPoint) ≠ ⟨txid, UInt32.ofNat j⟩ :=
      fun j lower upper => outpoint_ne (by omega) (by omega) (by omega)
    have removed := rest.erase other
    have found := rest.lookup_eq other
    rw [added] at removed found
    rw [Finmap.lookup_insert] at found
    rw [erase_insert_of_lookup absent] at removed
    exact ⟨found, removed⟩

variable (positive : 1 ≤ nHeight) (fits : nHeight < 2 ^ 31)

include positive fits

theorem height_toNat : ((BitVec.ofInt 31 nHeight).toNat : Int) = nHeight := by
  rw [BitVec.toNat_ofInt]
  omega

theorem restorable_ofOutput (nonneg : 0 ≤ txout.nValue) (spendable : CScript.isUnspendable txout.scriptPubKey = false) :
    Restorable (.ofOutput txout nHeight fCoinbase) := by
  refine ⟨?_, ?_, spendable⟩
  · rw [Coin.isSpent, CTxOut.isNull, beq_eq_false_iff_ne]
    intro null
    have value : txout.nValue = -1 := null
    omega
  intro undated
  have height := height_toNat positive fits
  rw [show BitVec.ofInt 31 nHeight = 0 from undated] at height
  simp at height
  omega

theorem RestorableAt.creates (nonneg : ∀ txout ∈ vout, 0 ≤ txout.nValue) (restorable : RestorableAt wanted here)
    (creates : Creates txid nHeight fCoinbase i here vout after) : RestorableAt wanted after := by
  induction creates with
  | nil i here => exact restorable
  | @cons i here after txout vout free rest ih =>
    refine ih (List.forall_mem_cons.mp nonneg).2 ?_
    unfold plainAdd
    split
    · exact restorable
    next spendable =>
      intro outpoint coin needed found
      by_cases same : outpoint = ⟨txid, UInt32.ofNat i⟩
      · rw [same, Finmap.lookup_insert] at found
        cases found
        exact restorable_ofOutput positive fits (nonneg txout (.head _)) (Bool.eq_false_iff.mpr spendable)
      · rw [Finmap.lookup_insert_of_ne here same] at found
        exact restorable outpoint coin needed found

theorem matchesOutput_self :
    matchesOutput txout nHeight fCoinbase (some (.ofOutput txout nHeight fCoinbase)) = true := by
  have height := height_toNat positive fits
  simp only [matchesOutput, Coin.ofOutput, height, decide_true, beq_self_eq_true, Bool.and_self]

variable {fEnforceBIP30 : Bool} {tx : CTransaction} {undo : CTxUndo}

theorem RestorableAt.applies (restorable : RestorableAt wanted here)
    (needed : tx.isCoinBase = false → ∀ txin ∈ tx.vin, wanted txin.prevout)
    (nonneg : ∀ txout ∈ tx.vout, 0 ≤ txout.nValue)
    (applies : Applies sha256d nHeight tx here undo after) : RestorableAt wanted after := by
  obtain ⟨_, spends, creates⟩ := applies
  have spent : ∀ txin ∈ (if tx.isCoinBase then [] else tx.vin), wanted txin.prevout := by
    cases kind : tx.isCoinBase with
    | true => exact List.forall_mem_nil _
    | false => exact needed kind
  exact (restorable.spends spent spends).2.creates positive fits nonneg creates

theorem Connects.allRestorable (restorable : AllRestorable here)
    (connects : Connects sha256d nHeight here vtx undos fees after) : AllRestorable after := by
  induction connects with
  | nil here => exact restorable
  | cons regular applies paid nonneg rest ih =>
    exact ih (restorable.applies positive fits (fun _ _ _ => trivial) nonneg applies)

variable (represents : Represents view after (below :: deeper))

include represents

theorem removeOutputs_returns {isBip30Exception : Bool} (numbered : i + vout.length < 2 ^ 32)
    (creates : Creates txid nHeight fCoinbase i here vout after) :
    Restores (removeOutputs txid nHeight fCoinbase isBip30Exception i vout) view here (below :: deeper) := by
  induction vout generalizing i after view with
  | nil =>
    cases creates
    exact ⟨view, returns_pure_iff.mpr ⟨rfl, rfl⟩, represents⟩
  | cons txout vout ih =>
    rw [List.length_cons] at numbered
    cases spendable : CScript.isUnspendable txout.scriptPubKey with
    | true =>
      cases creates with
      | cons free rest =>
        have ignored : plainAdd here ⟨txid, UInt32.ofNat i⟩
            (.ofOutput txout nHeight fCoinbase) = here := if_pos spendable
        rw [ignored] at rest
        obtain ⟨finish, ran, stands⟩ := ih represents (by omega) rest
        refine ⟨finish, ?_, stands⟩
        simp only [removeOutputs, spendable, if_true, returns_bind_iff, returns_pure_iff]
        exact ⟨true, view, ⟨rfl, rfl⟩, true, finish, ran, rfl, rfl⟩
    | false =>
      obtain ⟨found, rest⟩ := creates.uncons (by omega) spendable
      obtain ⟨middle, spent, stands⟩ := spendCoin_returns represents found
      obtain ⟨finish, ran, stands⟩ := ih stands (by omega) rest
      refine ⟨finish, ?_, stands⟩
      simp only [removeOutputs, spendable, Bool.false_eq_true, if_false, returns_bind_iff, returns_pure_iff]
      refine ⟨true, middle, ⟨_, _, spent, ?_, rfl⟩, true, finish, ran, rfl, rfl⟩
      rw [matchesOutput_self positive fits, Bool.true_or]

/-! ## Transactions -/

/-- A transaction that is no coinbase leaves restorable coins, and is taken back. -/
theorem disconnectTransaction_returns (regular : tx.isCoinBase = false) (restorable : RestorableAt wanted here)
    (needed : ∀ txin ∈ tx.vin, wanted txin.prevout) (applies : Applies sha256d nHeight tx here undo after) :
    Restores (disconnectTransaction sha256d nHeight fEnforceBIP30 tx (some undo)) view here (below :: deeper) := by
  obtain ⟨numbered, spends, creates⟩ := applies
  rw [regular, if_neg Bool.false_ne_true] at spends
  obtain ⟨middle, removed, stands⟩ := removeOutputs_returns positive fits represents (by omega) creates
  obtain ⟨finish, restored, stands⟩ := restoreInputs_returns spends (restorable.spends needed spends).1 stands
  refine ⟨finish, ?_, stands⟩
  simp only [disconnectTransaction, returns_bind_iff, returns_require_iff, returns_pure_iff]
  exact ⟨true, middle, removed, (), middle, ⟨decide_eq_true spends.length_eq, rfl⟩, true, finish, restored, rfl, rfl⟩

theorem disconnectCoinbase_returns (minted : tx.isCoinBase = true) (applies : Applies sha256d nHeight tx here {} after) :
    Restores (disconnectTransaction sha256d nHeight fEnforceBIP30 tx none) view here (below :: deeper) := by
  obtain ⟨numbered, spends, creates⟩ := applies
  rw [minted, if_pos rfl] at spends
  cases spends
  obtain ⟨finish, removed, stands⟩ := removeOutputs_returns positive fits represents (by omega) creates
  refine ⟨finish, ?_, stands⟩
  simp only [disconnectTransaction, returns_bind_iff, returns_pure_iff]
  exact ⟨true, finish, removed, rfl, rfl⟩

theorem disconnectTransactions_returns (restorable : RestorableAt wanted here)
    (needed : ∀ tx ∈ vtx, ∀ txin ∈ tx.vin, wanted txin.prevout)
    (connects : Connects sha256d nHeight here vtx undos fees after) :
    Restores (disconnectTransactions sha256d nHeight fEnforceBIP30
      (vtx.zip (undos.map some)).reverse) view here (below :: deeper) := by
  induction connects with
  | nil here => exact ⟨view, returns_pure_iff.mpr ⟨rfl, rfl⟩, represents⟩
  | @cons here middle after tx vtx undo undos fee fees regular applies paid nonneg rest ih =>
    have own := needed tx (.head _)
    obtain ⟨between, others, stands⟩ :=
      ih represents (restorable.applies positive fits (fun _ => own) nonneg applies)
        (List.forall_mem_cons.mp needed).2
    obtain ⟨finish, last, stands⟩ := disconnectTransaction_returns positive fits stands regular restorable own applies
    rw [List.map_cons, List.zip_cons_cons]
    exact ⟨finish, returns_allOf_reverse_cons others last, stands⟩

end

/-! ## The block -/

section

variable {block : CBlock} {pindex pprev : Uint256} {entry : CBlockIndex}
  (linked : entry.pprev = some pprev) (positive : 1 ≤ entry.nHeight) (fits : entry.nHeight < 2 ^ 31)

include linked positive fits

theorem disconnectBlock_of_connectsBlock {blockundo : CBlockUndo} {reward : Int} (restorable : RestorableAt wanted here)
    (needed : ∀ tx ∈ block.vtx, ∀ txin ∈ tx.vin, wanted txin.prevout)
    (connects : ConnectsBlock sha256d entry.nHeight here block.vtx blockundo fees reward after)
    (represents : Represents view after (below :: deeper)) :
    ∃ restored, disconnectBlock sha256d block pindex entry (some blockundo) view = .ok (.disconnectOk, restored) ∧
      Represents restored here (below :: deeper) := by
  obtain ⟨split, minted, applies, _, nonneg, rest⟩ := connects
  rw [split] at needed
  have between := restorable.applies positive fits
    (fun regular => absurd (minted.symm.trans regular) (Ne.symm Bool.false_ne_true)) nonneg applies
  obtain ⟨middle, others, stands⟩ := disconnectTransactions_returns positive fits represents between
    (List.forall_mem_cons.mp needed).2 rest
  obtain ⟨finish, first, stands⟩ := disconnectCoinbase_returns positive fits stands minted applies
  have ran : Returns (disconnectRecords sha256d block pindex entry (some blockundo)) view true
      (finish.setBestBlock pprev) := by
    have counted : blockundo.vtxundo.length + 1 = block.vtx.length := by
      rw [split, List.length_cons, rest.length_eq]
    simp only [disconnectRecords, linked, returns_bind_iff, returns_require_iff, returns_pure_iff]
    refine ⟨(), view, ⟨decide_eq_true counted, rfl⟩, true, finish, ?_, (), _, returns_onState_iff.mpr rfl, rfl, rfl⟩
    rw [split, List.zip_cons_cons]
    exact returns_allOf_reverse_cons others first
  refine ⟨finish.setBestBlock pprev, ?_, setBestBlock_represents stands pprev⟩
  rw [disconnectBlock, ran]

variable {env : ConnectEnv} {connected : CCoinsView} {result : ConnectedBlock}
  (indexed : env.blocks.lookup pindex = some entry)
  (represents : Represents view here (below :: deeper))
  (bip30 : enforcesBIP30 env pindex entry.nHeight pprev = true ∨ Bip30Holds env.hashes.sha256d here block)
  (ran : Returns (connectBlock env block pindex false) view result connected)

include indexed represents bip30 ran

theorem disconnectBlock_of_connectBlock (restorable : RestorableAt wanted here)
    (needed : ∀ tx ∈ block.vtx, ∀ txin ∈ tx.vin, wanted txin.prevout) (written : result.blockundo ≠ none) :
    ∃ restored, disconnectBlock env.hashes.sha256d block pindex entry result.blockundo connected =
        .ok (.disconnectOk, restored) ∧
      Represents restored here (below :: deeper) := by
  rcases connectBlock_effect represents ran indexed
      (fun _ same => Option.some.inj (linked.symm.trans same) ▸ bip30) with
    ⟨unwritten, _⟩ | ⟨recorded, fees, reward, next, connects, _, saved, stands⟩
  · exact absurd unwritten written
  · rw [saved]
    exact disconnectBlock_of_connectsBlock linked positive fits restorable needed connects stands

end

/-! ## Connecting and disconnecting -/

/-- Disconnecting undoes connecting, where the block overwrote nothing and every coin it
took from the view has a height and a spendable script. -/
theorem disconnectBlock_undoes_connectBlock (env : ConnectEnv) (block : CBlock)
    (pindex pprev : Uint256) (entry : CBlockIndex) (view connected : CCoinsView)
    (coins below : CoinMap) (deeper : List CoinMap) (result : ConnectedBlock)
    (indexed : env.blocks.lookup pindex = some entry)
    (linked : entry.pprev = some pprev) (positive : 0 ≤ entry.nHeight - 1)
    (fits : entry.nHeight < 2 ^ 31) (represents : Represents view coins (below :: deeper))
    (restorable : ∀ tx ∈ block.vtx, ∀ txin ∈ tx.vin, ∀ coin, coins.lookup txin.prevout = some coin →
        coin.nHeight ≠ 0 ∧ CScript.isUnspendable coin.out.scriptPubKey = false)
    (bip30 : enforcesBIP30 env pindex entry.nHeight pprev = true ∨ Bip30Holds env.hashes.sha256d coins block)
    (ran : Returns (connectBlock env block pindex false) view result connected)
    (written : result.blockundo ≠ none) :
    ∃ restored, disconnectBlock env.hashes.sha256d block pindex entry result.blockundo connected =
        .ok (.disconnectOk, restored) ∧
      Represents restored coins (below :: deeper) := by
  have wanted : RestorableAt (fun outpoint => ∃ tx ∈ block.vtx, ∃ txin ∈ tx.vin, txin.prevout = outpoint) coins := by
    rintro outpoint coin ⟨tx, member, txin, spent, rfl⟩ found
    obtain ⟨dated, spendable⟩ := restorable tx member txin spent coin found
    exact ⟨represents.unspent found, dated, spendable⟩
  exact disconnectBlock_of_connectBlock linked (by omega) fits indexed represents bip30 ran wanted
    (fun tx member txin spent => ⟨tx, member, txin, spent, rfl⟩) written

theorem disconnectBlock_undoes_spendingBlock : ∃ result connected restored,
      Returns (connectBlock spendingEnv spendingBlock spendingHash false) (.emptyStack ordinaryDB 1) result connected ∧
        disconnectBlock Sha256.doubleDigest spendingBlock spendingHash spendingEntry result.blockundo
            connected = .ok (.disconnectOk, restored) ∧
        Represents restored ordinaryDB.coins.toFinmap [ordinaryDB.coins.toFinmap] := by
  obtain ⟨result, connected, ran, written⟩ := spendingBlock_connects
  have spent : ∀ tx ∈ spendingBlock.vtx, ∀ txin ∈ tx.vin,
      (ordinaryDB.coins.toFinmap.lookup txin.prevout).all (fun coin =>
        decide (coin.nHeight ≠ 0) && !CScript.isUnspendable coin.out.scriptPubKey) = true := by
    decide +kernel
  have restorable : ∀ tx ∈ spendingBlock.vtx, ∀ txin ∈ tx.vin, ∀ coin,
      ordinaryDB.coins.toFinmap.lookup txin.prevout = some coin →
        coin.nHeight ≠ 0 ∧ CScript.isUnspendable coin.out.scriptPubKey = false := by
    intro tx member txin input coin found
    have checked := spent tx member txin input
    rw [found] at checked
    simpa using checked
  obtain ⟨restored, undone, stands⟩ := disconnectBlock_undoes_connectBlock spendingEnv spendingBlock
    spendingHash parentHash spendingEntry _ connected ordinaryDB.coins.toFinmap
    ordinaryDB.coins.toFinmap [] result (AList.lookup_insert _) rfl (by decide) (by decide)
    (emptyStack_represents ordinaryDB 1) restorable (.inr spendingBlock_bip30) ran
    (Option.isSome_iff_ne_none.mp written)
  exact ⟨result, connected, restored, ran, undone, stands⟩

/-- Connecting and then disconnecting the block: the result, and the coins that are then
at the two outpoints it spends. -/
def connectThenDisconnect (view : CCoinsView) : Option (DisconnectResult × Option Coin × Option Coin) := do
  let (result, connected) ← (connectBlock spendingEnv spendingBlock spendingHash false).outcome view
  let (undone, restored) ← (disconnectBlock Sha256.doubleDigest spendingBlock spendingHash
    spendingEntry result.blockundo connected).toOption
  some (undone, (restored.getCoin firstOutpoint).1, (restored.getCoin secondOutpoint).1)

/-- The first coin has no height, the second an unspendable script. -/
def unrestorableDB : CoinsDB := spendingDB (heldCoin 6 [OP_1] 0) (heldCoin 4 [OP_RETURN] 1)

/-- A coin without a height comes back with that of a sibling, and a coin that cannot be
spent does not come back at all. -/
theorem disconnectBlock_not_exact : (spendingBlock.vtx.map (CTransaction.getHash Sha256.doubleDigest)).Nodup ∧
      enforcesBIP30 spendingEnv spendingHash 2 parentHash = true ∧
      (unrestorableDB.coins.lookup firstOutpoint = some (heldCoin 6 [OP_1] 0) ∧
        unrestorableDB.coins.lookup secondOutpoint = some (heldCoin 4 [OP_RETURN] 1)) ∧
      connectThenDisconnect (.emptyStack unrestorableDB 1) =
        some (.disconnectOk, some (heldCoin 6 [OP_1] 1), none) := by
  decide +kernel

end Sharecoin
