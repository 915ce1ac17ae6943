import Sharecoin.Validation.TxVerifyProperties

/-! A block that `ConnectBlock` accepts takes the map of coins through the effect of its
transactions, and its undo data are the coins that were taken out. -/

set_option autoImplicit false

namespace Sharecoin

open Lib Program

/-! ## Updating the coins -/

variable {txid : Uint256} {done : Unit} {sha256d : Bytes → Uint256}

variable {start below here : CoinMap} {deeper : List CoinMap} {view after : CCoinsView} {env : ConnectEnv}
  {pindex : Uint256}

variable {φ : Type} {nHeight : Int} {block : CBlock} {entry : CBlockIndex} {vout : List CTxOut}

theorem Working.spendInputs {vin : List CTxIn} {coins : List Coin} (working : Working start below deeper view here)
    (nodup : (vin.map CTxIn.prevout).Nodup) (present : ∀ txin ∈ vin, here.lookup txin.prevout ≠ none)
    (ran : Returns (Sharecoin.spendInputs vin : ViewM φ (List Coin)) view coins after) :
    ∃ next, Spends here vin coins next ∧ Working start below deeper after next := by
  induction vin generalizing view here coins with
  | nil =>
    obtain ⟨rfl, rfl⟩ := returns_pure_iff.mp ran
    exact ⟨here, .nil here, working⟩
  | cons txin vin ih =>
    rw [List.map_cons, List.nodup_cons] at nodup
    obtain ⟨coin, found⟩ := Option.ne_none_iff_exists'.mp (present txin (.head _))
    obtain ⟨moved, middle, spent, ran⟩ := returns_bind_iff.mp ran
    obtain ⟨rfl, working⟩ := working.spendCoin found spent
    obtain ⟨others, _, spent, ran⟩ := returns_bind_iff.mp ran
    obtain ⟨rfl, rfl⟩ := returns_pure_iff.mp ran
    -- the inputs differ, so the coins of the others are still there
    have remaining : ∀ other ∈ vin, (here.erase txin.prevout).lookup other.prevout ≠ none := by
      intro other member
      have apart : other.prevout ≠ txin.prevout := by
        intro same
        exact nodup.1 (same ▸ List.mem_map_of_mem member)
      rw [Finmap.lookup_erase_ne apart]
      exact present other (.tail _ member)
    obtain ⟨next, spends, working⟩ := ih working nodup.2 remaining spent
    exact ⟨next, .cons found spends, working⟩

theorem outpoint_ne {i j : Nat} (left : i < 2 ^ 32) (right : j < 2 ^ 32) (different : i ≠ j) :
    (⟨txid, UInt32.ofNat i⟩ : COutPoint) ≠ ⟨txid, UInt32.ofNat j⟩ := by
  intro same
  have index := congrArg (fun outpoint : COutPoint => outpoint.n.toNat) same
  simp only [UInt32.toNat_ofNat'] at index
  rw [Nat.mod_eq_of_lt left, Nat.mod_eq_of_lt right] at index
  exact different index

theorem plainAdd_lookup_ne {outpoint other : COutPoint} {coin : Coin}
    (different : other ≠ outpoint) : (plainAdd here outpoint coin).lookup other = here.lookup other := by
  unfold plainAdd
  split
  · rfl
  · exact Finmap.lookup_insert_of_ne here different

/-- Outputs that were unspent nowhere at the start are added over nothing. An
overwriting coinbase needs its outputs to be free when it starts. -/
theorem Working.addOutputs {fCoinbase : Bool} {i : Nat}
    (working : Working start below deeper view here) (fits : i + vout.length < 2 ^ 32)
    (absent : ∀ j, i ≤ j → j < i + vout.length → start.lookup ⟨txid, UInt32.ofNat j⟩ = none)
    (unused : fCoinbase = true → ∀ j, i ≤ j → j < i + vout.length → here.lookup ⟨txid, UInt32.ofNat j⟩ = none)
    (ran : Returns (ViewM.addOutputs txid nHeight fCoinbase false i vout : ViewM φ Unit) view done after) :
    ∃ next, Creates txid nHeight fCoinbase i here vout next ∧ Working start below deeper after next := by
  induction vout generalizing view here i with
  | nil =>
    obtain ⟨_, rfl⟩ := returns_pure_iff.mp ran
    exact ⟨here, .nil i here, working⟩
  | cons txout vout ih =>
    rw [List.length_cons] at fits absent unused
    simp only [ViewM.addOutputs, Bool.false_eq_true, if_false, returns_bind_iff, returns_pure_iff] at ran
    obtain ⟨overwrite, _, ⟨chosen, rfl⟩, _, middle, added, ran⟩ := ran
    rw [chosen] at added
    obtain ⟨working, allowed⟩ := working.addCoin (absent i (Nat.le_refl i) (by omega)) added
    have free : CScript.isUnspendable txout.scriptPubKey = true ∨ here.lookup ⟨txid, UInt32.ofNat i⟩ = none := by
      rcases allowed with minted | free
      · exact .inr (unused minted i (Nat.le_refl i) (by omega))
      · exact free
    have kept : fCoinbase = true → ∀ j, i + 1 ≤ j → j < i + 1 + vout.length →
        (plainAdd here ⟨txid, UInt32.ofNat i⟩ (.ofOutput txout nHeight fCoinbase)).lookup
          ⟨txid, UInt32.ofNat j⟩ = none := by
      intro minted j lower upper
      rw [plainAdd_lookup_ne (outpoint_ne (by omega) (by omega) (by omega))]
      exact unused minted j (by omega) (by omega)
    obtain ⟨next, creates, working⟩ := ih working (by omega)
      (fun j lower upper => absent j (by omega) (by omega)) kept ran
    exact ⟨next, .cons free creates, working⟩

def OutputsAbsent (sha256d : Bytes → Uint256) (coins : CoinMap) (tx : CTransaction) : Prop :=
  ∀ o < tx.vout.length, coins.lookup ⟨tx.getHash sha256d, UInt32.ofNat o⟩ = none

theorem Working.updateCoins {tx : CTransaction} {undo : CTxUndo} (working : Working start below deeper view here)
    (checked : Checked tx) (absent : OutputsAbsent sha256d start tx) (minted : tx.isCoinBase = true → here = start)
    (present : tx.isCoinBase = false → ∀ txin ∈ tx.vin, here.lookup txin.prevout ≠ none)
    (ran : Returns (Sharecoin.updateCoins sha256d tx nHeight : ViewM φ CTxUndo) view undo after) :
    ∃ next, Applies sha256d nHeight tx here undo next ∧ Working start below deeper after next := by
  simp only [Sharecoin.updateCoins, returns_bind_iff, returns_pure_iff] at ran
  obtain ⟨coins, middle, spent, _, _, added, rfl, rfl⟩ := ran
  have taken : ∃ next, Spends here (if tx.isCoinBase then [] else tx.vin) coins next ∧
      Working start below deeper middle next ∧ (tx.isCoinBase = true → next = start) := by
    cases kind : tx.isCoinBase with
    | true =>
      rw [kind] at spent
      obtain ⟨rfl, rfl⟩ := returns_pure_iff.mp spent
      exact ⟨here, .nil here, working, fun _ => minted kind⟩
    | false =>
      rw [kind] at spent
      obtain ⟨next, spends, working⟩ := working.spendInputs checked.inputsDiffer (present kind) spent
      exact ⟨next, spends, working, by simp⟩
  obtain ⟨spentMap, spends, working, same⟩ := taken
  obtain ⟨next, creates, working⟩ := working.addOutputs (by simpa using checked.outputsFit)
    (fun j _ upper => absent j (by omega))
    (fun coinbase j _ upper => by rw [same coinbase]; exact absent j (by omega)) added
  exact ⟨next, .intro checked.outputsFit spends creates, working⟩

/-! ## One transaction -/

variable {sums : ConnectSums} {vtx : List CTransaction}

section Transaction

variable {tx : CTransaction}

theorem coinHeights_readsOnly (vin : List CTxIn) : ReadsOnly (coinHeights vin : ViewM φ (List Int)) := by
  induction vin with
  | nil => exact .pure []
  | cons txin vin ih => exact .bind (.accessCoin _) fun coin => .bind ih fun heights => .pure _

theorem checkScripts_readsOnly (tx : CTransaction) (queued : Option ScriptFailure) :
    ReadsOnly (checkScripts env tx queued) := by
  refine .bind (.bind (.spentOutputs _) fun prevouts => .pure _) fun failed => ?_
  cases failed with
  | none => exact .pure queued
  | some failure =>
    dsimp only
    split
    · exact .pure _
    · exact .throw _

section

variable (working : Working start below deeper view here)

include working

theorem Working.checkSpends {nFees fees : Int} (regular : tx.isCoinBase = false) (inRange : moneyRange nFees = true)
    (ran : Returns (Sharecoin.checkSpends env pindex nHeight tx nFees) view fees after) :
    Working start below deeper after here ∧ (∀ txin ∈ tx.vin, here.lookup txin.prevout ≠ none) ∧
      inputsValue here tx.vin = outputsValue tx.vout + (fees - nFees) ∧
      (∀ txout ∈ tx.vout, 0 ≤ txout.nValue) ∧ moneyRange fees = true := by
  simp only [Sharecoin.checkSpends, returns_bind_iff, returns_reporting_iff, returns_require_iff] at ran
  obtain ⟨txfee, _, paid, _, _, ⟨total, rfl⟩, prevheights, _, read, ran⟩ := ran
  obtain ⟨working, present, balance, nonneg, feeRange⟩ := working.checkTxInputs regular paid
  have working := coinHeights_readsOnly tx.vin working read
  split at ran
  · exact absurd ran not_returns_abort
  simp only [returns_bind_iff, returns_require_iff, returns_pure_iff] at ran
  obtain ⟨_, _, ⟨_, rfl⟩, rfl, rfl⟩ := ran
  refine ⟨working, present, ?_, nonneg, total⟩
  rw [wrap64_of_moneyRange inRange feeRange]
  omega

theorem Working.connectTransaction {first : Bool} {result : ConnectSums} (checked : Checked tx)
    (absent : OutputsAbsent env.hashes.sha256d start tx)
    (minted : tx.isCoinBase = true → here = start) (inRange : moneyRange sums.nFees = true)
    (ran : Returns (Sharecoin.connectTransaction env pindex nHeight first tx sums) view result after) :
    ∃ undo next, Applies env.hashes.sha256d nHeight tx here undo next ∧
      Working start below deeper after next ∧ moneyRange result.nFees = true ∧
      result.vtxundo = (if first then sums.vtxundo else sums.vtxundo ++ [undo]) ∧
      (tx.isCoinBase = true → result.nFees = sums.nFees) ∧
      (tx.isCoinBase = false → coinsValue undo.vprevout = outputsValue tx.vout + (result.nFees - sums.nFees) ∧
          ∀ txout ∈ tx.vout, 0 ≤ txout.nValue) := by
  simp only [Sharecoin.connectTransaction, returns_bind_iff, returns_require_iff, returns_pure_iff] at ran
  obtain ⟨fees, _, spent, cost, _, counted, _, _, ⟨_, rfl⟩, queued, _, scripts, undo, _, updated, rfl, rfl⟩ := ran
  cases kind : tx.isCoinBase with
  | true =>
    rw [kind] at spent scripts
    obtain ⟨rfl, rfl⟩ := returns_pure_iff.mp spent
    have working := getTransactionSigOpCost_readsOnly env.flags tx working counted
    obtain ⟨rfl, rfl⟩ := returns_pure_iff.mp scripts
    obtain ⟨next, applies, working⟩ := working.updateCoins checked absent minted
      (fun regular => absurd (kind.symm.trans regular) (Ne.symm Bool.false_ne_true)) updated
    exact ⟨undo, next, applies, working, inRange, rfl, fun _ => rfl, by simp⟩
  | false =>
    rw [kind] at spent scripts
    obtain ⟨working, present, balance, nonneg, feeRange⟩ := working.checkSpends kind inRange spent
    have working := getTransactionSigOpCost_readsOnly env.flags tx working counted
    have reads : ReadsOnly (if (!false && env.fScriptChecks) = true then
        checkScripts env tx sums.queued else pure sums.queued) := by
      split
      · exact checkScripts_readsOnly tx sums.queued
      · exact .pure _
    have working := reads working scripts
    obtain ⟨next, applies, working⟩ := working.updateCoins checked absent minted (fun _ => present) updated
    refine ⟨undo, next, applies, working, feeRange, rfl, by simp, fun _ => ⟨?_, nonneg⟩⟩
    obtain ⟨_, spends, creates⟩ := applies
    rw [kind, if_neg Bool.false_ne_true] at spends
    rw [spends.coinsValue_eq checked.inputsDiffer]
    exact balance

theorem Working.connectTransactions {result : ConnectSums} (checked : ∀ tx ∈ vtx, Checked tx)
    (regular : ∀ tx ∈ vtx, tx.isCoinBase = false) (absent : ∀ tx ∈ vtx, OutputsAbsent env.hashes.sha256d start tx)
    (inRange : moneyRange sums.nFees = true)
    (ran : Returns (Sharecoin.connectTransactions env pindex nHeight false vtx sums) view result after) :
    ∃ undos next, Connects env.hashes.sha256d nHeight here vtx undos (result.nFees - sums.nFees) next ∧
      Working start below deeper after next ∧ moneyRange result.nFees = true ∧
      result.vtxundo = sums.vtxundo ++ undos := by
  induction vtx generalizing view here sums with
  | nil =>
    obtain ⟨rfl, rfl⟩ := returns_pure_iff.mp ran
    refine ⟨[], here, ?_, working, inRange, (List.append_nil _).symm⟩
    rw [sub_self]
    exact .nil here
  | cons tx vtx ih =>
    have kind := regular tx (.head _)
    obtain ⟨middle, _, connected, ran⟩ := returns_bind_iff.mp ran
    obtain ⟨undo, between, applies, working, feeRange, recorded, _, paid⟩ :=
      working.connectTransaction (checked tx (.head _)) (absent tx (.head _))
        (fun coinbase => absurd (kind.symm.trans coinbase) Bool.false_ne_true) inRange connected
    obtain ⟨undos, next, connects, working, feeRange, rest⟩ := ih working
      (List.forall_mem_cons.mp checked).2
      (List.forall_mem_cons.mp regular).2
      (List.forall_mem_cons.mp absent).2 feeRange ran
    obtain ⟨balance, nonneg⟩ := paid kind
    refine ⟨undo :: undos, next, ?_, working, feeRange, ?_⟩
    · have split : result.nFees - sums.nFees = (middle.nFees - sums.nFees) + (result.nFees - middle.nFees) := by ring
      rw [split]
      exact .cons kind applies balance nonneg connects
    · rw [rest, recorded, if_neg Bool.false_ne_true, List.append_assoc, List.singleton_append]

end

end Transaction

/-! ## The block alone -/

theorem blockCheck_eq_ok_iff {holds : Bool} {reject : BlockReject} :
    blockCheck holds reject = .ok done ↔ holds = true := by
  cases holds <;> simp [blockCheck]

theorem checkTransactions_ok (passed : checkTransactions sha256d vtx = .ok ()) :
    ∀ tx ∈ vtx, checkTransaction tx = .ok () := by
  induction vtx with
  | nil => exact List.forall_mem_nil _
  | cons tx vtx ih =>
    rw [checkTransactions] at passed
    split at passed
    next own => exact List.forall_mem_cons.mpr ⟨own, ih passed⟩
    · cases passed

/-- A block that passes `CheckBlock` is one coinbase and then no other. -/
structure CheckedBlock (block : CBlock) (coinbase : CTransaction) (regulars : List CTransaction) :
    Prop where
  split : block.vtx = coinbase :: regulars
  minted : coinbase.isCoinBase = true
  regular : ∀ tx ∈ regulars, tx.isCoinBase = false
  checked : ∀ tx ∈ block.vtx, Checked tx

theorem checkBlock_checked {env : HashEnv} {checkSignet : CBlock → Bool} {params : Params}
    {fCheckPOW fCheckMerkleRoot : Bool}
    (passed : checkBlock env checkSignet params block fCheckPOW fCheckMerkleRoot = .ok ()) :
    ∃ coinbase regulars, CheckedBlock block coinbase regulars := by
  simp only [checkBlock, checkBlockBody, bind_eq_ok_iff, blockCheck_eq_ok_iff] at passed
  obtain ⟨_, _, _, _, _, _, _, _, _, minted, _, regular, _, transactions, _⟩ := passed
  have checked : ∀ tx ∈ block.vtx, Checked tx := fun tx member =>
    checkTransaction_checked (checkTransactions_ok transactions tx member)
  cases split : block.vtx with
  | nil =>
    rw [split] at minted
    cases minted
  | cons coinbase regulars =>
    rw [split] at minted regular checked
    rw [List.tail_cons, List.all_eq_true] at regular
    refine ⟨coinbase, regulars, split, minted, ?_, split ▸ checked⟩
    intro tx member
    simpa using regular tx member

theorem returns_recheckBlock {fJustCheck : Bool}
    (ran : Returns (recheckBlock env block fJustCheck) view done after) :
    after = view ∧ ∃ coinbase regulars, CheckedBlock block coinbase regulars := by
  unfold recheckBlock at ran
  split at ran
  · next passed =>
      obtain ⟨_, rfl⟩ := returns_pure_iff.mp ran
      exact ⟨rfl, checkBlock_checked passed⟩
  · exact absurd ran not_returns_abort
  · split at ran
    · exact absurd ran not_returns_throw
    · exact absurd ran not_returns_throw

/-! ## Overwrites -/

/-- No output of the block's transactions is unspent in the map. -/
def Bip30Holds (sha256d : Bytes → Uint256) (coins : CoinMap) (block : CBlock) : Prop :=
  ∀ tx ∈ block.vtx, OutputsAbsent sha256d coins tx

section

variable (working : Working start below deeper view here) {found : Bool}

include working

theorem Working.overwritesOutputs {o : Nat}
    (ran : Returns (Sharecoin.overwritesOutputs txid o vout : ViewM φ Bool) view found after) :
    Working start below deeper after here ∧ (found = false → ∀ j, o ≤ j → j < o + vout.length →
        here.lookup ⟨txid, UInt32.ofNat j⟩ = none) := by
  induction vout generalizing view o found with
  | nil =>
    obtain ⟨_, rfl⟩ := returns_pure_iff.mp ran
    exact ⟨working, fun _ j lower upper => absurd upper (by simpa using lower)⟩
  | cons txout vout ih =>
    simp only [Sharecoin.overwritesOutputs, returns_bind_iff, returns_pure_iff] at ran
    obtain ⟨own, _, looked, more, _, rest, rfl, rfl⟩ := ran
    obtain ⟨known, working⟩ := working.haveCoin looked
    obtain ⟨working, others⟩ := ih working rest
    refine ⟨working, fun nothing j lower upper => ?_⟩
    rw [Bool.or_eq_false_iff] at nothing
    rw [List.length_cons] at upper
    by_cases same : j = o
    · subst same
      rw [nothing.1] at known
      exact Option.isNone_iff_eq_none.mp (by simpa using known.symm)
    · exact others nothing.2 j (by omega) (by omega)

theorem Working.overwritesCoins
    (ran : Returns (Sharecoin.overwritesCoins sha256d vtx : ViewM φ Bool) view found after) :
    Working start below deeper after here ∧ (found = false → ∀ tx ∈ vtx, OutputsAbsent sha256d here tx) := by
  induction vtx generalizing view found with
  | nil =>
    obtain ⟨_, rfl⟩ := returns_pure_iff.mp ran
    exact ⟨working, fun _ => List.forall_mem_nil _⟩
  | cons tx vtx ih =>
    simp only [Sharecoin.overwritesCoins, returns_bind_iff, returns_pure_iff] at ran
    obtain ⟨own, _, looked, more, _, rest, rfl, rfl⟩ := ran
    obtain ⟨working, outputs⟩ := working.overwritesOutputs looked
    obtain ⟨working, others⟩ := ih working rest
    refine ⟨working, fun nothing => ?_⟩
    rw [Bool.or_eq_false_iff] at nothing
    exact List.forall_mem_cons.mpr
      ⟨fun o below => outputs nothing.1 o (Nat.zero_le o) (by omega), others nothing.2⟩

theorem Working.checkOverwrites {pprev : Uint256}
    (ran : Returns (Sharecoin.checkOverwrites env block pindex entry pprev) view done after) :
    Working start below deeper after here ∧ (enforcesBIP30 env pindex entry.nHeight pprev = true →
        Bip30Holds env.hashes.sha256d here block) := by
  unfold Sharecoin.checkOverwrites at ran
  split at ran
  · simp only [returns_bind_iff, returns_require_iff] at ran
    obtain ⟨overwrites, _, looked, nothing, rfl⟩ := ran
    obtain ⟨working, absent⟩ := working.overwritesCoins looked
    exact ⟨working, fun _ => absent (by simpa using nothing)⟩
  · next lax =>
      obtain ⟨_, rfl⟩ := returns_pure_iff.mp ran
      exact ⟨working, fun enforced => absurd enforced lax⟩

end

/-! ## The block -/

variable {result : ConnectedBlock}

section Block

variable {coinbase : CTransaction} {regulars : List CTransaction}

theorem returns_checkReward (split : block.vtx = coinbase :: regulars)
    (inRange : moneyRange sums.nFees = true) (ran : Returns (checkReward env block entry sums) view done after) :
    after = view ∧ (∀ txout ∈ coinbase.vout, 0 ≤ txout.nValue) ∧
      outputsValue coinbase.vout ≤ sums.nFees + getBlockSubsidy entry.nHeight env.params := by
  unfold checkReward at ran
  dsimp only at ran
  rw [split, List.head?_cons, Option.bind_some] at ran
  split at ran
  · exact absurd ran not_returns_abort
  next valueOut valued =>
    obtain ⟨enough, rfl⟩ := returns_require_iff.mp ran
    obtain ⟨sum, _, nonneg⟩ := getValueOut_spec valued
    have lower := getBlockSubsidy_nonneg entry.nHeight env.params
    have upper := getBlockSubsidy_le entry.nHeight env.params
    have plain : wrap64 (sums.nFees + getBlockSubsidy entry.nHeight env.params) =
        sums.nFees + getBlockSubsidy entry.nHeight env.params := by
      apply wrap64_of_moneyRange inRange
      rw [moneyRange_iff]
      have coins : 50 * COIN ≤ MAX_MONEY := by decide
      omega
    have bounded := of_decide_eq_true enough
    exact ⟨rfl, nonneg, by omega⟩

theorem returns_completeScripts (ran : Returns (completeScripts sums) view done after) : after = view := by
  unfold completeScripts at ran
  split at ran
  · exact (returns_pure_iff.mp ran).2
  · exact absurd ran not_returns_throw

theorem Working.finishConnect (working : Working start below deeper view here)
    (ran : Returns (Sharecoin.finishConnect env pindex entry sums false) view result after) :
    Working start below deeper after here ∧ result.blockundo = some ⟨sums.vtxundo⟩ := by
  unfold Sharecoin.finishConnect at ran
  rw [if_neg Bool.false_ne_true] at ran
  dsimp only at ran
  split at ran
  · exact absurd ran not_returns_throw
  · simp only [returns_bind_iff, returns_pure_iff] at ran
    obtain ⟨_, _, marked, rfl, rfl⟩ := ran
    exact ⟨working.setBestBlock marked, rfl⟩

/-- What a block does to the coins, and what the result has to stand for after it. -/
def HasEffect (env : ConnectEnv) (entry : CBlockIndex) (start : CoinMap) (block : CBlock) (result : ConnectedBlock)
    (stands : CoinMap → Prop) : Prop :=
  ∃ blockundo fees reward next,
    ConnectsBlock env.hashes.sha256d entry.nHeight start block.vtx blockundo fees reward next ∧
      reward ≤ fees + getBlockSubsidy entry.nHeight env.params ∧ result.blockundo = some blockundo ∧ stands next

theorem Working.connectAfterGenesis
    (working : Working start below deeper view start) (checked : CheckedBlock block coinbase regulars)
    (ran : Returns (Sharecoin.connectAfterGenesis env block pindex entry false) view result after) :
    ∃ pprev, entry.pprev = some pprev ∧ (enforcesBIP30 env pindex entry.nHeight pprev = true ∨
          Bip30Holds env.hashes.sha256d start block →
        HasEffect env entry start block result (Working start below deeper after)) := by
  unfold Sharecoin.connectAfterGenesis at ran
  split at ran
  · exact absurd ran not_returns_abort
  next pprev linked =>
    refine ⟨pprev, linked, fun exceptional => ?_⟩
    simp only [returns_bind_iff] at ran
    obtain ⟨_, _, overwrites, sums, _, connected, _, _, rewarded, _, _, completed, finished⟩ := ran
    obtain ⟨working, enforced⟩ := working.checkOverwrites overwrites
    have absent : Bip30Holds env.hashes.sha256d start block := exceptional.elim enforced id
    have checks := checked.checked
    have split := checked.split
    rw [Bip30Holds, split] at absent
    rw [split] at checks connected
    -- the coinbase first, then the others from the map it leaves
    obtain ⟨first, _, minted, others⟩ := returns_bind_iff.mp connected
    obtain ⟨undo, middle, applies, working, feeRange, nothing, sameFees, _⟩ :=
      working.connectTransaction (checks coinbase (.head _))
        (absent coinbase (.head _)) (fun _ => rfl) (by decide) minted
    obtain ⟨undos, next, connects, working, feeRange, recorded⟩ := working.connectTransactions
      (List.forall_mem_cons.mp checks).2 checked.regular
      (List.forall_mem_cons.mp absent).2 feeRange others
    obtain ⟨rfl, nonneg, bounded⟩ := returns_checkReward split feeRange rewarded
    cases returns_completeScripts completed
    obtain ⟨working, written⟩ := working.finishConnect finished
    rw [sameFees checked.minted, sub_zero] at connects
    have empty : undo = {} := by
      obtain ⟨_, spends, _⟩ := applies
      rw [checked.minted, if_pos rfl] at spends
      obtain ⟨vprevout⟩ := undo
      cases spends
      rfl
    rw [nothing, if_pos rfl, List.nil_append] at recorded
    exact ⟨⟨undos⟩, sums.nFees, _, next, .intro split checked.minted (empty ▸ applies) rfl nonneg connects, bounded,
      by rw [written, recorded], working⟩

section

variable (represents : Represents view start (below :: deeper))
  (ran : Returns (connectBlock env block pindex false) view result after)

include represents ran

/-- A call of `ConnectBlock` that returns true: the genesis block leaves the map alone,
every other block has its effect. -/
theorem connectBlock_spec : ∃ entry, env.blocks.lookup pindex = some entry ∧
      ((result.blockundo = none ∧ Represents after start (below :: deeper)) ∨
        ∃ pprev, entry.pprev = some pprev ∧ (enforcesBIP30 env pindex entry.nHeight pprev = true ∨
              Bip30Holds env.hashes.sha256d start block →
            HasEffect env entry start block result (Represents after · (below :: deeper)))) := by
  unfold connectBlock at ran
  split at ran
  · exact absurd ran not_returns_abort
  next entry found =>
    refine ⟨entry, found, ?_⟩
    simp only [returns_bind_iff, returns_insist_iff] at ran
    obtain ⟨_, _, ⟨_, rfl⟩, _, _, passed, bestBlock, _, best, _, _, ⟨_, rfl⟩, ran⟩ := ran
    obtain ⟨rfl, coinbase, regulars, checked⟩ := returns_recheckBlock passed
    have working := (Working.begin represents).getBestBlock best
    split at ran
    · simp only [Bool.false_eq_true, if_false, returns_bind_iff, returns_pure_iff] at ran
      obtain ⟨_, _, marked, rfl, rfl⟩ := ran
      exact .inl ⟨rfl, (working.setBestBlock marked).represents⟩
    obtain ⟨pprev, linked, effect⟩ := working.connectAfterGenesis checked ran
    refine .inr ⟨pprev, linked, fun exceptional => ?_⟩
    obtain ⟨blockundo, fees, reward, next, connects, bounded, written, working⟩ := effect exceptional
    exact ⟨blockundo, fees, reward, next, connects, bounded, written, working.represents⟩

theorem connectBlock_effect (indexed : env.blocks.lookup pindex = some entry)
    (bip30 : ∀ pprev, entry.pprev = some pprev → enforcesBIP30 env pindex entry.nHeight pprev = true ∨
        Bip30Holds env.hashes.sha256d start block) :
    (result.blockundo = none ∧ Represents after start (below :: deeper)) ∨
      HasEffect env entry start block result (Represents after · (below :: deeper)) := by
  obtain ⟨known, found, outcome⟩ := connectBlock_spec represents ran
  rw [indexed] at found
  cases found
  rcases outcome with unchanged | ⟨pprev, linked, effect⟩
  · exact .inl unchanged
  · exact .inr (effect (bip30 pprev linked))

end

end Block

end Sharecoin
