import Mathlib.Algebra.BigOperators.Group.List.Basic
import Sharecoin.Coins.CacheProperties
import Sharecoin.Lib.MapTotal
import Sharecoin.Validation.ConnectBlock

/-! What a block does to a plain map of coins, as relations between the maps before
and after: every input takes a coin out, every spendable output puts one in where there
was none. The sums of values follow from the relations alone. -/

set_option autoImplicit false

namespace Sharecoin

open Lib

/-! ## Values -/

def totalValue (coins : CoinMap) : Int := mapTotal (fun coin : Coin => coin.out.nValue) coins

def coinsValue (coins : List Coin) : Int := (coins.map fun coin => coin.out.nValue).sum

def outputsValue (vout : List CTxOut) : Int := (vout.map CTxOut.nValue).sum

def inputsValue (coins : CoinMap) (vin : List CTxIn) : Int :=
  (vin.map fun txin => ((coins.lookup txin.prevout).getD coinEmpty).out.nValue).sum

/-! ## One transaction -/

/-- The inputs take these coins out, one after the other. -/
inductive Spends : CoinMap → List CTxIn → List Coin → CoinMap → Prop where
  | nil (here : CoinMap) : Spends here [] [] here
  | cons {here after : CoinMap} {txin : CTxIn} {vin : List CTxIn} {coin : Coin} {coins : List Coin}
      (found : here.lookup txin.prevout = some coin)
      (rest : Spends (here.erase txin.prevout) vin coins after) :
      Spends here (txin :: vin) (coin :: coins) after

/-- The outputs from index `i` on are added, the spendable ones over nothing. -/
inductive Creates (txid : Uint256) (nHeight : Int) (fCoinbase : Bool) :
    Nat → CoinMap → List CTxOut → CoinMap → Prop where
  | nil (i : Nat) (here : CoinMap) : Creates txid nHeight fCoinbase i here [] here
  | cons {i : Nat} {here after : CoinMap} {txout : CTxOut} {vout : List CTxOut}
      (free : CScript.isUnspendable txout.scriptPubKey = true ∨ here.lookup ⟨txid, UInt32.ofNat i⟩ = none)
      (rest : Creates txid nHeight fCoinbase (i + 1)
        (plainAdd here ⟨txid, UInt32.ofNat i⟩ (.ofOutput txout nHeight fCoinbase)) vout after) :
      Creates txid nHeight fCoinbase i here (txout :: vout) after

section Effect

variable (sha256d : Bytes → Uint256) (nHeight : Int)

/-- A transaction first spends, then creates. A coinbase spends nothing, and outputs
are numbered in 32 bits. -/
inductive Applies (tx : CTransaction) (here : CoinMap) (undo : CTxUndo) (after : CoinMap) :
    Prop where
  | intro {middle : CoinMap} (fits : tx.vout.length < 2 ^ 32)
      (spends : Spends here (if tx.isCoinBase then [] else tx.vin) undo.vprevout middle)
      (creates : Creates (tx.getHash sha256d) nHeight tx.isCoinBase 0 middle tx.vout after) :
      Applies tx here undo after

/-! ## A block -/

inductive Connects : CoinMap → List CTransaction → List CTxUndo → Int → CoinMap → Prop where
  | nil (here : CoinMap) : Connects here [] [] 0 here
  | cons {here middle after : CoinMap} {tx : CTransaction} {vtx : List CTransaction}
      {undo : CTxUndo} {undos : List CTxUndo} {fee fees : Int}
      (regular : tx.isCoinBase = false) (applies : Applies sha256d nHeight tx here undo middle)
      (paid : coinsValue undo.vprevout = outputsValue tx.vout + fee)
      (nonneg : ∀ txout ∈ tx.vout, 0 ≤ txout.nValue)
      (rest : Connects middle vtx undos fees after) :
      Connects here (tx :: vtx) (undo :: undos) (fee + fees) after

/-- A coinbase and then the other transactions, with the reward the coinbase takes. -/
inductive ConnectsBlock (start : CoinMap) (vtx : List CTransaction) (blockundo : CBlockUndo)
    (fees reward : Int) (after : CoinMap) : Prop where
  | intro {coinbase : CTransaction} {regulars : List CTransaction} {middle : CoinMap}
      (split : vtx = coinbase :: regulars) (minted : coinbase.isCoinBase = true)
      (applies : Applies sha256d nHeight coinbase start {} middle)
      (claimed : outputsValue coinbase.vout = reward)
      (nonneg : ∀ txout ∈ coinbase.vout, 0 ≤ txout.nValue)
      (rest : Connects sha256d nHeight middle regulars blockundo.vtxundo fees after) :
      ConnectsBlock start vtx blockundo fees reward after

end Effect

/-! ## Sums -/

variable {here after : CoinMap} {vin : List CTxIn} {coins : List Coin}

theorem Spends.totalValue_eq (spends : Spends here vin coins after) :
    totalValue here = coinsValue coins + totalValue after := by
  induction spends with
  | nil here => simp [coinsValue]
  | @cons here after txin vin coin coins found rest ih =>
    have taken : totalValue here = coin.out.nValue + totalValue (here.erase txin.prevout) := mapTotal_erase found
    rw [taken, ih]
    simp only [coinsValue, List.map_cons, List.sum_cons]
    ring

theorem Creates.totalValue_le {txid : Uint256} {nHeight : Int} {fCoinbase : Bool} {i : Nat} {vout : List CTxOut}
    (creates : Creates txid nHeight fCoinbase i here vout after) (nonneg : ∀ txout ∈ vout, 0 ≤ txout.nValue) :
    totalValue after ≤ totalValue here + outputsValue vout := by
  induction creates with
  | nil i here => simp [outputsValue]
  | @cons i here after txout vout free rest ih =>
    have added : totalValue (plainAdd here ⟨txid, UInt32.ofNat i⟩
        (.ofOutput txout nHeight fCoinbase)) ≤ totalValue here + txout.nValue := by
      have own := nonneg txout (.head _)
      unfold plainAdd
      split
      · omega
      next spendable =>
        exact (mapTotal_insert (free.resolve_left spendable)).trans_le (add_comm _ _).le
    have others := ih (List.forall_mem_cons.mp nonneg).2
    simp only [outputsValue, List.map_cons, List.sum_cons] at others ⊢
    omega

section Totals

variable {sha256d : Bytes → Uint256} {nHeight : Int} {vtx : List CTransaction}

theorem Applies.totalValue_le {tx : CTransaction} {undo : CTxUndo}
    (applies : Applies sha256d nHeight tx here undo after) (nonneg : ∀ txout ∈ tx.vout, 0 ≤ txout.nValue) :
    totalValue after + coinsValue undo.vprevout ≤ totalValue here + outputsValue tx.vout := by
  obtain ⟨_, spends, creates⟩ := applies
  have taken := spends.totalValue_eq
  have given := creates.totalValue_le nonneg
  omega

theorem Connects.totalValue_le {undos : List CTxUndo} {fees : Int}
    (connects : Connects sha256d nHeight here vtx undos fees after) : totalValue after + fees ≤ totalValue here := by
  induction connects with
  | nil here => simp
  | cons regular applies paid nonneg rest ih =>
    have applied := applies.totalValue_le nonneg
    omega

theorem ConnectsBlock.totalValue_le {start : CoinMap} {blockundo : CBlockUndo}
    {fees reward : Int} (connects : ConnectsBlock sha256d nHeight start vtx blockundo fees reward after) :
    totalValue after + fees ≤ totalValue start + reward := by
  obtain ⟨_, _, applies, claimed, nonneg, rest⟩ := connects
  have minted := applies.totalValue_le nonneg
  have regular := rest.totalValue_le
  have nothing : coinsValue (({} : CTxUndo)).vprevout = 0 := rfl
  omega

/-! ## Inputs that are all different -/

theorem inputsValue_erase {outpoint : COutPoint} (different : outpoint ∉ vin.map CTxIn.prevout) :
    inputsValue (here.erase outpoint) vin = inputsValue here vin := by
  unfold inputsValue
  congr 1
  apply List.map_congr_left
  intro txin member
  have apart : txin.prevout ≠ outpoint := by
    intro same
    exact different (same ▸ List.mem_map_of_mem member)
  rw [Finmap.lookup_erase_ne apart]

theorem Spends.coinsValue_eq (spends : Spends here vin coins after)
    (nodup : (vin.map CTxIn.prevout).Nodup) : coinsValue coins = inputsValue here vin := by
  induction spends with
  | nil here => rfl
  | @cons here after txin vin coin coins found rest ih =>
    rw [List.map_cons, List.nodup_cons] at nodup
    have others := ih nodup.2
    rw [inputsValue_erase nodup.1] at others
    simp only [coinsValue, inputsValue, List.map_cons, List.sum_cons, found, Option.getD_some] at others ⊢
    rw [others]

end Totals

end Sharecoin
