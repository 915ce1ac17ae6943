import Sharecoin.Coins.ViewProperties

/-! Runs of a stack of cache layers, compared with plain maps. The plain model keeps
one map for every view of the stack: additions and removals change the first, a
flush or sync copies a map to the view below, and a reset of the top takes back what
was not written back. -/

set_option autoImplicit false

namespace Sharecoin

open Lib

/-! ## Operations -/

/-- The operations of a run. Only the top layer is modified; the others act on the
layer at a depth, counted from the top. -/
inductive CacheOp where
  | addCoin (outpoint : COutPoint) (coin : Coin) (possibleOverwrite : Bool)
  | spendCoin (outpoint : COutPoint)
  | getCoin (depth : Nat) (outpoint : COutPoint)
  | haveCoin (depth : Nat) (outpoint : COutPoint)
  | accessCoin (depth : Nat) (outpoint : COutPoint)
  | uncache (depth : Nat) (outpoint : COutPoint)
  | flush (depth : Nat)
  | sync (depth : Nat)
  | reset (depth : Nat)
  | setBestBlock (depth : Nat) (blockHash : Uint256)
deriving DecidableEq

inductive Reading where
  | nothing
  | got (coin : Option Coin)
  | held (present : Bool)
  | accessed (coin : Coin)
deriving DecidableEq

namespace CCoinsView

/-- Runs an operation on the view at a depth. -/
def atDepth (operation : CCoinsView → Except CoinsError (Reading × CCoinsView)) :
    Nat → CCoinsView → Except CoinsError (Reading × CCoinsView)
  | 0, view => operation view
  | _ + 1, .db base => operation (.db base)
  | depth + 1, .cache layer base =>
    match atDepth operation depth base with
    | .error error => .error error
    | .ok (reading, base) => .ok (reading, .cache layer base)

def silent (outcome : Except CoinsError CCoinsView) : Except CoinsError (Reading × CCoinsView) :=
  outcome.map fun view => (.nothing, view)

/-- What the bottom view is decides what a write to it asserts. -/
def apply (view : CCoinsView) (op : CacheOp) (isDatabase : Bool := false) :
    Except CoinsError (Reading × CCoinsView) :=
  match op with
  | .addCoin outpoint coin possibleOverwrite =>
    silent (view.addCoin outpoint coin possibleOverwrite)
  | .spendCoin outpoint => .ok (.nothing, (view.spendCoin outpoint).2)
  | .getCoin depth outpoint =>
    atDepth (fun view => .ok (.got (view.getCoin outpoint).1, (view.getCoin outpoint).2)) depth
      view
  | .haveCoin depth outpoint =>
    atDepth (fun view => .ok (.held (view.haveCoin outpoint).1, (view.haveCoin outpoint).2)) depth
      view
  | .accessCoin depth outpoint =>
    atDepth (fun view => .ok (.accessed (view.accessCoin outpoint).1, (view.accessCoin outpoint).2))
      depth view
  | .uncache depth outpoint => atDepth (fun view => .ok (.nothing, view.uncache outpoint)) depth view
  | .flush depth => atDepth (fun view => silent (view.flush isDatabase)) depth view
  | .sync depth => atDepth (fun view => silent (view.sync isDatabase)) depth view
  | .reset depth => atDepth (fun view => .ok (.nothing, view.reset)) depth view
  | .setBestBlock depth blockHash =>
    atDepth (fun view => .ok (.nothing, view.setBestBlock blockHash)) depth view

def run (view : CCoinsView) (ops : List CacheOp) (isDatabase : Bool := false) :
    Except CoinsError (List Reading × CCoinsView) :=
  match ops with
  | [] => .ok ([], view)
  | op :: ops =>
    match view.apply op isDatabase with
    | .error error => .error error
    | .ok (reading, view) =>
      match view.run ops isDatabase with
      | .error error => .error error
      | .ok (readings, view) => .ok (reading :: readings, view)

def emptyStack (db : CoinsDB) : Nat → CCoinsView
  | 0 => .db db
  | layers + 1 => .cache {} (emptyStack db layers)

def sane : CCoinsView → Bool
  | .db _ => true
  | .cache layer base => layer.sanityCheck && base.sane

def bottomCoins : CCoinsView → AList fun _ : COutPoint => Coin
  | .db base => base.coins
  | .cache _ base => base.bottomCoins

end CCoinsView

/-! ## Plain maps -/

/-- The maps of a stack: the top's, and those of the views below it. -/
structure PlainStack where
  here : CoinMap
  deeper : List CoinMap

namespace PlainStack

def atDepth (step : CoinMap → List CoinMap → Reading × List CoinMap) :
    Nat → CoinMap → List CoinMap → Reading × List CoinMap
  | 0, here, deeper => step here deeper
  | _ + 1, here, [] => step here []
  | depth + 1, _, below :: deeper =>
    let (reading, deeper) := atDepth step depth below deeper
    (reading, below :: deeper)

def read (reading : CoinMap → Reading) (here : CoinMap) (deeper : List CoinMap) :
    Reading × List CoinMap := (reading here, deeper)

def writeDown (here : CoinMap) : List CoinMap → Reading × List CoinMap
  | _ :: deeper => (.nothing, here :: deeper)
  | [] => (.nothing, [])

def keeping (plain : PlainStack) (outcome : Reading × List CoinMap) : Reading × PlainStack :=
  (outcome.1, { plain with deeper := outcome.2 })

def apply (plain : PlainStack) : CacheOp → Reading × PlainStack
  | .addCoin outpoint coin _ => (.nothing, { plain with here := plainAdd plain.here outpoint coin })
  | .spendCoin outpoint => (.nothing, { plain with here := plain.here.erase outpoint })
  | .getCoin depth outpoint =>
    plain.keeping (atDepth (read fun coins => .got (coins.lookup outpoint)) depth plain.here
      plain.deeper)
  | .haveCoin depth outpoint =>
    plain.keeping (atDepth (read fun coins => .held (coins.lookup outpoint).isSome) depth
      plain.here plain.deeper)
  | .accessCoin depth outpoint =>
    plain.keeping (atDepth (read fun coins => .accessed ((coins.lookup outpoint).getD coinEmpty))
      depth plain.here plain.deeper)
  | .uncache _ _ | .setBestBlock _ _ => (.nothing, plain)
  | .flush depth | .sync depth => plain.keeping (atDepth writeDown depth plain.here plain.deeper)
  | .reset 0 => (.nothing, { plain with here := plain.deeper.headD plain.here })
  | .reset (_ + 1) => (.nothing, plain)

def run (plain : PlainStack) : List CacheOp → List Reading × PlainStack
  | [] => ([], plain)
  | op :: ops =>
    let (reading, plain) := plain.apply op
    let (readings, plain) := plain.run ops
    (reading :: readings, plain)

/-- The operations a caller may use. An addition without `possible_overwrite` needs
the outpoint to be free, layers are named by a depth that exists, and a reset below
the top must not discard anything its layer has not written back. -/
def Admits (plain : PlainStack) : CacheOp → Prop
  | .addCoin outpoint coin possibleOverwrite =>
    plain.deeper ≠ [] ∧ coin.isSpent = false ∧ (possibleOverwrite = true ∨ plain.here.lookup outpoint = none)
  | .spendCoin _ => plain.deeper ≠ []
  | .getCoin depth _ | .haveCoin depth _ | .accessCoin depth _ | .uncache depth _ | .flush depth
  | .sync depth | .setBestBlock depth _ => depth < plain.deeper.length
  | .reset 0 => plain.deeper ≠ []
  | .reset (depth + 1) =>
    depth + 1 < plain.deeper.length ∧ plain.deeper[depth]? = plain.deeper[depth + 1]?

def AdmitsRun (plain : PlainStack) : List CacheOp → Prop
  | [] => True
  | op :: ops => plain.Admits op ∧ (plain.apply op).2.AdmitsRun ops

instance (plain : PlainStack) (op : CacheOp) : Decidable (plain.Admits op) := by
  cases op with
  | reset depth => cases depth <;> unfold Admits <;> infer_instance
  | _ => unfold Admits; infer_instance

instance admitsRunDecidable : ∀ (ops : List CacheOp) (plain : PlainStack),
    Decidable (plain.AdmitsRun ops)
  | [], _ => .isTrue trivial
  | op :: ops, plain =>
    have := admitsRunDecidable ops (plain.apply op).2
    inferInstanceAs (Decidable (plain.Admits op ∧ (plain.apply op).2.AdmitsRun ops))

def start (coins : CoinMap) (layers : Nat) : PlainStack := ⟨coins, List.replicate layers coins⟩

end PlainStack

/-! ## One operation -/

variable {view : CCoinsView} {here : CoinMap}

section Steps

variable {deeper : List CoinMap} {isDatabase : Bool}

theorem atDepth_spec {operation : CCoinsView → Except CoinsError (Reading × CCoinsView)}
    {step : CoinMap → List CoinMap → Reading × List CoinMap}
    (spec : ∀ {view : CCoinsView} {here below : CoinMap} {deeper : List CoinMap},
      Represents view here (below :: deeper) → Stopped isDatabase (operation view) ∨
        ∃ after, operation view = .ok ((step here (below :: deeper)).1, after) ∧
          Represents after here (step here (below :: deeper)).2)
    (depth : Nat) (represents : Represents view here deeper) (deep : depth < deeper.length) :
    Stopped isDatabase (view.atDepth operation depth) ∨
      ∃ after, view.atDepth operation depth = .ok ((PlainStack.atDepth step depth here deeper).1, after) ∧
        Represents after here (PlainStack.atDepth step depth here deeper).2 := by
  induction depth generalizing view here deeper with
  | zero =>
    cases represents with
    | db base => cases deep
    | cache overlays represents => exact spec (.cache overlays represents)
  | succ depth ih =>
    cases represents with
    | db base => cases deep
    | @cache layer base below _ deeper overlays represents =>
      rcases ih represents (Nat.lt_of_succ_lt_succ deep) with stopped | ⟨after, ran, stands⟩
      · exact .inl ⟨stopped.1, by rw [CCoinsView.atDepth, stopped.2]⟩
      refine .inr ⟨.cache layer after, ?_, .cache overlays stands⟩
      rw [CCoinsView.atDepth, ran]
      rfl

theorem reset_atDepth (depth : Nat) (represents : Represents view here deeper)
    (deep : depth < deeper.length) (same : (here :: deeper)[depth]? = deeper[depth]?) :
    ∃ after, view.atDepth (fun view => .ok (.nothing, view.reset)) depth = .ok (.nothing, after) ∧
      Represents after here deeper := by
  induction depth generalizing view here deeper with
  | zero =>
    cases represents with
    | db base => cases deep
    | @cache layer base below _ deeper overlays represents =>
      obtain rfl : here = below := by simpa using same
      exact ⟨_, rfl, reset_spec (.cache overlays represents)⟩
  | succ depth ih =>
    cases represents with
    | db base => cases deep
    | @cache layer base below _ deeper overlays represents =>
      obtain ⟨after, ran, stands⟩ := ih represents (Nat.lt_of_succ_lt_succ deep) (by simpa using same)
      refine ⟨.cache layer after, ?_, .cache overlays stands⟩
      rw [CCoinsView.atDepth, ran]

theorem atDepth_read (reading : CoinMap → Reading) (depth : Nat) (here : CoinMap) (deeper : List CoinMap) :
    ∃ coins, PlainStack.atDepth (PlainStack.read reading) depth here deeper = (reading coins, deeper) := by
  induction depth generalizing here deeper with
  | zero => exact ⟨here, rfl⟩
  | succ depth ih =>
    cases deeper with
    | nil => exact ⟨here, rfl⟩
    | cons below deeper =>
      obtain ⟨coins, same⟩ := ih below deeper
      refine ⟨coins, ?_⟩
      rw [PlainStack.atDepth, same]

theorem atDepth_kept {operation : CCoinsView → CCoinsView}
    (keeps : ∀ {view here deeper}, Represents view here deeper → Represents (operation view) here deeper)
    (depth : Nat) (represents : Represents view here deeper) (deep : depth < deeper.length) :
    Stopped isDatabase (view.atDepth (fun view => .ok (.nothing, operation view)) depth) ∨
      ∃ after, view.atDepth (fun view => .ok (.nothing, operation view)) depth = .ok (.nothing, after) ∧
        Represents after here deeper := by
  have kept := @atDepth_spec view here deeper isDatabase (fun view => .ok (.nothing, operation view))
    (PlainStack.read fun _ => .nothing) (fun represents => .inr ⟨_, rfl, keeps represents⟩) depth represents deep
  obtain ⟨coins, same⟩ := atDepth_read (fun _ => .nothing) depth here deeper
  rwa [same] at kept

theorem apply_spec {plain : PlainStack} {op : CacheOp}
    (represents : Represents view plain.here plain.deeper) (admits : plain.Admits op) :
    Stopped isDatabase (view.apply op isDatabase) ∨
      ∃ after, view.apply op isDatabase = .ok ((plain.apply op).1, after) ∧
        Represents after (plain.apply op).2.here (plain.apply op).2.deeper := by
  obtain ⟨here, deeper⟩ := plain
  cases op with
  | addCoin outpoint coin possibleOverwrite =>
    obtain ⟨layered, unspent, free⟩ := admits
    cases deeper with
    | nil => exact absurd rfl layered
    | cons below deeper =>
      obtain ⟨after, ran, stands⟩ := addCoin_spec represents unspent free
      exact .inr ⟨after, by rw [CCoinsView.apply, ran]; rfl, stands⟩
  | spendCoin outpoint =>
    cases deeper with
    | nil => exact absurd rfl admits
    | cons below deeper =>
      obtain ⟨moved, after, ran, _, stands⟩ := spendCoin_spec represents outpoint
      exact .inr ⟨after, by rw [CCoinsView.apply, ran]; rfl, stands⟩
  | getCoin depth outpoint =>
    refine atDepth_spec (fun represents => ?_) depth represents admits
    obtain ⟨after, ran, stands⟩ := getCoin_spec represents outpoint
    exact .inr ⟨after, by rw [ran]; rfl, stands⟩
  | haveCoin depth outpoint =>
    refine atDepth_spec (fun represents => ?_) depth represents admits
    obtain ⟨after, ran, stands⟩ := haveCoin_spec represents outpoint
    exact .inr ⟨after, by rw [ran]; rfl, stands⟩
  | accessCoin depth outpoint =>
    refine atDepth_spec (fun represents => ?_) depth represents admits
    obtain ⟨after, ran, stands⟩ := accessCoin_spec represents outpoint
    exact .inr ⟨after, by rw [ran]; rfl, stands⟩
  | uncache depth outpoint =>
    exact atDepth_kept (fun represents => uncache_spec represents outpoint) depth represents admits
  | setBestBlock depth blockHash =>
    exact atDepth_kept (fun represents => setBestBlock_represents represents blockHash) depth represents admits
  | flush depth =>
    refine atDepth_spec (fun represents => ?_) depth represents admits
    rcases flush_spec represents isDatabase with stopped | ⟨after, ran, stands⟩
    · exact .inl ⟨stopped.1, by rw [stopped.2]; rfl⟩
    · exact .inr ⟨after, by rw [ran]; rfl, stands⟩
  | sync depth =>
    refine atDepth_spec (fun represents => ?_) depth represents admits
    rcases sync_spec represents isDatabase with stopped | ⟨after, ran, stands⟩
    · exact .inl ⟨stopped.1, by rw [stopped.2]; rfl⟩
    · exact .inr ⟨after, by rw [ran]; rfl, stands⟩
  | reset depth =>
    right
    cases depth with
    | zero =>
      cases deeper with
      | nil => exact absurd rfl admits
      | cons below deeper => exact ⟨_, rfl, reset_spec represents⟩
    | succ depth => exact reset_atDepth (depth + 1) represents admits.1 admits.2

end Steps

/-! ## Whole runs -/

section Runs

variable {plain : PlainStack} {ops : List CacheOp} {deeper : List CoinMap}

/-- A run reads what the plain maps hold and stays true to them, unless the database stops it. -/
theorem run_spec (isDatabase : Bool) (represents : Represents view plain.here plain.deeper)
    (admits : plain.AdmitsRun ops) :
    Stopped isDatabase (view.run ops isDatabase) ∨
      ∃ after, view.run ops isDatabase = .ok ((plain.run ops).1, after) ∧
        Represents after (plain.run ops).2.here (plain.run ops).2.deeper := by
  induction ops generalizing view plain with
  | nil => exact .inr ⟨view, rfl, represents⟩
  | cons op ops ih =>
    rw [CCoinsView.run]
    rcases apply_spec represents admits.1 with stopped | ⟨middle, applied, stands⟩
    · exact .inl ⟨stopped.1, by rw [stopped.2]⟩
    rw [applied]
    dsimp only
    rcases ih stands admits.2 with stopped | ⟨after, ran, final⟩
    · exact .inl ⟨stopped.1, by rw [stopped.2]⟩
    · exact .inr ⟨after, by rw [ran]; rfl, final⟩

theorem writeDown_replicate (here below : CoinMap) (deeper : List CoinMap) (depth : Nat) :
    PlainStack.atDepth PlainStack.writeDown depth here (List.replicate depth here ++ below :: deeper) =
      (.nothing, List.replicate (depth + 1) here ++ deeper) := by
  induction depth with
  | zero => rfl
  | succ depth ih =>
    rw [List.replicate_succ, List.cons_append, PlainStack.atDepth, ih]
    rfl

theorem run_append (plain : PlainStack) (first second : List CacheOp) :
    (plain.run (first ++ second)).2 = ((plain.run first).2.run second).2 := by
  induction first generalizing plain with
  | nil => rfl
  | cons op first ih => exact ih (plain.apply op).2

theorem admitsRun_append {first second : List CacheOp} : plain.AdmitsRun (first ++ second) ↔
      plain.AdmitsRun first ∧ (plain.run first).2.AdmitsRun second := by
  induction first generalizing plain with
  | nil => simp [PlainStack.AdmitsRun, PlainStack.run]
  | cons op first ih =>
    simp only [List.cons_append, PlainStack.AdmitsRun, ih, and_assoc]
    rfl

theorem run_flushes (here : CoinMap) (deeper : List CoinMap) (layers : Nat) (deep : layers ≤ deeper.length) :
    (PlainStack.mk here deeper).AdmitsRun ((List.range layers).map .flush) ∧
      ((PlainStack.mk here deeper).run ((List.range layers).map .flush)).2 =
        ⟨here, List.replicate layers here ++ deeper.drop layers⟩ := by
  induction layers with
  | zero => exact ⟨trivial, rfl⟩
  | succ layers ih =>
    obtain ⟨admits, ran⟩ := ih (by omega)
    obtain ⟨below, rest, split⟩ : ∃ below rest, deeper.drop layers = below :: rest := by
      cases remaining : deeper.drop layers with
      | nil =>
        have length := congrArg List.length remaining
        rw [List.length_drop, List.length_nil] at length
        omega
      | cons below rest => exact ⟨below, rest, rfl⟩
    have next : deeper.drop (layers + 1) = rest := by
      rw [← List.drop_drop, split]
      rfl
    rw [List.range_succ, List.map_append, admitsRun_append, run_append, ran, split, next]
    refine ⟨⟨admits, ?_, trivial⟩, ?_⟩
    · change layers < (List.replicate layers here ++ below :: rest).length
      simp
    · change (PlainStack.keeping _ _).2 = _
      rw [writeDown_replicate]
      rfl

theorem bottomCoins_eq (represents : Represents view here deeper) :
    view.bottomCoins.toFinmap = deeper.getLastD here := by
  induction represents with
  | db base => rfl
  | @cache layer base below here deeper _ _ ih =>
    rw [CCoinsView.bottomCoins, ih]
    cases deeper <;> rfl

theorem getLastD_replicate (layers : Nat) (coins : CoinMap) : (List.replicate layers coins).getLastD coins = coins := by
  induction layers with
  | zero => rfl
  | succ layers ih => rw [List.replicate_succ, List.getLastD_cons, ih]

theorem emptyStack_represents (db : CoinsDB) (layers : Nat) :
    Represents (CCoinsView.emptyStack db layers) db.coins.toFinmap (List.replicate layers db.coins.toFinmap) := by
  induction layers with
  | zero => exact .db db
  | succ layers ih => exact .cache (.empty .zero _) ih

theorem writeDown_length (depth : Nat) (here : CoinMap) (deeper : List CoinMap) :
    (PlainStack.atDepth PlainStack.writeDown depth here deeper).2.length = deeper.length := by
  induction depth generalizing here deeper with
  | zero => cases deeper <;> rfl
  | succ depth ih =>
    cases deeper with
    | nil => rfl
    | cons below deeper => exact congrArg Nat.succ (ih below deeper)

theorem apply_length (plain : PlainStack) (op : CacheOp) : (plain.apply op).2.deeper.length = plain.deeper.length := by
  have reads : ∀ reading depth, (PlainStack.atDepth (PlainStack.read reading) depth plain.here plain.deeper).2.length =
        plain.deeper.length := by
    intro reading depth
    obtain ⟨coins, same⟩ := atDepth_read reading depth plain.here plain.deeper
    rw [same]
  cases op with
  | getCoin depth outpoint => exact reads _ depth
  | haveCoin depth outpoint => exact reads _ depth
  | accessCoin depth outpoint => exact reads _ depth
  | flush depth => exact writeDown_length depth plain.here plain.deeper
  | sync depth => exact writeDown_length depth plain.here plain.deeper
  | reset depth => cases depth <;> rfl
  | _ => rfl

theorem run_length (plain : PlainStack) (ops : List CacheOp) :
    (plain.run ops).2.deeper.length = plain.deeper.length := by
  induction ops generalizing plain with
  | nil => rfl
  | cons op ops ih => exact (ih (plain.apply op).2).trans (apply_length plain op)

theorem Represents.sane (represents : Represents view here deeper) : view.sane = true := by
  induction represents with
  | db base => rfl
  | cache overlays _ ih => rw [CCoinsView.sane, overlays.sanityCheck, ih]; rfl

/-- A stack of caches refines a plain map: no run throws, every reading is the plain
one, and flushing all layers leaves the plain map at the bottom. -/
theorem cacheStack_refines (db : CoinsDB) (layers : Nat) (ops : List CacheOp)
    (admits : (PlainStack.start db.coins.toFinmap layers).AdmitsRun ops) :
    ∃ view, (CCoinsView.emptyStack db layers).run ops =
        .ok (((PlainStack.start db.coins.toFinmap layers).run ops).1, view) ∧
      ∃ readings flushed, view.run ((List.range layers).map .flush) = .ok (readings, flushed) ∧
          ∀ outpoint, flushed.bottomCoins.lookup outpoint =
            ((PlainStack.start db.coins.toFinmap layers).run ops).2.here.lookup outpoint := by
  obtain ⟨view, ran, stands⟩ := (run_spec false (emptyStack_represents db layers) admits).resolve_left (not_stopped _)
  refine ⟨view, ran, ?_⟩
  have depth : ((PlainStack.start db.coins.toFinmap layers).run ops).2.deeper.length = layers := by
    rw [run_length]
    exact List.length_replicate
  obtain ⟨flushAdmits, flushed⟩ := run_flushes ((PlainStack.start db.coins.toFinmap layers).run ops).2.here
    ((PlainStack.start db.coins.toFinmap layers).run ops).2.deeper layers depth.ge
  obtain ⟨final, flushRan, finalStands⟩ := (run_spec false stands flushAdmits).resolve_left (not_stopped _)
  refine ⟨_, final, flushRan, ?_⟩
  rw [flushed, List.drop_of_length_le depth.le, List.append_nil] at finalStands
  have bottom := bottomCoins_eq finalStands
  intro outpoint
  rw [← Finmap.lookup_toFinmap, bottom, getLastD_replicate]

def sampleOutpoint (n : UInt32) : COutPoint := ⟨.zero, n⟩

def sampleCoin (nValue : Int) : Coin := .ofOutput { nValue } 1 false

def sampleDB : CoinsDB := .single (sampleOutpoint 0) (sampleCoin 5) (by decide)

/-- Two layers over one coin, used in every way: the coin is spent and its spending
flushed, another is added and overwritten, and the last change is taken back. -/
def sampleRun : List CacheOp :=
  let spent := sampleOutpoint 0
  let added := sampleOutpoint 1
  [.getCoin 0 spent, .spendCoin spent, .addCoin added (sampleCoin 7) false, .setBestBlock 0 (.ofNat 1), .flush 0,
    .haveCoin 0 spent, .sync 1, .uncache 0 added, .addCoin added (sampleCoin 9) true, .accessCoin 0 added, .reset 1,
    .reset 0, .getCoin 0 added]

theorem cacheStack_sampleRun : (PlainStack.start sampleDB.coins.toFinmap 2).AdmitsRun sampleRun ∧
      ∃ view, (CCoinsView.emptyStack sampleDB 2).run sampleRun =
        .ok (((PlainStack.start sampleDB.coins.toFinmap 2).run sampleRun).1, view) := by
  have admits : (PlainStack.start sampleDB.coins.toFinmap 2).AdmitsRun sampleRun := by decide +kernel
  obtain ⟨view, ran, _⟩ := cacheStack_refines sampleDB 2 _ admits
  exact ⟨admits, view, ran⟩

/-- Every layer passes `SanityCheck` after every run. Nothing but the assertion of the database, that a
block is named, can stop one. -/
theorem run_sane (db : CoinsDB) (layers : Nat) (isDatabase : Bool)
    (admits : (PlainStack.start db.coins.toFinmap layers).AdmitsRun ops) :
    Stopped isDatabase ((CCoinsView.emptyStack db layers).run ops isDatabase) ∨ ∃ readings after,
      (CCoinsView.emptyStack db layers).run ops isDatabase = .ok (readings, after) ∧ after.sane = true := by
  refine (run_spec isDatabase (emptyStack_represents db layers) admits).imp_right ?_
  rintro ⟨after, ran, stands⟩
  exact ⟨_, after, ran, stands.sane⟩

theorem run_sane_sampleRun : ∃ readings after,
    (CCoinsView.emptyStack sampleDB 2).run sampleRun true = .ok (readings, after) ∧ after.sane = true := by
  refine (run_sane sampleDB 2 true (by decide +kernel)).resolve_left fun stopped => ?_
  have ended : ((CCoinsView.emptyStack sampleDB 2).run sampleRun true).isOk = true := by decide +kernel
  rw [stopped.2] at ended
  cases ended

end Runs

end Sharecoin
