import Mathlib.Logic.Basic

/-! Programs over a state. A run returns a value, fails and leaves the state it has
reached, or aborts. A sequence returns exactly what its parts return one after the
other, so a proof about a program never unfolds the monad. -/

set_option autoImplicit false

namespace Sharecoin.Lib

theorem bind_eq_ok_iff {ε α β : Type} {first : Except ε α} {next : α → Except ε β} {result : β} :
    (first >>= next) = .ok result ↔ ∃ value, first = .ok value ∧ next value = .ok result := by
  cases first <;> simp [bind, Except.bind]

/-- `σ` is the state, `ε` what an abort reports and `φ` what a failure reports. -/
abbrev Program (σ ε φ α : Type) := ExceptT φ (StateT σ (Except ε)) α

theorem ok_bind {ε α β : Type} (value : α) (next : α → Except ε β) : (Except.ok value >>= next) = next value := rfl

theorem foldlM_refuse {α σ ε : Type} {step : σ → α → Except ε σ} {bad : α → Prop} [DecidablePred bad]
    {next : σ → α → σ} {error : ε} {items : List α}
    (steps : ∀ item ∈ items, ∀ state,
      step state item = if bad item then .error error else .ok (next state item)) (state : σ) :
    items.foldlM step state = if ∃ item ∈ items, bad item then .error error else .ok (items.foldl next state) := by
  induction items generalizing state with
  | nil => simp [pure, Except.pure]
  | cons item items ih =>
    rw [List.foldlM_cons, steps item (.head _)]
    by_cases here : bad item
    · rw [if_pos here, if_pos ⟨item, (.head _), here⟩]
      rfl
    rw [if_neg here]
    have rest := ih (List.forall_mem_cons.mp steps).2
      (next state item)
    change items.foldlM step (next state item) = _
    rw [rest, List.foldl_cons]
    simp [here]

variable {done : Unit}

namespace Program

variable {σ ε φ ψ α β : Type}

def exec (program : Program σ ε φ α) (start : σ) : Except ε (Except φ α × σ) :=
  (ExceptT.run program).run start

def onState (step : σ → α × σ) : Program σ ε φ α :=
  ExceptT.mk fun state => .ok (.ok (step state).1, (step state).2)

/-- A step that only changes the state, or aborts. -/
def change (step : σ → Except ε σ) : Program σ ε φ Unit :=
  ExceptT.mk fun state =>
    match step state with
    | .error error => .error error
    | .ok state => .ok (.ok (), state)

def abort (error : ε) : Program σ ε φ α := ExceptT.mk fun _ => .error error

def require (holds : Bool) (failure : φ) : Program σ ε φ Unit :=
  if holds then pure () else throw failure

def insist (holds : Bool) (error : ε) : Program σ ε φ Unit :=
  if holds then pure () else abort error

def reporting (convert : φ → ψ) (program : Program σ ε φ α) : Program σ ε ψ α :=
  ExceptT.adapt convert program

/-- Runs a step for every item and says whether all steps returned true. -/
def allOf (step : α → Program σ ε φ Bool) : List α → Program σ ε φ Bool
  | [] => pure true
  | item :: items => do
    let own ← step item
    let rest ← allOf step items
    pure (own && rest)

/-! ## Runs that return -/

/-- From `start` the program returns `value` and leaves `finish`. -/
def Returns (program : Program σ ε φ α) (start : σ) (value : α) (finish : σ) : Prop :=
  program.exec start = .ok (.ok value, finish)

variable {start finish : σ} {value : α} {result : β}

def outcome (program : Program σ ε φ α) (start : σ) : Option (α × σ) :=
  match program.exec start with
  | .ok (.ok value, finish) => some (value, finish)
  | _ => none

variable {program : Program σ ε φ α} {failure : φ} {error : ε} {holds : Bool} {other : α}

theorem returns_of_outcome (returned : program.outcome start = some (value, finish)) :
    Returns program start value finish := by
  unfold outcome at returned
  split at returned
  · next ran =>
    cases returned
    exact ran
  · cases returned

theorem Returns.unique {left right : σ} (first : Returns program start value left)
    (second : Returns program start other right) : other = value ∧ right = left := by
  rw [Returns, first] at second
  cases second
  exact ⟨rfl, rfl⟩

theorem returns_bind_iff {first : Program σ ε φ α} {next : α → Program σ ε φ β} :
    Returns (first >>= next) start result finish ↔ ∃ value middle, Returns first start value middle ∧
        Returns (next value) middle result finish := by
  have unfolded : (first >>= next).exec start = (first.exec start >>= fun outcome =>
        match outcome.1 with
        | .ok value => (next value).exec outcome.2
        | .error failure => .ok (.error failure, outcome.2)) := by
    change ((ExceptT.run first).run start >>= _) = _
    congr 1
    funext outcome
    obtain ⟨value | value, middle⟩ := outcome <;> rfl
  simp only [Returns, unfolded]
  cases ran : first.exec start with
  | error error => simp [bind, Except.bind]
  | ok outcome =>
    obtain ⟨failure | value, middle⟩ := outcome
    · simp [bind, Except.bind]
    simp only [bind, Except.bind, Except.ok.injEq, Prod.mk.injEq]
    constructor
    · intro returned
      exact ⟨value, middle, ⟨rfl, rfl⟩, returned⟩
    · rintro ⟨_, _, ⟨rfl, rfl⟩, returned⟩
      exact returned

@[simp] theorem returns_pure_iff :
    Returns (pure value : Program σ ε φ α) start other finish ↔ other = value ∧ finish = start := by
  constructor
  · intro returned
    cases returned
    exact ⟨rfl, rfl⟩
  · rintro ⟨rfl, rfl⟩
    rfl

@[simp] theorem not_returns_throw : ¬ Returns (throw failure : Program σ ε φ α) start value finish := by
  intro returned
  cases returned

@[simp] theorem not_returns_abort : ¬ Returns (abort error : Program σ ε φ α) start value finish := by
  intro returned
  cases returned

@[simp] theorem returns_onState_iff {step : σ → α × σ} :
    Returns (onState step : Program σ ε φ α) start value finish ↔ step start = (value, finish) := by
  constructor
  · intro returned
    cases returned
    rfl
  · intro stepped
    change Except.ok (Except.ok (step start).1, (step start).2) = _
    rw [stepped]

@[simp] theorem returns_change_iff {step : σ → Except ε σ} :
    Returns (change step : Program σ ε φ Unit) start done finish ↔ step start = .ok finish := by
  have unfolded : (change step : Program σ ε φ Unit).exec start = match step start with
      | .error error => .error error
      | .ok state => .ok (.ok (), state) := rfl
  rw [Returns, unfolded]
  cases step start <;> simp

@[simp] theorem returns_require_iff :
    Returns (require holds failure : Program σ ε φ Unit) start done finish ↔ holds = true ∧ finish = start := by
  cases holds <;> simp [require]

@[simp] theorem returns_insist_iff :
    Returns (insist holds error : Program σ ε φ Unit) start done finish ↔ holds = true ∧ finish = start := by
  cases holds <;> simp [insist]

@[simp] theorem returns_reporting_iff {convert : φ → ψ} : Returns (reporting convert program) start value finish ↔
      Returns program start value finish := by
  have unfolded : (reporting convert program).exec start =
      (program.exec start >>= fun outcome => .ok (outcome.1.mapError convert, outcome.2)) := rfl
  rw [Returns, Returns, unfolded]
  cases ran : program.exec start with
  | error error => simp [bind, Except.bind]
  | ok outcome =>
    obtain ⟨failure | result, middle⟩ := outcome
    · have failed : (Except.error failure : Except φ α).mapError convert = .error (convert failure) := rfl
      simp [bind, Except.bind, failed]
    · have succeeded : (Except.ok result : Except φ α).mapError convert = .ok result := rfl
      simp [bind, Except.bind, succeeded]

variable {step : α → Program σ ε φ Bool} {middle : σ} {item : α} {items : List α}

theorem returns_allOf_cons (own : Returns (step item) start true middle)
    (rest : Returns (allOf step items) middle true finish) :
    Returns (allOf step (item :: items)) start true finish := by
  simp only [allOf, returns_bind_iff, returns_pure_iff]
  exact ⟨true, middle, own, true, finish, rest, rfl, rfl⟩

theorem returns_allOf_append {first second : List α} (left : Returns (allOf step first) start true middle)
    (right : Returns (allOf step second) middle true finish) :
    Returns (allOf step (first ++ second)) start true finish := by
  induction first generalizing start with
  | nil =>
    obtain ⟨_, rfl⟩ := returns_pure_iff.mp left
    exact right
  | cons item items ih =>
    simp only [allOf, returns_bind_iff, returns_pure_iff] at left
    obtain ⟨own, reached, ran, rest, _, others, both, rfl⟩ := left
    obtain ⟨rfl, rfl⟩ := Bool.and_eq_true_iff.mp both.symm
    exact returns_allOf_cons ran (ih others)

theorem returns_allOf_reverse_cons
    (rest : Returns (allOf step items.reverse) start true middle) (own : Returns (step item) middle true finish) :
    Returns (allOf step (item :: items).reverse) start true finish := by
  rw [List.reverse_cons]
  exact returns_allOf_append rest (returns_allOf_cons own (returns_pure_iff.mpr ⟨rfl, rfl⟩))

end Program

end Sharecoin.Lib
