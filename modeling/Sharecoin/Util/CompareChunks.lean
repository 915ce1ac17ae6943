import Sharecoin.Util.FeeDiagram
import Sharecoin.Util.FeeFracMath

/-! `CompareChunks`, which compares two diagrams at the points of either. Sums and differences are
checked: where one overflows its type there is no result. -/

set_option autoImplicit false

namespace Sharecoin.FeeFrac

def checked (fee size : Int) : Option FeeFrac := do
  let fee ← signed 64 fee
  let size ← signed 32 size
  some ⟨fee, size⟩

/-- One of the diagrams: the chunks not processed yet, and the point they start from. -/
structure Cursor where
  rest : List FeeFrac
  accum : FeeFrac := {}

namespace Cursor

def nextPoint (cursor : Cursor) : Option FeeFrac := do
  let chunk ← cursor.rest.head?
  checked (chunk.fee + cursor.accum.fee) (chunk.size + cursor.accum.size)

def advance (cursor : Cursor) : Option Cursor := do
  let accum ← cursor.nextPoint
  some ⟨cursor.rest.tail, accum⟩

end Cursor

/-- Which diagram has the first unprocessed point. -/
def unprocSide (dia : Bool → Cursor) : Option Bool :=
  let done0 := (dia false).rest.isEmpty
  let done1 := (dia true).rest.isEmpty
  if done0 || done1 then some done0
  else do
    let point0 ← (dia false).nextPoint
    let point1 ← (dia true).nextPoint
    some (decide (point0.size > point1.size))

/-- How the next point of a diagram lies to the line the other one is on, and the other one after
that. -/
def comparePoint (own other : Cursor) : Option (Ordering × Cursor) := do
  let pointP ← own.nextPoint
  let pointA := other.accum
  let slopeAP ← checked (pointP.fee - pointA.fee) (pointP.size - pointA.size)
  if other.rest.isEmpty then some (slopeAP.compareByRatio ⟨0, 1⟩, other)
  else
    let pointB ← other.nextPoint
    let slopeAB ← checked (pointB.fee - pointA.fee) (pointB.size - pointA.size)
    let after ← if pointB.size = pointP.size then other.advance else some other
    some (slopeAP.compareByRatio slopeAB, after)

/-- The loop of `CompareChunks` over the diagrams of the two sides, `false` being the first one.
Without a comparison the diagrams are unordered. -/
def compareLoop : Nat → (Bool → Cursor) → (Bool → Bool) → Option (Option Ordering)
  | 0, _, _ => none
  | fuel + 1, dia, better =>
    if (dia false).rest.isEmpty && (dia true).rest.isEmpty then
      some (some (compare (better false) (better true)))
    else do
      let unproc ← unprocSide dia
      let (cmp, other) ← comparePoint (dia unproc) (dia !unproc)
      let own ← (dia unproc).advance
      let better := fun side => better side || cmp == if side = unproc then .gt else .lt
      if better false && better true then some none
      else compareLoop fuel (fun side => if side = unproc then own else other) better

def compareChunks (chunks0 chunks1 : List FeeFrac) : Option (Option Ordering) :=
  compareLoop (chunks0.length + chunks1.length + 1) (fun side => ⟨if side then chunks1 else chunks0, {}⟩) fun _ => false

/-! ## Diagrams from a cursor on -/

namespace Cursor

noncomputable def value (cursor : Cursor) (x : ℝ) : ℝ :=
  cursor.accum.fee + diagram cursor.rest (x - cursor.accum.size)

/-- Every point still to come can be represented, with room for a difference of fees. -/
structure Fits (cursor : Cursor) : Prop where
  start : 0 ≤ cursor.accum.size
  positive : ∀ chunk ∈ cursor.rest, 0 < chunk.size
  sums : ∀ front, front <+: cursor.rest →
    |(cursor.accum + front.sum).fee| < 2 ^ 62 ∧ (cursor.accum + front.sum).size < 2 ^ 31

variable {cursor : Cursor} {chunk : FeeFrac} {rest : List FeeFrac}

theorem Fits.accum (fits : cursor.Fits) : |cursor.accum.fee| < 2 ^ 62 ∧ cursor.accum.size < 2 ^ 31 := by
  simpa using fits.sums [] (List.nil_prefix ..)

theorem Fits.next (fits : cursor.Fits) (shape : cursor.rest = chunk :: rest) :
    0 < chunk.size ∧ |cursor.accum.fee + chunk.fee| < 2 ^ 62 ∧ cursor.accum.size + chunk.size < 2 ^ 31 := by
  have := fits.sums [chunk] (shape ▸ ⟨rest, rfl⟩)
  rw [List.sum_singleton] at this
  exact ⟨fits.positive chunk (shape ▸ .head _), this⟩

theorem checked_eq {fee size : Int} (feeFits : |fee| < 2 ^ 63) (sizeFits : 0 ≤ size ∧ size < 2 ^ 31) :
    checked fee size = some ⟨fee, size⟩ := by
  rw [abs_lt] at feeFits
  have left : IsSigned 64 fee := by
    unfold IsSigned
    omega
  have right : IsSigned 32 size := by
    unfold IsSigned
    omega
  simp only [checked, signed_eq left, signed_eq right, bind, Option.bind_some]

theorem Fits.nextPoint (fits : cursor.Fits) (shape : cursor.rest = chunk :: rest) :
    cursor.nextPoint = some (cursor.accum + chunk) := by
  obtain ⟨positive, fee, size⟩ := fits.next shape
  have := fits.start
  rw [Cursor.nextPoint, shape, add_comm cursor.accum]
  exact checked_eq (by rw [add_comm]; omega) (by omega)

theorem Fits.advance (fits : cursor.Fits) (shape : cursor.rest = chunk :: rest) :
    cursor.advance = some ⟨rest, cursor.accum + chunk⟩ ∧ Fits ⟨rest, cursor.accum + chunk⟩ := by
  constructor
  · rw [Cursor.advance, fits.nextPoint shape, shape]
    rfl
  have next := fits.next shape
  have := fits.start
  refine ⟨by rw [size_add]; omega, fun other member => fits.positive other (shape ▸ .tail _ member), ?_⟩
  intro front isPrefix
  have := fits.sums (chunk :: front) (shape ▸ (List.prefix_cons_inj chunk).mpr isPrefix)
  rwa [List.sum_cons, ← add_assoc] at this

/-- The slope of the line a diagram is on; after the last point it is level. -/
def slope (cursor : Cursor) : FeeFrac := cursor.rest.head?.getD ⟨0, 1⟩

theorem Fits.slope_pos (fits : cursor.Fits) : 0 < cursor.slope.size := by
  rw [slope]
  cases shape : cursor.rest with
  | nil => exact one_pos
  | cons chunk rest => exact (fits.next shape).1

/-- A size up to the next point. -/
def Near (cursor : Cursor) (x : ℝ) : Prop :=
  ∀ chunk rest, cursor.rest = chunk :: rest → x ≤ (cursor.accum + chunk).size

theorem Near.value_eq {x : ℝ} (near : cursor.Near x) : cursor.value x =
    cursor.accum.fee + (x - cursor.accum.size) * (cursor.slope.fee / cursor.slope.size) := by
  cases shape : cursor.rest with
  | nil => simp [value, slope, shape, diagram]
  | cons chunk rest =>
    have inside := near chunk rest shape
    rw [size_add] at inside
    push_cast at inside
    rw [value, slope, shape, diagram, if_pos (by linarith)]
    rfl

theorem Fits.value_advance (fits : cursor.Fits) (shape : cursor.rest = chunk :: rest) {x : ℝ}
    (beyond : (cursor.accum + chunk).size ≤ x) :
    (Cursor.mk rest (cursor.accum + chunk)).value x = cursor.value x := by
  rw [size_add] at beyond
  push_cast at beyond
  rw [value, value, shape, diagram_cons_of_ge (shape ▸ fits.positive) (by linarith), fee_add, size_add]
  push_cast
  rw [sub_sub, add_assoc]

/-- A diagram follows a line between two sizes. -/
def Straight (f : ℝ → ℝ) (start last : ℝ) : Prop :=
  ∃ level slope, ∀ x, start ≤ x → x ≤ last → f x = level + slope * x

theorem Straight.lt_or_lt {f g : ℝ → ℝ} {start last x : ℝ} (left : Straight f start last)
    (right : Straight g start last) (after : start ≤ x) (before : x ≤ last) (less : f x < g x) :
    f start < g start ∨ f last < g last := by
  obtain ⟨level, slope, line⟩ := left
  obtain ⟨level', slope', line'⟩ := right
  rw [line x after before, line' x after before] at less
  rw [line start le_rfl (after.trans before), line' start le_rfl (after.trans before),
    line last (after.trans before) le_rfl, line' last (after.trans before) le_rfl]
  by_contra neither
  rw [not_or, not_lt, not_lt] at neither
  obtain ⟨first, second⟩ := neither
  rcases le_total slope' slope with down | up
  · nlinarith
  · nlinarith

theorem Near.straight {last : ℝ} (near : cursor.Near last) (start : ℝ) : Straight cursor.value start last := by
  refine ⟨cursor.accum.fee - cursor.accum.size * (cursor.slope.fee / cursor.slope.size),
    cursor.slope.fee / cursor.slope.size, fun x _ before => ?_⟩
  rw [Near.value_eq fun chunk rest shape => before.trans (near chunk rest shape)]
  ring

/-- A cursor of the same diagram whose next point is beyond a size. -/
structure Passed (cursor : Cursor) (last : Int) (after : Cursor) : Prop where
  fits : after.Fits
  same : ∀ x : ℝ, last ≤ x → after.value x = cursor.value x
  start : after.accum.size ≤ last
  next : ∀ chunk rest, after.rest = chunk :: rest → last < (after.accum + chunk).size
  shorter : after.rest.length ≤ cursor.rest.length

theorem Fits.passed_advance (fits : cursor.Fits) (shape : cursor.rest = chunk :: rest) :
    Passed cursor (cursor.accum + chunk).size ⟨rest, cursor.accum + chunk⟩ := by
  refine ⟨(fits.advance shape).2, fun x => fits.value_advance shape, le_rfl, fun chunk' rest' shape' => ?_, ?_⟩
  · change rest = _ at shape'
    have := fits.positive chunk' (by simp [shape, shape'])
    change _ < (cursor.accum + chunk + chunk').size
    rw [size_add _ chunk']
    omega
  · rw [shape]
    exact Nat.le_succ _

theorem comparePoint_spec {own other : Cursor} (ownFits : own.Fits) (otherFits : other.Fits)
    (shape : own.rest = chunk :: rest) {pointP : FeeFrac} (point : own.accum + chunk = pointP)
    (before : other.accum.size < pointP.size) (near : other.Near pointP.size) :
    ∃ cmp after, comparePoint own other = some (cmp, after) ∧ Passed other pointP.size after ∧
      (cmp = .gt ↔ other.value pointP.size < own.value pointP.size) ∧
      (cmp = .lt ↔ own.value pointP.size < other.value pointP.size) := by
  have otherAccum := otherFits.accum
  have otherStart := otherFits.start
  obtain ⟨-, ownFee, ownSize⟩ := ownFits.next shape
  rw [← fee_add, point] at ownFee
  rw [← size_add, point] at ownSize
  have slopeAP : checked (pointP.fee - other.accum.fee) (pointP.size - other.accum.size) = some ⟨_, _⟩ :=
    checked_eq (by rw [abs_lt] at *; omega) (by omega)
  have ownValue : own.value pointP.size = pointP.fee := by
    rw [← point, ← ownFits.value_advance shape le_rfl, value, sub_self,
      diagram_zero fun other member => ownFits.positive other (shape ▸ .tail _ member), add_zero]
  have ran : ∃ after, comparePoint own other = some (compareByRatio ⟨pointP.fee - other.accum.fee,
      pointP.size - other.accum.size⟩ other.slope, after) ∧ Passed other pointP.size after := by
    simp only [comparePoint, ownFits.nextPoint shape, point, slopeAP, bind, Option.bind_some, slope]
    cases shape' : other.rest with
    | nil => exact ⟨other, rfl, otherFits, fun _ _ => rfl, before.le, by simp [shape'], le_rfl⟩
    | cons chunk' rest' =>
      have otherNext := otherFits.next shape'
      have inside : pointP.size ≤ (other.accum + chunk').size := by exact_mod_cast near chunk' rest' shape'
      have slopeAB : checked ((other.accum + chunk').fee - other.accum.fee)
          ((other.accum + chunk').size - other.accum.size) = some chunk' := by
        rw [fee_add, size_add, add_sub_cancel_left, add_sub_cancel_left]
        exact checked_eq (by rw [abs_lt] at *; omega) (by omega)
      simp only [List.isEmpty_cons, Bool.false_eq_true, if_false, otherFits.nextPoint shape', slopeAB,
        Option.bind_some]
      split
      next same =>
        rw [(otherFits.advance shape').1]
        exact ⟨_, rfl, same ▸ otherFits.passed_advance shape'⟩
      next differs =>
        refine ⟨other, rfl, otherFits, fun _ _ => rfl, before.le, fun chunk rest shape => ?_, le_rfl⟩
        cases shape'.symm.trans shape
        omega
  obtain ⟨after, ran, passed⟩ := ran
  have size : (0 : ℝ) < other.slope.size := by exact_mod_cast otherFits.slope_pos
  have scaled : (other.value pointP.size - other.accum.fee) * other.slope.size =
      other.slope.fee * (pointP.size - other.accum.size) := by
    rw [near.value_eq]
    field_simp
    ring
  refine ⟨_, after, ran, passed, ?_, ?_⟩
  all_goals
    simp only [compareByRatio, compare_gt_iff_gt, compare_lt_iff_lt, ownValue]
    rw [← Int.cast_lt (R := ℝ)]
    push_cast
    rw [← scaled, mul_lt_mul_iff_left₀ size, sub_lt_sub_iff_right]

end Cursor

/-! ## The loop -/

open Cursor

/-- Everything up to a size has been compared. -/
structure Swept (dia : Bool → Cursor) (better : Bool → Bool) (size : Int) : Prop where
  fits : ∀ side, (dia side).Fits
  start : ∀ side, (dia side).accum.size ≤ size
  next : ∀ side chunk rest, (dia side).rest = chunk :: rest → size < ((dia side).accum + chunk).size
  seen : ∀ side, (dia !side).value size < (dia side).value size → better side = true

/-- A side that is or will be found better somewhere. -/
def Ahead (dia : Bool → Cursor) (better : Bool → Bool) (size : Int) (side : Bool) : Prop :=
  better side = true ∨ ∃ x : ℝ, size ≤ x ∧ (dia !side).value x < (dia side).value x

variable {dia : Bool → Cursor} {better : Bool → Bool} {size : Int}

theorem Swept.ahead_iff_of_done (swept : Swept dia better size) (done : ∀ side, (dia side).rest = [])
    (side : Bool) : Ahead dia better size side ↔ better side = true := by
  refine or_iff_left_of_imp fun ⟨x, _, less⟩ => swept.seen side ?_
  simpa [value, done, diagram] using less

section

variable (swept : Swept dia better size) (more : ((dia false).rest.isEmpty && (dia true).rest.isEmpty) = false)

include swept more

/-- The side with the first unprocessed point, and that no other point comes before it. -/
theorem Swept.unprocSide_eq :
    ∃ unproc chunk rest, unprocSide dia = some unproc ∧ (dia unproc).rest = chunk :: rest ∧
      (dia !unproc).Near ((dia unproc).accum + chunk).size := by
  unfold unprocSide
  cases left : (dia false).rest with
  | nil =>
    cases right : (dia true).rest with
    | nil => simp [left, right] at more
    | cons chunk rest => exact ⟨true, chunk, rest, rfl, right, by simp [Near, left]⟩
  | cons chunk rest =>
    cases right : (dia true).rest with
    | nil => exact ⟨false, chunk, rest, rfl, left, by simp [Near, right]⟩
    | cons chunk' rest' =>
      simp only [List.isEmpty_cons, Bool.or_self, Bool.false_eq_true, if_false, bind, Option.bind_some,
        (swept.fits false).nextPoint left, (swept.fits true).nextPoint right]
      by_cases later : ((dia false).accum + chunk).size > ((dia true).accum + chunk').size
      · refine ⟨true, chunk', rest', congrArg some (decide_eq_true later), right, fun _ _ shape => ?_⟩
        cases left.symm.trans shape
        exact Int.cast_le.mpr later.le
      · refine ⟨false, chunk, rest, congrArg some (decide_eq_false later), left, fun _ _ shape => ?_⟩
        cases right.symm.trans shape
        exact Int.cast_le.mpr (not_lt.mp later)

theorem Swept.step :
    ∃ unproc cmp own other size', unprocSide dia = some unproc ∧
      comparePoint (dia unproc) (dia !unproc) = some (cmp, other) ∧ (dia unproc).advance = some own ∧
      let dia' := fun side => if side = unproc then own else other
      let better' := fun side => better side || cmp == if side = unproc then .gt else .lt
      Swept dia' better' size' ∧ (∀ side, Ahead dia' better' size' side ↔ Ahead dia better size side) ∧
        (dia' false).rest.length + (dia' true).rest.length < (dia false).rest.length + (dia true).rest.length := by
  obtain ⟨unproc, chunk, rest, chosen, shape, near⟩ := swept.unprocSide_eq more
  have beyond := swept.next unproc chunk rest shape
  have fits := swept.fits unproc
  obtain ⟨cmp, other, compared, passed, above, below⟩ := comparePoint_spec fits (swept.fits !unproc) shape
    rfl ((swept.start _).trans_lt beyond) near
  have ownPassed := fits.passed_advance shape
  have ownNear : (dia unproc).Near ((dia unproc).accum + chunk).size := by
    intro chunk' rest' shape'
    cases shape.symm.trans shape'
    exact le_rfl
  refine ⟨unproc, cmp, ⟨rest, _⟩, other, ((dia unproc).accum + chunk).size, chosen, compared,
    (fits.advance shape).1, ?_⟩
  generalize ((dia unproc).accum + chunk).size = last at *
  intro dia' better'
  have passed : ∀ side, Passed (dia side) last (dia' side) := by
    rw [Bool.forall_bool' unproc]
    exact ⟨by simpa [dia'] using ownPassed, by simpa [dia'] using passed⟩
  have verdict : ∀ side, (cmp == if side = unproc then .gt else .lt) = true ↔
      (dia !side).value last < (dia side).value last := by
    rw [Bool.forall_bool' unproc]
    exact ⟨by simpa using above, by simpa using below⟩
  have straight : ∀ side, Straight (dia side).value size last :=
    (Bool.forall_bool' unproc).mpr ⟨ownNear.straight size, near.straight size⟩
  refine ⟨⟨fun side => (passed side).fits, fun side => (passed side).start, fun side => (passed side).next,
    fun side less => ?_⟩, fun side => ⟨?_, ?_⟩, ?_⟩
  · rw [(passed _).same _ le_rfl, (passed _).same _ le_rfl, ← verdict] at less
    simp [better', less]
  · rintro (flag | ⟨x, late, less⟩)
    · rcases (Bool.or_eq_true ..).mp flag with old | new
      · exact .inl old
      · exact .inr ⟨last, by exact_mod_cast beyond.le, (verdict side).mp new⟩
    · rw [(passed _).same x late, (passed _).same x late] at less
      exact .inr ⟨x, le_trans (by exact_mod_cast beyond.le) late, less⟩
  · rintro (flag | ⟨x, late, less⟩)
    · exact .inl (by simp [better', flag])
    rcases le_total (last : ℝ) x with after | before
    · exact .inr ⟨x, after, by rwa [(passed _).same x after, (passed _).same x after]⟩
    · rcases (straight _).lt_or_lt (straight side) late before less with old | new
      · exact .inl (by simp [better', swept.seen side old])
      · exact .inl (by simp [better', (verdict side).mpr new])
  · have first := (passed false).shorter
    have second := (passed true).shorter
    have strict : (dia' unproc).rest.length < (dia unproc).rest.length := by simp [dia', shape]
    cases unproc <;> omega

end

/-- The order that `CompareChunks` makes of the sides that are better somewhere. -/
def Verdict (better0 better1 : Prop) : Option Ordering → Prop
  | none => better0 ∧ better1
  | some .gt => better0 ∧ ¬ better1
  | some .lt => ¬ better0 ∧ better1
  | some .eq => ¬ better0 ∧ ¬ better1

theorem Swept.compareLoop_eq : ∀ fuel dia better size, Swept dia better size →
    (dia false).rest.length + (dia true).rest.length < fuel → (better false && better true) = false →
    ∃ order, compareLoop fuel dia better = some order ∧
      Verdict (Ahead dia better size false) (Ahead dia better size true) order
  | 0, _, _, _, _, enough, _ => absurd enough (Nat.not_lt_zero _)
  | fuel + 1, dia, better, size, swept, enough, undecided => by
    rw [compareLoop]
    cases more : (dia false).rest.isEmpty && (dia true).rest.isEmpty with
    | true =>
      rw [Bool.and_eq_true, List.isEmpty_iff, List.isEmpty_iff] at more
      refine ⟨_, rfl, ?_⟩
      rw [swept.ahead_iff_of_done (Bool.forall_bool.mpr more), swept.ahead_iff_of_done (Bool.forall_bool.mpr more)]
      revert undecided
      cases better false <;> cases better true <;> simp [Verdict, compare]
    | false =>
      obtain ⟨unproc, cmp, own, other, size', chosen, compared, advanced, swept', ahead, shorter⟩ := swept.step more
      let better' := fun side => better side || cmp == if side = unproc then .gt else .lt
      simp only [chosen, compared, advanced, Bool.false_eq_true, if_false, bind, Option.bind_some]
      by_cases both : (better' false && better' true) = true
      · rw [if_pos both]
        rw [Bool.and_eq_true] at both
        exact ⟨none, rfl, (ahead _).mp (.inl both.1), (ahead _).mp (.inl both.2)⟩
      · rw [if_neg both, ← ahead, ← ahead]
        exact Swept.compareLoop_eq fuel _ better' _ swept' (shorter.trans_le (Nat.le_of_lt_succ enough))
          (Bool.not_eq_true _ ▸ both)

/-- Whether the diagram of some chunks is below that of others at some size. -/
def BelowSomewhere (chunks others : List FeeFrac) : Prop :=
  ∃ x : ℝ, 0 ≤ x ∧ diagram chunks x < diagram others x

/-- Chunks that `CompareChunks` can add up. -/
structure Representable (chunks : List FeeFrac) : Prop where
  positive : ∀ chunk ∈ chunks, 0 < chunk.size
  fees : ∀ front ∈ chunks.inits, |front.sum.fee| < 2 ^ 62
  sizes : chunks.sum.size < 2 ^ 31

theorem Representable.fits {chunks : List FeeFrac} (representable : Representable chunks) : Fits ⟨chunks, {}⟩ := by
  refine ⟨le_rfl, representable.positive, ?_⟩
  rintro front ⟨back, rfl⟩
  have nonneg := size_sum_nonneg fun chunk member =>
    representable.positive chunk (List.mem_append_right front member)
  have total := representable.sizes
  rw [List.sum_append, size_add] at total
  have fee := representable.fees front ((List.mem_inits ..).mpr ⟨back, rfl⟩)
  rw [fee_add, size_add]
  exact ⟨(zero_add front.sum.fee).symm ▸ fee, by change 0 + front.sum.size < _; omega⟩

theorem value_start (chunks : List FeeFrac) : (Cursor.mk chunks {}).value = diagram chunks := by
  funext x
  simp [value]

/-- `CompareChunks` compares the diagrams at every size. -/
theorem compareChunks_pointwise {chunks0 chunks1 : List FeeFrac} (first : Representable chunks0)
    (second : Representable chunks1) : ∃ order, compareChunks chunks0 chunks1 = some order ∧
      Verdict (BelowSomewhere chunks1 chunks0) (BelowSomewhere chunks0 chunks1) order := by
  let dia : Bool → Cursor := fun side => ⟨if side then chunks1 else chunks0, {}⟩
  have fits : ∀ side, (dia side).Fits := by
    intro side
    cases side
    · exact first.fits
    · exact second.fits
  have zero : ∀ side, (dia side).value (0 : Int) = 0 := by
    intro side
    rw [value_start, Int.cast_zero, diagram_zero (fits side).positive]
  have swept : Swept dia (fun _ => false) 0 := by
    refine ⟨fits, fun _ => le_rfl, fun side chunk rest shape => ?_, fun side less => ?_⟩
    · have := ((fits side).next shape).1
      change 0 < 0 + chunk.size
      omega
    · rw [zero, zero] at less
      exact absurd less (lt_irrefl 0)
  obtain ⟨order, ran, verdict⟩ := Swept.compareLoop_eq (chunks0.length + chunks1.length + 1) dia _ 0 swept
    (Nat.lt_succ_self _) rfl
  have ahead : ∀ side, Ahead dia (fun _ => false) 0 side ↔
      BelowSomewhere (dia !side).rest (dia side).rest := by
    intro side
    rw [Ahead, BelowSomewhere, value_start, value_start, Int.cast_zero]
    exact or_iff_right Bool.false_ne_true
  exact ⟨order, ran, by rwa [ahead, ahead] at verdict⟩

/-- A crossing of two diagrams. -/
theorem compareChunks_pointwise_crossing : ∃ order, compareChunks [⟨3, 1⟩] [⟨4, 2⟩] = some order ∧
    Verdict (BelowSomewhere [⟨4, 2⟩] [⟨3, 1⟩]) (BelowSomewhere [⟨3, 1⟩] [⟨4, 2⟩]) order :=
  compareChunks_pointwise ⟨by decide, by decide +kernel, by decide⟩ ⟨by decide, by decide +kernel, by decide⟩

/-- Without a bound on the sizes there may be no result: the second point of the first diagram
overflows. -/
theorem compareChunks_overflow : (∀ chunk ∈ [FeeFrac.mk 0 (2 ^ 30), ⟨0, 2 ^ 30⟩], 0 < chunk.size) ∧
      (∀ front ∈ [FeeFrac.mk 0 (2 ^ 30), ⟨0, 2 ^ 30⟩].inits, |front.sum.fee| < 2 ^ 62) ∧
      compareChunks [⟨0, 2 ^ 30⟩, ⟨0, 2 ^ 30⟩] [] = none := by decide +kernel

end Sharecoin.FeeFrac
