import Mathlib.Data.List.Basic
import Mathlib.Tactic.Ring

/-! Byte strings, fixed-width integers in both byte orders, and readers that
consume a prefix of their input. `Reads` is the round-trip relation: a reader
returns the encoded value and leaves whatever follows untouched. -/

set_option autoImplicit false

namespace Sharecoin.Lib

abbrev Bytes := List UInt8

/-! ## Fixed-width integers -/

def leBytes : Nat → Nat → Bytes
  | 0, _ => []
  | width + 1, number => UInt8.ofNat number :: leBytes width (number / 256)

def ofLeBytes : Bytes → Nat
  | [] => 0
  | byte :: rest => byte.toNat + 256 * ofLeBytes rest

def beBytes (width number : Nat) : Bytes := (leBytes width number).reverse

def ofBeBytes (bytes : Bytes) : Nat := ofLeBytes bytes.reverse

variable (width number : Nat)

@[simp] theorem leBytes_length : (leBytes width number).length = width := by
  induction width generalizing number with
  | zero => rfl
  | succ width ih => simp [leBytes, ih]

@[simp] theorem beBytes_length : (beBytes width number).length = width := by
  simp [beBytes]

theorem ofLeBytes_leBytes : ofLeBytes (leBytes width number) = number % 256 ^ width := by
  induction width generalizing number with
  | zero => simp [leBytes, ofLeBytes, Nat.mod_one]
  | succ width ih =>
    have digit : (UInt8.ofNat number).toNat = number % 256 := by simp
    rw [leBytes, ofLeBytes, ih, digit, Nat.pow_succ, Nat.mul_comm (256 ^ width) 256, Nat.mod_mul]

theorem ofLeBytes_leBytes_of_lt {width number : Nat} (fits : number < 256 ^ width) :
    ofLeBytes (leBytes width number) = number := by
  rw [ofLeBytes_leBytes, Nat.mod_eq_of_lt fits]

variable (bytes : Bytes)

theorem leBytes_ofLeBytes : leBytes bytes.length (ofLeBytes bytes) = bytes := by
  induction bytes with
  | nil => rfl
  | cons byte rest ih =>
    have small := byte.toNat_lt
    have quotient : (byte.toNat + 256 * ofLeBytes rest) / 256 = ofLeBytes rest := by omega
    have digit : UInt8.ofNat (byte.toNat + 256 * ofLeBytes rest) = byte := by
      apply UInt8.toNat_inj.mp
      simp only [UInt8.toNat_ofNat']
      omega
    simp only [List.length_cons, leBytes, ofLeBytes, quotient, digit, ih]

theorem leBytes_mod : leBytes width (number % 256 ^ width) = leBytes width number := by
  have spelled := leBytes_ofLeBytes (leBytes width number)
  rwa [leBytes_length, ofLeBytes_leBytes] at spelled

theorem ofLeBytes_append (low high : Bytes) :
    ofLeBytes (low ++ high) = ofLeBytes low + 256 ^ low.length * ofLeBytes high := by
  induction low with
  | nil => simp [ofLeBytes]
  | cons byte low ih =>
    rw [List.cons_append, ofLeBytes, ih, ofLeBytes, List.length_cons, Nat.pow_succ]
    ring

theorem ofLeBytes_lt : ofLeBytes bytes < 256 ^ bytes.length := by
  induction bytes with
  | nil => simp [ofLeBytes]
  | cons byte rest ih =>
    have small := byte.toNat_lt
    rw [ofLeBytes, List.length_cons, Nat.pow_succ]
    omega

theorem ofBeBytes_lt : ofBeBytes bytes < 256 ^ bytes.length := by
  have bound := ofLeBytes_lt bytes.reverse
  rwa [List.length_reverse] at bound

theorem ofBeBytes_split (count : Nat) (bytes : Bytes) : ofBeBytes bytes = ofBeBytes (bytes.drop count) +
      256 ^ (bytes.length - count) * ofBeBytes (bytes.take count) := by
  have halves : bytes.reverse = (bytes.drop count).reverse ++ (bytes.take count).reverse := by
    rw [← List.reverse_append, List.take_append_drop]
  rw [ofBeBytes, halves, ofLeBytes_append, List.length_reverse, List.length_drop]
  rfl

/-! ## Readers -/

/-- A reader takes a value off the front of its input, or fails. -/
abbrev Reader (α : Type) := StateT Bytes Option α

def readBytes (width : Nat) : Reader Bytes := fun input =>
  if width ≤ input.length then some (input.take width, input.drop width) else none

def readLe (width : Nat) : Reader Nat := do
  let bytes ← readBytes width
  return ofLeBytes bytes

/-- A number that is present only under a condition, and zero otherwise. -/
def readIf (condition : Prop) [Decidable condition] (reader : Reader Nat) : Reader Nat :=
  if condition then reader else pure 0

/-- A check in the middle of reading. -/
def readGuard (holds : Bool) : Reader Unit := if holds then pure () else failure

def readMany {α : Type} (item : Reader α) : Nat → Reader (List α)
  | 0 => pure []
  | count + 1 => do
    let first ← item
    let rest ← readMany item count
    pure (first :: rest)

/-- `reader` decodes `bytes` to `value` in front of any continuation. -/
def Reads {α : Type} (reader : Reader α) (bytes : Bytes) (value : α) : Prop :=
  ∀ rest, reader (bytes ++ rest) = some (value, rest)

section Reads

variable {α β : Type}

theorem Reads.pure (value : α) : Reads (Pure.pure value : Reader α) [] value :=
  fun _ => rfl

variable {value : α} {next : α → Reader β} {result : β}

theorem Reads.bind {first : Reader α} {head tail : Bytes}
    (front : Reads first head value) (back : Reads (next value) tail result) :
    Reads (first >>= next) (head ++ tail) result := by
  intro rest
  change (first (head ++ tail ++ rest) >>= fun pair => next pair.1 pair.2) = _
  rw [List.append_assoc, front (tail ++ rest)]
  exact back rest

variable {bytes} {reader : Reader α} {input rest : Bytes} {holds : Bool}

theorem Reads.map (convert : α → β) (decoded : Reads reader bytes value) :
    Reads (reader >>= fun read => Pure.pure (convert read)) bytes (convert value) := by
  have finished : Reads (Pure.pure (convert value) : Reader β) [] (convert value) := Reads.pure (convert value)
  rw [← List.append_nil bytes]
  exact Reads.bind decoded finished

theorem Reads.andThen (decoded : Reads reader bytes value)
    (finished : Reads (next value) [] result) : Reads (reader >>= next) bytes result := by
  rw [← List.append_nil bytes]
  exact Reads.bind decoded finished

theorem Reads.guard (passed : holds = true) (decoded : Reads reader bytes value) :
    Reads (readGuard holds >>= fun _ => reader) bytes value := by
  subst passed
  exact decoded

theorem Reads.unique {others : Bytes} {other : α} (decoded : Reads reader bytes value)
    (decoded' : Reads reader others other) (same : bytes = others) : value = other := by
  have first := decoded []
  have second := decoded' []
  rw [same, second] at first
  exact (Prod.mk.inj (Option.some.inj first)).1.symm

theorem reads_readMany {item : Reader β} {write : α → Bytes} {convert : α → β} {items : List α}
    (decoded : ∀ value ∈ items, Reads item (write value) (convert value)) :
    Reads (readMany item items.length) (items.flatMap write) (items.map convert) := by
  induction items with
  | nil => exact Reads.pure []
  | cons value items ih =>
    rw [List.flatMap_cons]
    refine Reads.bind (decoded value (.head _)) ?_
    exact (ih (List.forall_mem_cons.mp decoded).2).andThen (.pure _)

theorem reads_readIf (condition : Prop) [Decidable condition] {reader : Reader Nat}
    {bytes : Bytes} {value : Nat} (decoded : Reads reader bytes value) :
    Reads (readIf condition reader) (if condition then bytes else [])
      (if condition then value else 0) := by
  unfold readIf
  split
  · exact decoded
  · exact Reads.pure 0

theorem reads_readBytes (bytes : Bytes) : Reads (readBytes bytes.length) bytes bytes := by
  intro rest
  simp [readBytes]

theorem reads_readLe {width number : Nat} (fits : number < 256 ^ width) :
    Reads (readLe width) (leBytes width number) number := by
  have taken := reads_readBytes (leBytes width number)
  rw [leBytes_length] at taken
  have decoded := taken.map ofLeBytes
  rwa [ofLeBytes_leBytes_of_lt fits] at decoded

/-! ### What a reader must have read -/

theorem bind_eq_some (read : (reader >>= next) input = some (result, rest)) :
    ∃ value middle, reader input = some (value, middle) ∧ next value middle = some (result, rest) := by
  change (reader input >>= fun pair => next pair.1 pair.2) = _ at read
  obtain ⟨⟨value, middle⟩, front, back⟩ := Option.bind_eq_some_iff.mp read
  exact ⟨value, middle, front, back⟩

theorem guard_eq_some (read : (readGuard holds >>= fun _ => reader) input = some (value, rest)) :
    holds = true ∧ reader input = some (value, rest) := by
  cases holds with
  | false => cases read
  | true => exact ⟨rfl, read⟩

theorem readLe_eq_some {width number : Nat} (read : readLe width input = some (number, rest)) :
    number < 256 ^ width ∧ input = leBytes width number ++ rest := by
  obtain ⟨taken, middle, front, back⟩ := bind_eq_some read
  cases back
  unfold readBytes at front
  split at front
  next enough =>
    cases front
    have size : (input.take width).length = width := List.length_take_of_le enough
    have bound := ofLeBytes_lt (input.take width)
    have spelled := leBytes_ofLeBytes (input.take width)
    rw [size] at bound spelled
    exact ⟨bound, by rw [spelled, List.take_append_drop]⟩
  next => cases front

end Reads

end Sharecoin.Lib
