import Sharecoin.Uint256

/-! The streaming SHA-256 hasher `CSHA256` and the one-shot function it is meant
to compute. `Absorbed` relates a hasher to the message written so far; every
write extends the message, so the digest depends only on the concatenation. -/

set_option autoImplicit false

namespace Sharecoin.Sha256

open Lib

/-! ## Compression -/

def ch (x y z : UInt32) : UInt32 := z ^^^ (x &&& (y ^^^ z))

def maj (x y z : UInt32) : UInt32 := (x &&& y) ||| (z &&& (x ||| y))

def rotr (x n : UInt32) : UInt32 := (x >>> n) ||| (x <<< (32 - n))

def bigSigma0 (x : UInt32) : UInt32 := rotr x 2 ^^^ rotr x 13 ^^^ rotr x 22

def bigSigma1 (x : UInt32) : UInt32 := rotr x 6 ^^^ rotr x 11 ^^^ rotr x 25

def sigma0 (x : UInt32) : UInt32 := rotr x 7 ^^^ rotr x 18 ^^^ (x >>> 3)

def sigma1 (x : UInt32) : UInt32 := rotr x 17 ^^^ rotr x 19 ^^^ (x >>> 10)

structure State where
  a : UInt32
  b : UInt32
  c : UInt32
  d : UInt32
  e : UInt32
  f : UInt32
  g : UInt32
  h : UInt32
deriving DecidableEq

def initialState : State :=
  ⟨0x6a09e667, 0xbb67ae85, 0x3c6ef372, 0xa54ff53a, 0x510e527f, 0x9b05688c, 0x1f83d9ab, 0x5be0cd19⟩

/-- One round. The source rotates the roles of the variables from call to call;
here the words themselves move. -/
def round (s : State) (k : UInt32) : State :=
  let t1 := s.h + bigSigma1 s.e + ch s.e s.f s.g + k
  let t2 := bigSigma0 s.a + maj s.a s.b s.c
  ⟨t1 + t2, s.a, s.b, s.c, s.d + t1, s.e, s.f, s.g⟩

def roundConstants : List UInt32 :=
  [0x428a2f98, 0x71374491, 0xb5c0fbcf, 0xe9b5dba5, 0x3956c25b, 0x59f111f1, 0x923f82a4, 0xab1c5ed5,
   0xd807aa98, 0x12835b01, 0x243185be, 0x550c7dc3, 0x72be5d74, 0x80deb1fe, 0x9bdc06a7, 0xc19bf174,
   0xe49b69c1, 0xefbe4786, 0x0fc19dc6, 0x240ca1cc, 0x2de92c6f, 0x4a7484aa, 0x5cb0a9dc, 0x76f988da,
   0x983e5152, 0xa831c66d, 0xb00327c8, 0xbf597fc7, 0xc6e00bf3, 0xd5a79147, 0x06ca6351, 0x14292967,
   0x27b70a85, 0x2e1b2138, 0x4d2c6dfc, 0x53380d13, 0x650a7354, 0x766a0abb, 0x81c2c92e, 0x92722c85,
   0xa2bfe8a1, 0xa81a664b, 0xc24b8b70, 0xc76c51a3, 0xd192e819, 0xd6990624, 0xf40e3585, 0x106aa070,
   0x19a4c116, 0x1e376c08, 0x2748774c, 0x34b0bcb5, 0x391c0cb3, 0x4ed8aa4a, 0x5b9cca4f, 0x682e6ff3,
   0x748f82ee, 0x78a5636f, 0x84c87814, 0x8cc70208, 0x90befffa, 0xa4506ceb, 0xbef9a3f7, 0xc67178f2]

def nextWord (window : List UInt32) : UInt32 :=
  window.getD 0 0 + sigma1 (window.getD 14 0) + window.getD 9 0 + sigma0 (window.getD 1 0)

def rounds : List UInt32 → List UInt32 → State → State
  | [], _, s => s
  | k :: ks, window, s =>
    rounds ks (window.tail ++ [nextWord window]) (round s (k + window.headD 0))

def readWords : Nat → Bytes → List UInt32
  | 0, _ => []
  | count + 1, chunk => UInt32.ofNat (ofBeBytes (chunk.take 4)) :: readWords count (chunk.drop 4)

def State.add (s t : State) : State :=
  ⟨s.a + t.a, s.b + t.b, s.c + t.c, s.d + t.d, s.e + t.e, s.f + t.f, s.g + t.g, s.h + t.h⟩

def transformChunk (s : State) (chunk : Bytes) : State :=
  s.add (rounds roundConstants (readWords 16 chunk) s)

/-- `Transform(s, chunk, blocks)`: absorb consecutive 64-byte chunks. -/
def transform (s : State) (chunk : Bytes) : Nat → State
  | 0 => s
  | blocks + 1 => transform (transformChunk s (chunk.take 64)) (chunk.drop 64) blocks

def State.output (s : State) : Bytes :=
  [s.a, s.b, s.c, s.d, s.e, s.f, s.g, s.h].flatMap fun word => beBytes 4 word.toNat

variable (s : State)

theorem State.output_length : s.output.length = 32 := by
  simp [State.output]

variable (data : Bytes)

theorem transform_add (first second : Nat) : transform s data (first + second) =
      transform (transform s data first) (data.drop (64 * first)) second := by
  induction first generalizing s data with
  | zero => simp [transform]
  | succ first ih =>
    rw [Nat.succ_add_eq_add_succ, Nat.add_succ, transform, ih, transform, List.drop_drop]
    congr 2
    ring

theorem transform_append (suffix : Bytes) (blocks : Nat) (enough : 64 * blocks ≤ data.length) :
    transform s (data ++ suffix) blocks = transform s data blocks := by
  induction blocks generalizing s data with
  | zero => rfl
  | succ blocks ih =>
    have head : 64 ≤ data.length := by omega
    rw [transform, transform, List.take_append_of_le_length head, List.drop_append_of_le_length head]
    apply ih
    rw [List.length_drop]
    omega

/-! ## The one-shot function -/

/-- One bit, then zeros up to eight bytes short of a chunk boundary, then the
message length in bits. -/
def padding (length : Nat) : Bytes :=
  (0x80 :: List.replicate ((119 - length % 64) % 64) 0) ++ beBytes 8 (length * 8)

def digest (message : Bytes) : Uint256 :=
  let padded := message ++ padding message.length
  let s := transform initialState padded (padded.length / 64)
  ⟨s.output, s.output_length⟩

/-! ## The streaming hasher -/

/-- Chaining words, the buffer of a partial chunk, and the count of bytes
written. Only the first `bytes % 64` bytes of the buffer are meaningful. -/
structure CSHA256 where
  s : State
  buf : Bytes
  bytes : UInt64

namespace CSHA256

def reset : CSHA256 := ⟨initialState, [], 0⟩

def bufsize (hasher : CSHA256) : Nat := hasher.bytes.toNat % 64

/-- First part of `Write`: complete a partial chunk when the data reaches its end. -/
def fillBuffer (hasher : CSHA256) (data : Bytes) : CSHA256 × Bytes :=
  let bufsize := hasher.bufsize
  if bufsize ≠ 0 ∧ bufsize + data.length ≥ 64 then
    let buf := hasher.buf.take bufsize ++ data.take (64 - bufsize)
    (⟨transform hasher.s buf 1, buf, hasher.bytes + UInt64.ofNat (64 - bufsize)⟩, data.drop (64 - bufsize))
  else
    (hasher, data)

/-- Second part of `Write`: absorb whole chunks straight from the data. -/
def absorbChunks (hasher : CSHA256) (data : Bytes) : CSHA256 × Bytes :=
  if data.length ≥ 64 then
    let blocks := data.length / 64
    ({ hasher with
        s := transform hasher.s data blocks
        bytes := hasher.bytes + UInt64.ofNat (64 * blocks) },
      data.drop (64 * blocks))
  else
    (hasher, data)

/-- Last part of `Write`: keep what remains in the buffer. -/
def keepRest (hasher : CSHA256) (data : Bytes) : CSHA256 :=
  if data.length > 0 then
    { hasher with
      buf := hasher.buf.take hasher.bufsize ++ data
      bytes := hasher.bytes + UInt64.ofNat data.length }
  else
    hasher

def write (hasher : CSHA256) (data : Bytes) : CSHA256 :=
  let (hasher, data) := hasher.fillBuffer data
  let (hasher, data) := hasher.absorbChunks data
  hasher.keepRest data

def pad : Bytes := 0x80 :: List.replicate 63 0

def finalize (hasher : CSHA256) : Uint256 :=
  let sizedesc := beBytes 8 (hasher.bytes <<< 3).toNat
  let padded := hasher.write (pad.take (1 + (119 - hasher.bytes.toNat % 64) % 64))
  let s := (padded.write sizedesc).s
  ⟨s.output, s.output_length⟩

end CSHA256

/-! ## Every write extends the message -/

def remainder (message : Bytes) : Bytes := message.drop (64 * (message.length / 64))

def chained (message : Bytes) : State :=
  transform initialState message (message.length / 64)

/-- The hasher holds exactly `message`. -/
structure Absorbed (hasher : CSHA256) (message : Bytes) : Prop where
  bytes_eq : hasher.bytes = UInt64.ofNat message.length
  s_eq : hasher.s = chained message
  buf_eq : hasher.buf.take hasher.bufsize = remainder message

theorem remainder_length (message : Bytes) : (remainder message).length = message.length % 64 := by
  rw [remainder, List.length_drop]
  omega

theorem chained_append (message data : Bytes) : chained (message ++ data) =
      transform (chained message) (remainder message ++ data) ((message.length % 64 + data.length) / 64) := by
  have split : (message ++ data).length / 64 = message.length / 64 + (message.length % 64 + data.length) / 64 := by
    rw [List.length_append]
    omega
  have whole : 64 * (message.length / 64) ≤ message.length := by omega
  rw [chained, split, transform_add, transform_append _ _ _ _ whole,
    List.drop_append_of_le_length whole, chained, remainder]

theorem remainder_append (message data : Bytes) : remainder (message ++ data) =
      (remainder message ++ data).drop (64 * ((message.length % 64 + data.length) / 64)) := by
  have whole : 64 * (message.length / 64) ≤ message.length := by omega
  rw [remainder, remainder, ← List.drop_append_of_le_length whole, List.drop_drop, List.length_append]
  congr 1
  omega

variable {message : Bytes} {hasher : CSHA256}

private theorem bufsize_of_bytes (counted : hasher.bytes = UInt64.ofNat message.length) :
    hasher.bufsize = message.length % 64 := by
  rw [CSHA256.bufsize, counted, UInt64.toNat_ofNat']
  omega

theorem Absorbed.bufsize_eq (absorbed : Absorbed hasher message) : hasher.bufsize = message.length % 64 :=
  bufsize_of_bytes absorbed.bytes_eq

private theorem bytes_add (absorbed : Absorbed hasher message) (data : Bytes) :
    hasher.bytes + UInt64.ofNat data.length = UInt64.ofNat (message ++ data).length := by
  rw [absorbed.bytes_eq, List.length_append, UInt64.ofNat_add]

private theorem remainder_eq_nil (boundary : message.length % 64 = 0) : remainder message = [] := by
  apply List.eq_nil_of_length_eq_zero
  rw [remainder_length, boundary]

private theorem absorbed_of_boundary (counted : hasher.bytes = UInt64.ofNat message.length)
    (words : hasher.s = chained message) (boundary : message.length % 64 = 0) : Absorbed hasher message := by
  refine ⟨counted, words, ?_⟩
  rw [bufsize_of_bytes counted, boundary, List.take_zero, remainder_eq_nil boundary]

theorem absorbed_reset : Absorbed CSHA256.reset [] := ⟨rfl, rfl, rfl⟩

section

variable (absorbed : Absorbed hasher message)
include absorbed

theorem absorbed_fillBuffer :
    ∃ taken, data = taken ++ (hasher.fillBuffer data).2 ∧ Absorbed (hasher.fillBuffer data).1 (message ++ taken) ∧
      ((message ++ taken).length % 64 = 0 ∨
        (message ++ taken).length % 64 + (hasher.fillBuffer data).2.length < 64) := by
  have size := absorbed.bufsize_eq
  simp only [CSHA256.fillBuffer, size]
  split
  · rename_i reaches
    have takenLength : (data.take (64 - message.length % 64)).length = 64 - message.length % 64 := by
      rw [List.length_take]
      omega
    have boundary : (message ++ data.take (64 - message.length % 64)).length % 64 = 0 := by
      rw [List.length_append, takenLength]
      omega
    refine ⟨data.take (64 - message.length % 64), ?_, ?_, .inl boundary⟩
    · exact (List.take_append_drop _ _).symm
    apply absorbed_of_boundary _ _ boundary
    · rw [← bytes_add absorbed, takenLength]
    · have one : (message.length % 64 + (64 - message.length % 64)) / 64 = 1 := by omega
      rw [chained_append, takenLength, one, ← absorbed.s_eq, ← absorbed.buf_eq, size]
  · rename_i short
    refine ⟨[], rfl, by simpa using absorbed, ?_⟩
    simp only [List.append_nil]
    omega

theorem absorbed_absorbChunks (ready : message.length % 64 = 0 ∨ message.length % 64 + data.length < 64) :
    ∃ taken, data = taken ++ (hasher.absorbChunks data).2 ∧ Absorbed (hasher.absorbChunks data).1 (message ++ taken) ∧
      (message ++ taken).length % 64 + (hasher.absorbChunks data).2.length < 64 := by
  unfold CSHA256.absorbChunks
  split
  · rename_i long
    have boundary : message.length % 64 = 0 := by omega
    have takenLength : (data.take (64 * (data.length / 64))).length = 64 * (data.length / 64) := by
      rw [List.length_take]
      omega
    have aligned : (message ++ data.take (64 * (data.length / 64))).length % 64 = 0 := by
      rw [List.length_append, takenLength]
      omega
    refine ⟨data.take (64 * (data.length / 64)), (List.take_append_drop _ _).symm, ?_, ?_⟩
    · apply absorbed_of_boundary _ _ aligned
      · rw [← bytes_add absorbed, takenLength]
      have count : (message.length % 64 + 64 * (data.length / 64)) / 64 = data.length / 64 := by omega
      have hashed := transform_append hasher.s _ (data.drop (64 * (data.length / 64))) _ takenLength.ge
      rw [List.take_append_drop] at hashed
      rw [chained_append, takenLength, count, remainder_eq_nil boundary, List.nil_append, ← absorbed.s_eq]
      exact hashed
    · rw [aligned, List.length_drop]
      omega
  · rename_i short
    refine ⟨[], rfl, by simpa using absorbed, ?_⟩
    simp only [List.append_nil]
    omega

theorem absorbed_keepRest
    (fits : message.length % 64 + data.length < 64) : Absorbed (hasher.keepRest data) (message ++ data) := by
  have size := absorbed.bufsize_eq
  have none : (message.length % 64 + data.length) / 64 = 0 := by omega
  unfold CSHA256.keepRest
  split
  · refine ⟨bytes_add absorbed data, ?_, ?_⟩
    · rw [chained_append, none, transform, ← absorbed.s_eq]
    rw [bufsize_of_bytes (bytes_add absorbed data), remainder_append, none, Nat.mul_zero,
      List.drop_zero, ← absorbed.buf_eq]
    apply List.take_of_length_le
    rw [absorbed.buf_eq, List.length_append, remainder_length, List.length_append]
    omega
  · rename_i empty
    have nil : data = [] := List.eq_nil_of_length_eq_zero (by omega)
    rw [nil, List.append_nil]
    exact absorbed

theorem Absorbed.write : Absorbed (hasher.write data) (message ++ data) := by
  obtain ⟨filled, fillSplit, afterFill, ready⟩ := absorbed_fillBuffer data absorbed
  obtain ⟨chunks, chunkSplit, afterChunks, fits⟩ := absorbed_absorbChunks _ afterFill ready
  have kept := absorbed_keepRest _ afterChunks fits
  rw [List.append_assoc, List.append_assoc, ← chunkSplit, ← fillSplit] at kept
  exact kept

end

private theorem pad_take {count : Nat} (fits : count < 64) :
    CSHA256.pad.take (1 + count) = 0x80 :: List.replicate count 0 := by
  rw [CSHA256.pad, Nat.add_comm, List.take_succ_cons, List.take_replicate]
  congr 2
  omega

private theorem sizedesc_eq (length : Nat) : beBytes 8 (UInt64.ofNat length <<< 3).toNat = beBytes 8 (length * 8) := by
  have shifted : (UInt64.ofNat length <<< 3).toNat = length * 8 % 256 ^ 8 := by
    rw [UInt64.toNat_shiftLeft, UInt64.toNat_ofNat', Nat.shiftLeft_eq]
    simp only [UInt64.reduceToNat, Nat.reduceMod]
    omega
  rw [beBytes, beBytes, shifted, leBytes_mod]

theorem Absorbed.finalize (absorbed : Absorbed hasher message) : hasher.finalize = digest message := by
  have size : hasher.bytes.toNat % 64 = message.length % 64 := absorbed.bufsize_eq
  have short : (119 - message.length % 64) % 64 < 64 := Nat.mod_lt _ (by decide)
  have written := (absorbed.write (CSHA256.pad.take (1 + (119 - hasher.bytes.toNat % 64) % 64))).write
    (beBytes 8 (hasher.bytes <<< 3).toNat)
  have message_eq : message ++ CSHA256.pad.take (1 + (119 - hasher.bytes.toNat % 64) % 64) ++
      beBytes 8 (hasher.bytes <<< 3).toNat = message ++ padding message.length := by
    rw [size, pad_take short, absorbed.bytes_eq, sizedesc_eq, padding, List.append_assoc]
  rw [message_eq] at written
  apply Uint256.ext
  rw [CSHA256.finalize, digest]
  exact congrArg State.output written.s_eq

theorem Absorbed.foldl_write (absorbed : Absorbed hasher message) (pieces : List Bytes) :
    Absorbed (pieces.foldl CSHA256.write hasher) (message ++ pieces.flatten) := by
  induction pieces generalizing hasher message with
  | nil => simpa using absorbed
  | cons piece pieces ih => simpa using ih (absorbed.write piece)

/-! ## Hashing serialized data -/

structure HashWriter where
  ctx : CSHA256

namespace HashWriter

def new : HashWriter := ⟨CSHA256.reset⟩

def write (writer : HashWriter) (src : Bytes) : HashWriter := ⟨writer.ctx.write src⟩

def getHash (writer : HashWriter) : Uint256 :=
  (CSHA256.reset.write writer.ctx.finalize.data).finalize

def getSHA256 (writer : HashWriter) : Uint256 := writer.ctx.finalize

end HashWriter

def doubleDigest (message : Bytes) : Uint256 := digest (digest message).data

theorem HashWriter.getHash_of_absorbed {writer : HashWriter}
    (absorbed : Absorbed writer.ctx message) : writer.getHash = doubleDigest message := by
  rw [getHash, absorbed.finalize]
  exact (absorbed_reset.write _).finalize

/-- However a message is cut into pieces, both hashes are those of the whole. -/
theorem HashWriter.hashes_of_pieces (pieces : List Bytes) :
    (pieces.foldl HashWriter.write .new).getSHA256 = digest pieces.flatten ∧
      (pieces.foldl HashWriter.write .new).getHash = doubleDigest pieces.flatten := by
  have same : pieces.foldl CSHA256.write .reset = (pieces.foldl HashWriter.write .new).ctx :=
    List.foldl_hom HashWriter.ctx fun _ _ => rfl
  have absorbed := absorbed_reset.foldl_write pieces
  rw [same] at absorbed
  exact ⟨absorbed.finalize, getHash_of_absorbed absorbed⟩

end Sharecoin.Sha256
