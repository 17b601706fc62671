import GiveMePi.Library.ProgramLogic
import GiveMePi.Library.SecureHash
import GiveMePi.Verification.VerificationManifest

/-! # Incremental SHA-256

The digest of bytes that arrive in pieces, through a buffer of one block. Reading a file for its
digest is left out. -/

namespace GiveMePi.Verification

open Library

structure SHA256 where
  state : Vector UInt32 8
  buffer : Vector UInt8 64
  bufferSize : ℕ
  totalBytes : UInt64
  finalized : Bool
  digest : SHA256Digest

namespace SHA256

def roundConstants : Vector UInt32 64 := #v[
  0x428a2f98, 0x71374491, 0xb5c0fbcf, 0xe9b5dba5,
  0x3956c25b, 0x59f111f1, 0x923f82a4, 0xab1c5ed5,
  0xd807aa98, 0x12835b01, 0x243185be, 0x550c7dc3,
  0x72be5d74, 0x80deb1fe, 0x9bdc06a7, 0xc19bf174,
  0xe49b69c1, 0xefbe4786, 0x0fc19dc6, 0x240ca1cc,
  0x2de92c6f, 0x4a7484aa, 0x5cb0a9dc, 0x76f988da,
  0x983e5152, 0xa831c66d, 0xb00327c8, 0xbf597fc7,
  0xc6e00bf3, 0xd5a79147, 0x06ca6351, 0x14292967,
  0x27b70a85, 0x2e1b2138, 0x4d2c6dfc, 0x53380d13,
  0x650a7354, 0x766a0abb, 0x81c2c92e, 0x92722c85,
  0xa2bfe8a1, 0xa81a664b, 0xc24b8b70, 0xc76c51a3,
  0xd192e819, 0xd6990624, 0xf40e3585, 0x106aa070,
  0x19a4c116, 0x1e376c08, 0x2748774c, 0x34b0bcb5,
  0x391c0cb3, 0x4ed8aa4a, 0x5b9cca4f, 0x682e6ff3,
  0x748f82ee, 0x78a5636f, 0x84c87814, 0x8cc70208,
  0x90befffa, 0xa4506ceb, 0xbef9a3f7, 0xc67178f2]

/-- The context the constructor makes. -/
def new : SHA256 where
  state := #v[0x6a09e667, 0xbb67ae85, 0x3c6ef372, 0xa54ff53a,
    0x510e527f, 0x9b05688c, 0x1f83d9ab, 0x5be0cd19]
  buffer := Vector.replicate 64 0
  bufferSize := 0
  totalBytes := 0
  finalized := false
  digest := ⟨List.replicate 32 0, List.length_replicate⟩

/-! ## One block -/

def loadBigEndian (block : Vector UInt8 64) (offset : ℕ) (h : offset + 4 ≤ 64) : UInt32 :=
  block[offset].toUInt32 <<< 24 ||| block[offset + 1].toUInt32 <<< 16 |||
    block[offset + 2].toUInt32 <<< 8 ||| block[offset + 3].toUInt32

/-- `std::rotr` -/
def rotr (x shift : UInt32) : UInt32 :=
  x >>> shift ||| x <<< (32 - shift)

/-- The first loop of `transform`, over the words of the block. -/
def loadSchedule (block : Vector UInt8 64) : Vector UInt32 64 :=
  Nat.fold 16 (fun index _ schedule => schedule.set index (loadBigEndian block (index * 4) (by omega)))
    (Vector.replicate 64 0)

/-- A pass of the second loop; `index` counts from 16. -/
def extendSchedule (index : ℕ) (h : index < 48) (schedule : Vector UInt32 64) : Vector UInt32 64 :=
  let s0 := rotr schedule[index + 16 - 15] 7 ^^^ rotr schedule[index + 16 - 15] 18 ^^^
    schedule[index + 16 - 15] >>> 3
  let s1 := rotr schedule[index + 16 - 2] 17 ^^^ rotr schedule[index + 16 - 2] 19 ^^^
    schedule[index + 16 - 2] >>> 10
  schedule.set (index + 16) (schedule[index + 16 - 16] + s0 + schedule[index + 16 - 7] + s1)

def schedule (block : Vector UInt8 64) : Vector UInt32 64 :=
  Nat.fold 48 extendSchedule (loadSchedule block)

/-- The local variables of the rounds. -/
structure Variables where
  a : UInt32
  b : UInt32
  c : UInt32
  d : UInt32
  e : UInt32
  f : UInt32
  g : UInt32
  h : UInt32

def Variables.load (state : Vector UInt32 8) : Variables :=
  ⟨state[0], state[1], state[2], state[3], state[4], state[5], state[6], state[7]⟩

/-- A pass of the loop over the rounds. -/
def round (constant word : UInt32) (v : Variables) : Variables :=
  let sum1 := rotr v.e 6 ^^^ rotr v.e 11 ^^^ rotr v.e 25
  let choice := (v.e &&& v.f) ^^^ (~~~v.e &&& v.g)
  let temporary1 := v.h + sum1 + choice + constant + word
  let sum0 := rotr v.a 2 ^^^ rotr v.a 13 ^^^ rotr v.a 22
  let majority := (v.a &&& v.b) ^^^ (v.a &&& v.c) ^^^ (v.b &&& v.c)
  let temporary2 := sum0 + majority
  { h := v.g, g := v.f, f := v.e, e := v.d + temporary1, d := v.c, c := v.b, b := v.a,
    a := temporary1 + temporary2 }

def transform (state : Vector UInt32 8) (block : Vector UInt8 64) : Vector UInt32 8 :=
  let schedule := schedule block
  let v := Nat.fold 64 (fun index _ => round roundConstants[index] schedule[index])
    (Variables.load state)
  #v[state[0] + v.a, state[1] + v.b, state[2] + v.c, state[3] + v.d,
    state[4] + v.e, state[5] + v.f, state[6] + v.g, state[7] + v.h]

/-! ## The context -/

/-- The buffer with the bytes from an index on replaced, by `memcpy`, `std::fill` or an
assignment. -/
def overwrite (buffer : Vector UInt8 64) (start : ℕ) (source : Bytes) : Vector UInt8 64 :=
  Vector.ofFn fun i => if start ≤ i then source.getD (i - start) buffer[i] else buffer[i]

/-- The most bytes whose number of bits is a `uint64_t`. -/
def maximumBytes : UInt64 :=
  uint64Max / 8

/-- The first part of `update`, which completes a partial block; returns the offset after it. -/
def fillBuffer (context : SHA256) (bytes : Bytes) : SHA256 × ℕ :=
  if context.bufferSize ≠ 0 then
    let copied := min bytes.length (64 - context.bufferSize)
    let buffer := overwrite context.buffer context.bufferSize (bytes.take copied)
    if context.bufferSize + copied = 64 then
      ({ context with state := transform context.state buffer, buffer, bufferSize := 0 }, copied)
    else ({ context with buffer, bufferSize := context.bufferSize + copied }, copied)
  else (context, 0)

/-- The loop over the whole blocks from an offset on; returns the offset after them. -/
def transformBlocks (state : Vector UInt32 8) (bytes : Bytes) (offset : ℕ) : Vector UInt32 8 × ℕ :=
  if h : bytes.length - offset ≥ 64 then
    transformBlocks (transform state (Vector.ofFn fun i => bytes[offset + i])) bytes (offset + 64)
  else (state, offset)
termination_by bytes.length - offset

/-- The part of `update` after its checks. -/
def take (context : SHA256) (bytes : Bytes) : SHA256 :=
  let filled := fillBuffer context bytes
  let blocks := transformBlocks filled.1.state bytes filled.2
  if blocks.2 < bytes.length then
    { filled.1 with
      state := blocks.1
      bufferSize := bytes.length - blocks.2
      buffer := overwrite filled.1.buffer 0 (bytes.drop blocks.2) }
  else { filled.1 with state := blocks.1 }

def update (bytes : Bytes) : Action SHA256 Unit := do
  let context ← get
  throwIf context.finalized (.logicError "Cannot update a finalized SHA-256 context")
  throwIf (bytes.length > (maximumBytes - context.totalBytes).toNat)
    (.lengthError "SHA-256 input bit length overflows uint64")
  set { context with totalBytes := context.totalBytes + UInt64.ofNat bytes.length }
  modify fun context => context.take bytes

/-- The end mark, and the zeros up to the length field, with a block of their own if they do not
fit. -/
def pad (context : SHA256) : SHA256 :=
  let buffer := overwrite context.buffer context.bufferSize [0x80]
  let bufferSize := context.bufferSize + 1
  if bufferSize > 56 then
    let buffer := overwrite buffer bufferSize (List.replicate (64 - bufferSize) 0)
    { context with
      state := transform context.state buffer
      buffer := overwrite buffer 0 (List.replicate 56 0) }
  else { context with buffer := overwrite buffer bufferSize (List.replicate (56 - bufferSize) 0) }

/-- The loop that writes the length field. -/
def storeLength (bitLength : UInt64) (buffer : Vector UInt8 64) : Vector UInt8 64 :=
  Nat.fold 8 (fun index _ buffer =>
    buffer.set (63 - index) (bitLength >>> UInt64.ofNat (index * 8)).toUInt8) buffer

/-- The bytes of a word, the loop body over the words of the state. -/
def wordBytes (word : UInt32) : Bytes :=
  (List.range 4).map fun byte => (word >>> UInt32.ofNat (24 - byte * 8)).toUInt8

theorem length_wordBytes (state : Vector UInt32 8) :
    (state.toList.flatMap wordBytes).length = 32 := by
  have h : ∀ words : List UInt32, (words.flatMap wordBytes).length = 4 * words.length := by
    intro words
    induction words with
    | nil => rfl
    | cons word words ih =>
        rw [List.flatMap_cons, List.length_append, ih, List.length_cons]
        simp [wordBytes]
        ring
  simp [h]

def digestOf (state : Vector UInt32 8) : SHA256Digest :=
  ⟨state.toList.flatMap wordBytes, length_wordBytes state⟩

def finalize : Action SHA256 SHA256Digest := do
  let context ← get
  if context.finalized then return context.digest
  let bitLength := context.totalBytes * 8
  let padded := context.pad
  let buffer := storeLength bitLength padded.buffer
  let state := transform padded.state buffer
  set { padded with state, buffer, bufferSize := 0, digest := digestOf state, finalized := true }
  return digestOf state

def hash (bytes : Bytes) : Except Error SHA256Digest :=
  match (do update bytes; finalize : Action SHA256 SHA256Digest) new with
  | .ok digest _ => .ok digest
  | .error error _ => .error error

end SHA256

end GiveMePi.Verification
