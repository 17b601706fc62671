import GiveMePi.Library.WordCodec
import Mathlib.Data.List.Basic
import Mathlib.Data.Nat.ModEq
import Mathlib.Data.Nat.NthRoot.Defs
import Mathlib.Data.Nat.Prime.Basic
import Mathlib.Tactic.Common

/-! # The secure hash algorithm

SHA-256 of FIPS 180-4, for messages of whole bytes: the functions and constants of section 4, the
padding of section 5 and the computation of section 6.2. -/

/-! ## Functions of blocks

A state that takes in a message block by block: what whole blocks make of the state, and what remains
of the message. A message may arrive in pieces, as long as the remainder of one is read before the
next. -/

namespace GiveMePi.Library

variable {σ α : Type*} {size : ℕ} {compress : σ → List α → σ}

/-- The state after the whole blocks of a message, and the elements that do not fill a block. -/
def absorb (size : ℕ) (compress : σ → List α → σ) (state : σ) (message : List α) : σ × List α :=
  if 0 < size ∧ size ≤ message.length then
    absorb size compress (compress state (message.take size)) (message.drop size)
  else (state, message)
termination_by message.length
decreasing_by
  rw [List.length_drop]
  omega

theorem absorb_of_lt {message : List α} (h : message.length < size) (state : σ) :
    absorb size compress state message = (state, message) := by
  rw [absorb, if_neg]
  omega

/-- A whole block goes into the state. -/
theorem absorb_block_append (hsize : 0 < size) {block : List α} (hblock : block.length = size)
    (state : σ) (rest : List α) :
    absorb size compress state (block ++ rest) = absorb size compress (compress state block) rest := by
  rw [absorb, if_pos, List.take_left' hblock, List.drop_left' hblock]
  rw [List.length_append]
  omega

theorem absorb_block (hsize : 0 < size) {block : List α} (hblock : block.length = size)
    (state : σ) : absorb size compress state block = (compress state block, []) := by
  calc absorb size compress state block
      = absorb size compress state (block ++ []) := by rw [List.append_nil]
    _ = absorb size compress (compress state block) [] := absorb_block_append hsize hblock state []
    _ = (compress state block, []) := absorb_of_lt hsize _

/-- The remainder is shorter than a block. -/
theorem length_absorb_lt (hsize : 0 < size) (state : σ) (message : List α) :
    (absorb size compress state message).2.length < size := by
  fun_induction absorb size compress state message with
  | case1 state message h ih => exact ih
  | case2 state message h => exact Nat.lt_of_not_le fun hle => h ⟨hsize, hle⟩

/-- Together with the blocks taken in, the remainder has the length of the message. -/
theorem length_absorb_mod (state : σ) (message : List α) :
    (absorb size compress state message).2.length % size = message.length % size := by
  fun_induction absorb size compress state message with
  | case1 state message h ih =>
      rw [ih, List.length_drop]
      exact (Nat.mod_eq_sub_mod h.2).symm
  | case2 state message h => rfl

/-- A message in two pieces: the second follows the remainder of the first. -/
theorem absorb_append (state : σ) (first second : List α) :
    absorb size compress state (first ++ second) =
      absorb size compress (absorb size compress state first).1
        ((absorb size compress state first).2 ++ second) := by
  fun_induction absorb size compress state first with
  | case1 state first h ih =>
      have hblock : (first.take size).length = size := by
        rw [List.length_take]
        omega
      calc absorb size compress state (first ++ second)
          = absorb size compress state (first.take size ++ (first.drop size ++ second)) := by
            rw [← List.append_assoc, List.take_append_drop]
        _ = absorb size compress (compress state (first.take size)) (first.drop size ++ second) :=
            absorb_block_append h.1 hblock _ _
        _ = _ := ih
  | case2 state first h => rfl

end GiveMePi.Library

namespace GiveMePi.Library.SecureHash

abbrev Word := BitVec 32

/-! ## Functions and constants -/

def ch (x y z : Word) : Word :=
  (x &&& y) ^^^ (~~~x &&& z)

def maj (x y z : Word) : Word :=
  (x &&& y) ^^^ (x &&& z) ^^^ (y &&& z)

def bigSigma0 (x : Word) : Word :=
  x.rotateRight 2 ^^^ x.rotateRight 13 ^^^ x.rotateRight 22

def bigSigma1 (x : Word) : Word :=
  x.rotateRight 6 ^^^ x.rotateRight 11 ^^^ x.rotateRight 25

def smallSigma0 (x : Word) : Word :=
  x.rotateRight 7 ^^^ x.rotateRight 18 ^^^ x >>> 3

def smallSigma1 (x : Word) : Word :=
  x.rotateRight 17 ^^^ x.rotateRight 19 ^^^ x >>> 10

/-- The first sixty-four primes. -/
def primes : List ℕ :=
  (List.range 312).filter Nat.Prime

/-- The first thirty-two bits of the fractional part of a root. -/
def fractionalRoot (degree p : ℕ) : Word :=
  BitVec.ofNat 32 (Nat.nthRoot degree (p * 2 ^ (32 * degree)))

/-- The constants of the rounds, from the cube roots. -/
def constants : List Word :=
  primes.map (fractionalRoot 3)

/-- Eight words: a hash value, or the working variables of a block. -/
@[ext]
structure Registers where
  a : Word
  b : Word
  c : Word
  d : Word
  e : Word
  f : Word
  g : Word
  h : Word
deriving DecidableEq

def Registers.ofList : List Word → Option Registers
  | [a, b, c, d, e, f, g, h] => some ⟨a, b, c, d, e, f, g, h⟩
  | _ => none

def Registers.toList (r : Registers) : List Word :=
  [r.a, r.b, r.c, r.d, r.e, r.f, r.g, r.h]

def Registers.add (r s : Registers) : Registers :=
  ⟨r.a + s.a, r.b + s.b, r.c + s.c, r.d + s.d, r.e + s.e, r.f + s.f, r.g + s.g, r.h + s.h⟩

/-- The initial hash value, from the square roots of the first eight primes. -/
def initial : Registers :=
  (Registers.ofList ((primes.take 8).map (fractionalRoot 2))).getD ⟨0, 0, 0, 0, 0, 0, 0, 0⟩

/-! ## Padding -/

/-- The number of zero bits after the one bit that ends a message of this many bits. -/
def zeroBits (length : ℕ) : ℕ :=
  (448 + 512 - (length + 1) % 512) % 512

/-- It is the smallest solution of the equation of section 5.1.1. -/
theorem zeroBits_least (length : ℕ) :
    length + 1 + zeroBits length ≡ 448 [MOD 512] ∧
      ∀ k, length + 1 + k ≡ 448 [MOD 512] → zeroBits length ≤ k := by
  rw [zeroBits]
  refine ⟨?_, ?_⟩
  · rw [Nat.ModEq]
    omega
  · intro k hk
    rw [Nat.ModEq] at hk
    omega

/-- The one bit and the zero bits of whole bytes, and the number of bits of the message. -/
def padding (length : ℕ) : List UInt8 :=
  0x80 :: List.replicate ((zeroBits (8 * length) - 7) / 8) 0 ++ toBytes 8 (8 * length)

def pad (message : List UInt8) : List UInt8 :=
  message ++ padding message.length

/-- A message of whole bytes is padded to whole blocks of 512 bits. -/
theorem length_pad (message : List UInt8) : (pad message).length % 64 = 0 := by
  simp only [pad, padding, zeroBits, List.length_append, List.length_cons, List.length_replicate,
    length_toBytes]
  omega

/-! ## Computation -/

/-- The word of a block of bytes at an index. -/
def blockWord (block : List UInt8) (t : ℕ) : Word :=
  BitVec.ofNat 32 (ofBytes ((block.drop (4 * t)).take 4))

/-- The message schedule. -/
def schedule (block : List UInt8) (t : ℕ) : Word :=
  if t < 16 then blockWord block t
  else smallSigma1 (schedule block (t - 2)) + schedule block (t - 7) +
    smallSigma0 (schedule block (t - 15)) + schedule block (t - 16)

theorem schedule_of_lt {t : ℕ} (h : t < 16) (block : List UInt8) :
    schedule block t = blockWord block t := by
  rw [schedule, if_pos h]

theorem schedule_of_le {t : ℕ} (h : 16 ≤ t) (block : List UInt8) :
    schedule block t = smallSigma1 (schedule block (t - 2)) + schedule block (t - 7) +
      smallSigma0 (schedule block (t - 15)) + schedule block (t - 16) := by
  rw [schedule, if_neg (Nat.not_lt.mpr h)]

/-- One round, with its constant and its word of the schedule. -/
def round (constant word : Word) (r : Registers) : Registers :=
  let t1 := r.h + bigSigma1 r.e + ch r.e r.f r.g + constant + word
  let t2 := bigSigma0 r.a + maj r.a r.b r.c
  ⟨t1 + t2, r.a, r.b, r.c, r.d + t1, r.e, r.f, r.g⟩

/-- The rounds before an index. -/
def rounds (block : List UInt8) (r : Registers) (count : ℕ) : Registers :=
  (List.range count).foldl (fun r t => round (constants.getD t 0) (schedule block t) r) r

@[simp] theorem rounds_zero (block : List UInt8) (r : Registers) : rounds block r 0 = r := rfl

theorem rounds_succ (block : List UInt8) (r : Registers) (count : ℕ) :
    rounds block r (count + 1) =
      round (constants.getD count 0) (schedule block count) (rounds block r count) := by
  rw [rounds, List.range_succ, List.foldl_concat]
  rfl

/-- The next hash value after a block. -/
def compress (r : Registers) (block : List UInt8) : Registers :=
  r.add (rounds block r 64)

/-- The hash value after the whole blocks of a message, and the bytes after them. -/
def hashBlocks : Registers → List UInt8 → Registers × List UInt8 :=
  absorb 64 compress

theorem hashBlocks_of_lt {message : List UInt8} (h : message.length < 64) (r : Registers) :
    hashBlocks r message = (r, message) :=
  absorb_of_lt h r

theorem hashBlocks_block_append {block : List UInt8} (h : block.length = 64) (r : Registers)
    (rest : List UInt8) : hashBlocks r (block ++ rest) = hashBlocks (compress r block) rest :=
  absorb_block_append (by decide) h r rest

theorem hashBlocks_block {block : List UInt8} (h : block.length = 64) (r : Registers) :
    hashBlocks r block = (compress r block, []) :=
  absorb_block (by decide) h r

theorem hashBlocks_append (r : Registers) (first second : List UInt8) :
    hashBlocks r (first ++ second) =
      hashBlocks (hashBlocks r first).1 ((hashBlocks r first).2 ++ second) :=
  absorb_append r first second

theorem length_hashBlocks_mod (r : Registers) (message : List UInt8) :
    (hashBlocks r message).2.length % 64 = message.length % 64 :=
  length_absorb_mod r message

/-- The blocks of a padded message leave no bytes over. -/
theorem hashBlocks_pad (r : Registers) (message : List UInt8) :
    (hashBlocks r (pad message)).2 = [] := by
  have hmod := length_hashBlocks_mod r (pad message)
  have hlt : (hashBlocks r (pad message)).2.length < 64 := length_absorb_lt (by decide) r _
  rw [length_pad, Nat.mod_eq_of_lt hlt] at hmod
  exact List.length_eq_zero_iff.mp hmod

/-- The message digest. -/
def digest (message : List UInt8) : List UInt8 :=
  (hashBlocks initial (pad message)).1.toList.flatMap fun word => toBytes 4 word.toNat

end GiveMePi.Library.SecureHash
