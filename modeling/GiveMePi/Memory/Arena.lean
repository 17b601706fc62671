import GiveMePi.Library.ProgramLogic
import GiveMePi.Memory.Buffer
import Mathlib.Data.List.Infix
import Mathlib.Data.List.Induction

/-! # Arenas

An arena hands out its buffer from the front to the back, and takes all of it back at once. -/

namespace GiveMePi.Memory

open Library

structure Arena where
  buffer : UInt64
  capacity : UInt64
  offset : UInt64
deriving DecidableEq, Repr

namespace Arena

/-- The arena on a buffer of the size that its constructor asked for. -/
def create (buffer : Buffer) : Arena :=
  ⟨buffer.address, buffer.size, 0⟩

def alignAddress (address alignment : UInt64) : UInt64 :=
  let mask := alignment - 1
  (address + mask) &&& ~~~mask

def allocate (size alignment : UInt64) : EStateM BadAlloc Arena UInt64 := do
  let arena ← get
  let current := arena.buffer + arena.offset
  let aligned := alignAddress current alignment
  let padding := aligned - current
  if arena.offset + padding + size > arena.capacity then
    throw .badAlloc
  let offset := arena.offset + padding
  let result := arena.buffer + offset
  set { arena with offset := offset + size }
  pure result

def reset (arena : Arena) : Arena :=
  { arena with offset := 0 }

def used (arena : Arena) : UInt64 :=
  arena.offset

def remaining (arena : Arena) : UInt64 :=
  arena.capacity - arena.offset

/-- The bytes that are skipped in front of the next range. -/
def padding (arena : Arena) (alignment : UInt64) : UInt64 :=
  alignAddress (arena.buffer + arena.offset) alignment - (arena.buffer + arena.offset)

/-- Where the next range would end, counted from the start of the buffer. -/
def total (arena : Arena) (size alignment : UInt64) : ℕ :=
  arena.offset.toNat + (arena.padding alignment).toNat + size.toNat

theorem allocate_eq (size alignment : UInt64) (arena : Arena) :
    allocate size alignment arena =
      if arena.offset + arena.padding alignment + size > arena.capacity then
        .error .badAlloc arena
      else .ok (arena.buffer + (arena.offset + arena.padding alignment))
        { arena with offset := arena.offset + arena.padding alignment + size } := by
  by_cases h : arena.offset + arena.padding alignment + size > arena.capacity
  · rw [if_pos h]
    rw [padding] at h
    simp only [allocate, Program.get_bind, if_pos h]
    rfl
  · rw [if_neg h]
    rw [padding] at h
    simp only [allocate, Program.get_bind, if_neg h]
    rfl

theorem toNat_sum (arena : Arena) (size alignment : UInt64) :
    (arena.offset + arena.padding alignment + size).toNat = arena.total size alignment % 2 ^ 64 := by
  rw [UInt64.toNat_add, UInt64.toNat_add, Nat.mod_add_mod, total]

end Arena

/-! ## Calls -/

/-- A power of two. -/
structure Alignment where
  value : UInt64
  exponent : ℕ
  exponent_lt : exponent < 64
  value_eq : value.toNat = 2 ^ exponent

inductive ArenaCall where
  | allocate (size : UInt64) (alignment : Alignment)
  | reset

/-- A range that was returned, with the alignment that was asked for. -/
structure ReturnedRange where
  region : Region
  alignment : ℕ

/-- An arena and what it returned since the last reset. -/
structure ArenaState where
  arena : Arena
  returned : List ReturnedRange

namespace ArenaState

def start (buffer : Buffer) : ArenaState :=
  ⟨Arena.create buffer, []⟩

def perform (state : ArenaState) : ArenaCall → ArenaState
  | .allocate size alignment =>
      match Arena.allocate size alignment.value state.arena with
      | .ok address arena =>
          ⟨arena, ⟨⟨address.toNat, size.toNat⟩, alignment.value.toNat⟩ :: state.returned⟩
      | .error _ arena => ⟨arena, state.returned⟩
  | .reset => ⟨state.arena.reset, []⟩

def run (state : ArenaState) (calls : List ArenaCall) : ArenaState :=
  calls.foldl perform state

@[simp] theorem run_concat (state : ArenaState) (calls : List ArenaCall) (call : ArenaCall) :
    state.run (calls ++ [call]) = (state.run calls).perform call := by
  simp [run]

/-- What an arena promises. -/
structure IsSound (buffer : Buffer) (state : ArenaState) : Prop where
  aligned : ∀ range ∈ state.returned, range.alignment ∣ range.region.start
  apart : (state.returned.map ReturnedRange.region).Pairwise Region.Apart
  inside : ∀ range ∈ state.returned, range.region.Within buffer.region
  used_le : state.arena.used ≤ state.arena.capacity
  failing : ∀ size alignment error arena,
    Arena.allocate size alignment state.arena = .error error arena → arena = state.arena

/-- The sum of the check wraps around to at most the capacity. -/
def WrapsAround (state : ArenaState) : ArenaCall → Prop
  | .allocate size alignment =>
      2 ^ 64 ≤ state.arena.total size alignment.value ∧
        state.arena.total size alignment.value % 2 ^ 64 ≤ state.arena.capacity.toNat
  | .reset => False

/-- The invariant: the ranges end before the offset. -/
structure IsConsistent (buffer : Buffer) (state : ArenaState) : Prop where
  sound : IsSound buffer state
  buffer_eq : state.arena.buffer = buffer.address
  capacity_eq : state.arena.capacity = buffer.size
  stop_le : ∀ range ∈ state.returned,
    range.region.stop ≤ buffer.address.toNat + state.arena.offset.toNat

end ArenaState

/-! ## Alignment -/

namespace Arena

theorem failing_allocate {size alignment : UInt64} {arena arena' : Arena} {error : BadAlloc}
    (h : allocate size alignment arena = .error error arena') : arena' = arena := by
  rw [allocate_eq] at h
  split at h
  · cases h
    rfl
  · cases h

/-- The address is rounded up, or it is past the last multiple and wraps around to zero. -/
theorem toNat_alignAddress (address : UInt64) (alignment : Alignment) :
    (alignAddress address alignment.value).toNat = alignUp address.toNat alignment.value.toNat ∨
      alignAddress address alignment.value = 0 := by
  have hpos : 0 < 2 ^ alignment.exponent := Nat.pow_pos (by decide)
  have hvalue := alignment.value_eq
  have hlt := alignment.value.toNat_lt
  have haddress := address.toNat_lt
  have hmask : (alignment.value - 1).toNat = 2 ^ alignment.exponent - 1 := by
    rw [UInt64.toNat_sub_of_le _ _ (UInt64.le_iff_toNat_le.mpr (by
      rw [hvalue]
      exact hpos)), hvalue]
    rfl
  have hand := toNat_and_not_mask (address + (alignment.value - 1)) alignment.exponent_lt hmask
  by_cases hfits : address.toNat + (2 ^ alignment.exponent - 1) < 2 ^ 64
  · left
    rw [alignAddress, hand, UInt64.toNat_add, hmask, Nat.mod_eq_of_lt hfits, alignUp, hvalue]
  · right
    apply UInt64.toNat_inj.mp
    rw [alignAddress, hand, UInt64.toNat_add, hmask, UInt64.toNat_zero, Nat.mul_eq_zero]
    left
    apply Nat.div_eq_of_lt
    omega

variable {buffer : Buffer} {arena : Arena} {size : UInt64} {alignment : Alignment}

/-- The padding ends at a multiple of the alignment, or at the end of the address space. -/
theorem toNat_padding (hbuffer : arena.buffer = buffer.address)
    (hused : arena.offset.toNat ≤ buffer.size.toNat) (alignment : Alignment) :
    (buffer.address.toNat + arena.offset.toNat + (arena.padding alignment.value).toNat < 2 ^ 64 ∧
        alignment.value.toNat ∣
          buffer.address.toNat + arena.offset.toNat + (arena.padding alignment.value).toNat) ∨
      buffer.address.toNat + arena.offset.toNat + (arena.padding alignment.value).toNat =
        2 ^ 64 := by
  have hfits := buffer.fits
  have haddress := buffer.address_pos
  have hcurrent : (arena.buffer + arena.offset).toNat =
      buffer.address.toNat + arena.offset.toNat := by
    rw [hbuffer, UInt64.toNat_add, Nat.mod_eq_of_lt (by omega)]
  have hpositive : 0 < alignment.value.toNat := by
    rw [alignment.value_eq]
    exact Nat.pow_pos (by decide)
  have hlt := (alignAddress (arena.buffer + arena.offset) alignment.value).toNat_lt
  rcases toNat_alignAddress (arena.buffer + arena.offset) alignment with h | h
  · left
    have hle := le_alignUp (arena.buffer + arena.offset).toNat hpositive
    have hpadding := UInt64.toNat_sub_of_le _ _ (UInt64.le_iff_toNat_le.mpr (h ▸ hle))
    have hsum : buffer.address.toNat + arena.offset.toNat + (arena.padding alignment.value).toNat =
        alignUp (arena.buffer + arena.offset).toNat alignment.value.toNat := by
      rw [padding, hpadding, h]
      omega
    exact ⟨by omega, hsum ▸ dvd_alignUp _ _⟩
  · right
    rw [padding, h, UInt64.toNat_sub, hcurrent, UInt64.toNat_zero]
    omega

/-- The returned address is the aligned one. -/
theorem toNat_start (hbuffer : arena.buffer = buffer.address) (alignment : Alignment) :
    (arena.buffer + (arena.offset + arena.padding alignment.value)).toNat =
      (buffer.address.toNat + arena.offset.toNat + (arena.padding alignment.value).toNat) %
        2 ^ 64 := by
  rw [hbuffer, UInt64.toNat_add, UInt64.toNat_add, Nat.add_mod_mod, Nat.add_assoc]

/-- A range that ends inside the buffer starts at the aligned address. -/
theorem start_of_total_le (hbuffer : arena.buffer = buffer.address)
    (hused : arena.offset.toNat ≤ buffer.size.toNat)
    (hfits : arena.total size alignment.value ≤ buffer.size.toNat) :
    (arena.buffer + (arena.offset + arena.padding alignment.value)).toNat =
        buffer.address.toNat + arena.offset.toNat + (arena.padding alignment.value).toNat ∧
      alignment.value.toNat ∣
        (arena.buffer + (arena.offset + arena.padding alignment.value)).toNat := by
  have hbound := buffer.fits
  rw [total] at hfits
  have hstart := toNat_start hbuffer alignment
  rw [Nat.mod_eq_of_lt (by omega)] at hstart
  rcases toNat_padding hbuffer hused alignment with h | h
  · exact ⟨hstart, hstart ▸ h.2⟩
  · omega

/-- A range whose sum is past the end of the address space is not in the buffer. -/
theorem not_within_of_le_total (hbuffer : arena.buffer = buffer.address)
    (hused : arena.offset.toNat ≤ buffer.size.toNat)
    (hwraps : 2 ^ 64 ≤ arena.total size alignment.value) :
    ¬ Region.Within
      ⟨(arena.buffer + (arena.offset + arena.padding alignment.value)).toNat, size.toNat⟩
      buffer.region := by
  rintro ⟨hstart, hstop⟩
  have hbound := buffer.fits
  have haddress := buffer.address_pos
  simp only [Buffer.region, Region.stop] at hstart hstop
  rw [toNat_start hbuffer] at hstart hstop
  rw [total] at hwraps
  rcases toNat_padding hbuffer hused alignment with h | h
  · rw [Nat.mod_eq_of_lt h.1] at hstop
    omega
  · rw [h] at hstart
    omega

end Arena

/-! ## Sequences of calls -/

namespace ArenaState

variable {buffer : Buffer} {state : ArenaState} {call : ArenaCall}

theorem start_isConsistent (buffer : Buffer) : IsConsistent buffer (start buffer) := by
  refine ⟨⟨by simp [start], by simp [start], by simp [start], ?_, ?_⟩, rfl, rfl, by simp [start]⟩
  · exact UInt64.zero_le
  · intro size alignment error arena h
    exact Arena.failing_allocate h

theorem perform_allocate_fits {size : UInt64} {alignment : Alignment}
    (h : state.arena.total size alignment.value % 2 ^ 64 ≤ state.arena.capacity.toNat) :
    state.perform (.allocate size alignment) =
      ⟨{ state.arena with
          offset := state.arena.offset + state.arena.padding alignment.value + size },
        ⟨⟨(state.arena.buffer + (state.arena.offset + state.arena.padding alignment.value)).toNat,
          size.toNat⟩, alignment.value.toNat⟩ :: state.returned⟩ := by
  have hle : ¬ state.arena.offset + state.arena.padding alignment.value + size >
      state.arena.capacity := by
    rw [gt_iff_lt, UInt64.lt_iff_toNat_lt, Arena.toNat_sum]
    omega
  simp [perform, Arena.allocate_eq, hle]

theorem perform_allocate_fails {size : UInt64} {alignment : Alignment}
    (h : state.arena.capacity.toNat < state.arena.total size alignment.value % 2 ^ 64) :
    state.perform (.allocate size alignment) = state := by
  have hlt : state.arena.offset + state.arena.padding alignment.value + size >
      state.arena.capacity := by
    rw [gt_iff_lt, UInt64.lt_iff_toNat_lt, Arena.toNat_sum]
    exact h
  simp [perform, Arena.allocate_eq, hlt]

theorem IsConsistent.used_le (h : IsConsistent buffer state) :
    state.arena.offset.toNat ≤ buffer.size.toNat := by
  have hle := UInt64.le_iff_toNat_le.mp h.sound.used_le
  rwa [h.capacity_eq] at hle

/-- The next range starts behind the offset, and thereby behind the ranges before it. -/
theorem IsConsistent.allocate {size : UInt64} {alignment : Alignment}
    (h : IsConsistent buffer state)
    (hfits : state.arena.total size alignment.value ≤ buffer.size.toNat) :
    IsConsistent buffer (state.perform (.allocate size alignment)) := by
  have hbound := buffer.fits
  have hmod : state.arena.total size alignment.value % 2 ^ 64 =
      state.arena.total size alignment.value := Nat.mod_eq_of_lt (by omega)
  rcases Arena.start_of_total_le h.buffer_eq h.used_le hfits with ⟨hstart, hdvd⟩
  have hoffset := Arena.toNat_sum state.arena size alignment.value
  rw [hmod] at hoffset
  have htotal : state.arena.total size alignment.value = state.arena.offset.toNat +
    (state.arena.padding alignment.value).toNat + size.toNat := rfl
  rw [perform_allocate_fits (by
    rw [hmod, h.capacity_eq]
    exact hfits)]
  refine ⟨⟨?aligned, ?apart, ?inside, ?used, ?failing⟩, h.buffer_eq, h.capacity_eq, ?stop⟩
  case aligned => exact List.forall_mem_cons.mpr ⟨hdvd, h.sound.aligned⟩
  case apart =>
    apply Region.pairwise_cons_of_le h.sound.apart
    intro other hother
    rcases List.mem_map.mp hother with ⟨range, hrange, rfl⟩
    have hstop := h.stop_le range hrange
    simp only [hstart]
    omega
  case inside =>
    apply List.forall_mem_cons.mpr ⟨?_, h.sound.inside⟩
    simp only [Region.Within, Region.stop, Buffer.region, hstart]
    omega
  case used =>
    rw [Arena.used, UInt64.le_iff_toNat_le, hoffset, h.capacity_eq]
    exact hfits
  case failing =>
    intro _ _ _ _ hfails
    exact Arena.failing_allocate hfails
  case stop =>
    simp only [hoffset]
    refine List.forall_mem_cons.mpr ⟨?_, ?_⟩
    · simp only [Region.stop, hstart]
      omega
    · intro range hrange
      have hstop := h.stop_le range hrange
      omega

theorem IsConsistent.reset (h : IsConsistent buffer state) :
    IsConsistent buffer (state.perform .reset) := by
  refine ⟨⟨by simp [perform], by simp [perform], by simp [perform], ?_, ?_⟩, h.buffer_eq,
    h.capacity_eq, by simp [perform]⟩
  · exact UInt64.zero_le
  · intro _ _ _ _ hfails
    exact Arena.failing_allocate hfails

/-- A call whose sum does not wrap around keeps the invariant. -/
theorem IsConsistent.perform (h : IsConsistent buffer state)
    (hwraps : ¬ WrapsAround state call) : IsConsistent buffer (state.perform call) := by
  cases call with
  | reset => exact h.reset
  | allocate size alignment =>
      have hbound := buffer.size.toNat_lt
      rw [WrapsAround, h.capacity_eq] at hwraps
      rcases Nat.lt_or_ge state.arena.capacity.toNat
        (state.arena.total size alignment.value % 2 ^ 64) with hlt | hle
      · rw [perform_allocate_fails hlt]
        exact h
      · rw [h.capacity_eq] at hle
        exact h.allocate (by omega)

/-- A call whose sum wraps around returns a range outside the buffer. -/
theorem IsConsistent.not_wrapsAround (h : IsConsistent buffer state)
    (hsound : IsSound buffer (state.perform call)) : ¬ WrapsAround state call := by
  cases call with
  | reset => exact id
  | allocate size alignment =>
      rintro ⟨hwraps, hle⟩
      rw [perform_allocate_fits hle] at hsound
      exact Arena.not_within_of_le_total h.buffer_eq h.used_le hwraps
        (hsound.inside _ (List.mem_cons_self ..))

/-- While no sum wraps around, the invariant holds after each call. -/
theorem run_isConsistent (buffer : Buffer) (calls : List ArenaCall)
    (hwraps : ∀ front call, front ++ [call] <+: calls →
      ¬ WrapsAround ((start buffer).run front) call) :
    IsConsistent buffer ((start buffer).run calls) := by
  induction calls using List.reverseRecOn with
  | nil => exact start_isConsistent buffer
  | append_singleton calls call ih =>
      rw [run_concat]
      apply IsConsistent.perform
      · apply ih
        intro front other hfront
        exact hwraps front other (hfront.trans (List.prefix_append ..))
      · exact hwraps calls call (List.prefix_refl _)

/-- While an arena is sound after each call, no sum has wrapped around. -/
theorem not_wrapsAround_of_isSound (buffer : Buffer) (calls : List ArenaCall)
    (hsound : ∀ front, front <+: calls → IsSound buffer ((start buffer).run front)) :
    ∀ front call, front ++ [call] <+: calls → ¬ WrapsAround ((start buffer).run front) call := by
  induction calls using List.reverseRecOn with
  | nil => simp
  | append_singleton calls call ih =>
      have hcalls := ih fun front hfront => hsound front (hfront.trans (List.prefix_append ..))
      intro front other hfront
      rcases List.prefix_concat_iff.mp hfront with heq | hfront
      · rcases List.append_inj' heq rfl with ⟨rfl, hcall⟩
        cases hcall
        apply (run_isConsistent buffer front hcalls).not_wrapsAround
        rw [← run_concat]
        exact hsound _ (List.prefix_refl _)
      · exact hcalls front other hfront

/-- An arena is sound after each call of a sequence if and only if none of the sums that its
allocations are checked with wraps around to a size that fits. -/
theorem run_isSound_iff (buffer : Buffer) (calls : List ArenaCall) :
    (∀ front, front <+: calls → IsSound buffer ((start buffer).run front)) ↔
      ∀ front call, front ++ [call] <+: calls →
        ¬ WrapsAround ((start buffer).run front) call := by
  constructor
  · exact not_wrapsAround_of_isSound buffer calls
  · intro hwraps front hfront
    apply (run_isConsistent buffer front ?_).sound
    intro shorter call hshorter
    exact hwraps shorter call (hshorter.trans hfront)

/-- A kilobyte behind the first page. -/
def kilobyte : Buffer :=
  ⟨4096, 1024, page_ne_zero, by decide⟩

def anyAddress : Alignment :=
  ⟨1, 0, by decide, by decide⟩

/-- The second allocation asks for almost all of the address space and moves the offset back, so
that the third one returns bytes of the first. -/
theorem wrapping_run :
    ((start kilobyte).run [.allocate 16 anyAddress, .allocate (0 - 8) anyAddress,
        .allocate 16 anyAddress]).returned.map ReturnedRange.region =
      [⟨4104, 16⟩, ⟨4112, 2 ^ 64 - 8⟩, ⟨4096, 16⟩] ∧
    ¬ IsSound kilobyte ((start kilobyte).run [.allocate 16 anyAddress,
        .allocate (0 - 8) anyAddress, .allocate 16 anyAddress]) := by
  have hreturned : ((start kilobyte).run [.allocate 16 anyAddress,
      .allocate (0 - 8) anyAddress, .allocate 16 anyAddress]).returned.map ReturnedRange.region =
      [⟨4104, 16⟩, ⟨4112, 2 ^ 64 - 8⟩, ⟨4096, 16⟩] := by decide
  refine ⟨hreturned, fun hsound => ?_⟩
  have hapart := hsound.apart
  rw [hreturned] at hapart
  exact absurd hapart (by decide)

end ArenaState

end GiveMePi.Memory
