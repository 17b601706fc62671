import GiveMePi.Verification.FinalOutputInspector
import GiveMePi.Verification.SHA256Streams

/-! # The digest of the start of a file

The bytes are read in pieces and given to a context one after the other. -/

namespace GiveMePi.Verification.SHA256

open Library

/-- The loop over the rest of the bytes to hash. -/
def hashPieces (left : Bytes) (remaining : UInt64) : Action SHA256 Unit := do
  if remaining = 0 then
    pure ()
  else
    let requested := min remaining.toNat fileBufferSize
    let piece := left.take requested
    if _h : piece = [] then
      throw (.runtimeError "File ended before the SHA-256 prefix was complete")
    else
      update piece
      let remaining := remaining - UInt64.ofNat piece.length
      throwIf (piece.length ≠ requested ∧ remaining ≠ 0)
        (.runtimeError "Failed while reading SHA-256 file prefix")
      hashPieces (left.drop requested) remaining
termination_by left.length
decreasing_by
  rw [List.take_eq_nil_iff, not_or] at _h
  have := List.length_pos_of_ne_nil _h.2
  rw [List.length_drop]
  omega

/-- `hashFilePrefix` -/
def hashFileStart (reading : FileReading) (byteCount : UInt64) : Except Error SHA256Digest :=
  if reading.isOpen = false then
    throw (.runtimeError "Cannot open file for SHA-256 hashing")
  else
    match (do hashPieces reading.bytes byteCount; finalize : Action SHA256 SHA256Digest) new with
    | .ok digest _ => .ok digest
    | .error error _ => .error error

/-- A pass takes a piece of the bytes that remain, and not the empty one. -/
theorem hashPieces_step {bytes rest : Bytes} {remaining : UInt64}
    (hremaining : bytes.length = remaining.toNat) (hmore : remaining ≠ 0) :
    ∃ count, 0 < count ∧ count ≤ bytes.length ∧
      (remaining - UInt64.ofNat count).toNat = remaining.toNat - count ∧
      hashPieces (bytes ++ rest) remaining = (do
        update (bytes.take count)
        hashPieces (bytes.drop count ++ rest) (remaining - UInt64.ofNat count)) := by
  have hbound := remaining.toNat_lt
  have hpos : 0 < remaining.toNat :=
    Nat.pos_of_ne_zero fun hzero => hmore (UInt64.toNat_inj.mp hzero)
  rw [hashPieces, if_neg hmore]
  obtain ⟨count, hcount⟩ : ∃ count, count = min remaining.toNat fileBufferSize := ⟨_, rfl⟩
  rw [← hcount]
  have hle : count ≤ bytes.length := by omega
  have hsome : 0 < count := by rw [hcount, fileBufferSize]; omega
  have hpiece : (bytes.take count).length = count := List.length_take_of_le hle
  have hnonempty : bytes.take count ≠ [] := by
    rw [← List.length_pos_iff, hpiece]
    exact hsome
  have hword : (UInt64.ofNat count).toNat = count :=
    UInt64.toNat_ofNat_of_lt (by rw [UInt64.size]; omega)
  refine ⟨count, hsome, hle, ?_, ?_⟩
  · rw [UInt64.toNat_sub_of_le _ _ (by rw [UInt64.le_iff_toNat_le, hword]; omega), hword]
  · simp only [List.take_append_of_le_length hle, dif_neg hnonempty, hpiece,
      List.drop_append_of_le_length hle]
    simp

/-- The loop gives the context exactly the bytes that remain. -/
theorem hashPieces_represents {context : SHA256} {message bytes rest : Bytes}
    (h : Represents context message) {remaining : UInt64} (hremaining : bytes.length = remaining.toNat)
    (hlimit : message.length + bytes.length < 2 ^ 61) :
    ∃ next, hashPieces (bytes ++ rest) remaining context = .ok () next ∧
      Represents next (message ++ bytes) := by
  induction hlength : bytes.length using Nat.strongRecOn
    generalizing context message bytes remaining with
  | ind length ih =>
      by_cases hmore : remaining = 0
      · have hnil : bytes = [] := by
          rw [← List.length_eq_zero_iff, hremaining, hmore]
          rfl
        rw [hashPieces, if_pos hmore]
        exact ⟨context, rfl, by rwa [hnil, List.append_nil]⟩
      · obtain ⟨count, hsome, hle, hleft, hstep⟩ := @hashPieces_step bytes rest _ hremaining hmore
        have hpiece : (bytes.take count).length = count := List.length_take_of_le hle
        have hrest : (bytes.drop count).length = bytes.length - count := List.length_drop
        obtain ⟨middle, hupdate, hmiddle⟩ := update_represents h (bytes.take count) (by omega)
        obtain ⟨next, hnext, hrepresents⟩ := ih (bytes.drop count).length (by omega) hmiddle
          (show _ = (remaining - UInt64.ofNat count).toNat by omega)
          (by rw [List.length_append]; omega) rfl
        refine ⟨next, ?_, ?_⟩
        · rw [hstep, Program.bind_of_ok hupdate, hnext]
        · rwa [List.append_assoc, List.take_append_drop] at hrepresents

/-- The digest of the start of a file is that of its bytes in memory. -/
theorem hashFileStart_eq {reading : FileReading} (hopen : reading.isOpen = true)
    {message rest : Bytes} (hbytes : reading.bytes = message ++ rest) {byteCount : UInt64}
    (hcount : message.length = byteCount.toNat) (hlimit : message.length < 2 ^ 61) :
    hashFileStart reading byteCount = SHA256.hash message := by
  obtain ⟨context, hpieces, hcontext⟩ := @hashPieces_represents new [] message rest new_represents
    byteCount hcount (by simpa using hlimit)
  obtain ⟨digest, finished, hfinalize, hdigest, -⟩ := finalize_represents hcontext
  obtain ⟨whole, hwhole, hsame⟩ := hash_eq hlimit
  rw [List.nil_append] at hdigest
  have heq : digest = whole := by
    cases digest
    cases whole
    simp_all
  rw [hashFileStart, if_neg (by simp [hopen]), hbytes, Program.bind_of_ok hpieces, hfinalize, hwhole,
    heq]

/-- A loop that returns gave the context as many bytes as were to be hashed. -/
theorem represents_of_hashPieces {context next : SHA256} {message left : Bytes}
    (h : Represents context message) {remaining : UInt64}
    (hpieces : hashPieces left remaining context = .ok () next) :
    remaining.toNat ≤ left.length ∧ Represents next (message ++ left.take remaining.toNat) := by
  induction hlength : left.length using Nat.strongRecOn
    generalizing context message left remaining with
  | ind length ih =>
      rw [hashPieces] at hpieces
      by_cases hmore : remaining = 0
      · rw [if_pos hmore, Program.pure_apply, EStateM.Result.ok.injEq] at hpieces
        rw [hmore, ← hpieces.2]
        exact ⟨Nat.zero_le _, by simpa using h⟩
      obtain ⟨requested, hrequested⟩ : ∃ requested, requested = min remaining.toNat fileBufferSize :=
        ⟨_, rfl⟩
      rw [if_neg hmore, ← hrequested] at hpieces
      by_cases hend : left.take requested = []
      · rw [dif_pos hend] at hpieces
        cases hpieces
      rw [dif_neg hend, Program.bind_eq_ok] at hpieces
      obtain ⟨u, middle, hupdate, hpieces⟩ := hpieces
      have hlimit : message.length + (left.take requested).length < 2 ^ 61 := by
        by_contra hlong
        rw [update_over_limit h (not_lt.mp hlong)] at hupdate
        cases hupdate
      obtain ⟨updated, heq, hmiddle⟩ := update_represents h (left.take requested) hlimit
      obtain rfl : updated = middle := by simpa [heq] using hupdate
      simp only [Action.liftM_eq, Program.bind_eq_ok, Action.ofExcept_eq_ok, throwIf_eq_ok] at hpieces
      obtain ⟨-, _, ⟨hwhole, rfl⟩, hpieces⟩ := hpieces
      have hpos : 0 < (left.take requested).length := List.length_pos_iff.mpr hend
      have hbound := remaining.toNat_lt
      obtain ⟨count, hcount⟩ : ∃ count, count = (left.take requested).length := ⟨_, rfl⟩
      rw [← hcount] at hwhole hpieces hpos hlimit
      rw [List.length_take] at hcount
      have hleft : (remaining - UInt64.ofNat count).toNat = remaining.toNat - count := by
        have hword : (UInt64.ofNat count).toNat = count :=
          UInt64.toNat_ofNat_of_lt' (by rw [UInt64.size]; omega)
        rw [UInt64.toNat_sub_of_le _ _ (by rw [UInt64.le_iff_toNat_le, hword]; omega), hword]
      have hfull : count = requested := by
        by_contra hshorter
        have hzero : remaining - UInt64.ofNat count = 0 := not_not.mp fun hne => hwhole ⟨hshorter, hne⟩
        rw [hzero, UInt64.toNat_zero] at hleft
        omega
      obtain ⟨hle, hnext⟩ := ih (left.drop requested).length (by rw [List.length_drop]; omega)
        hmiddle hpieces rfl
      rw [hleft, hfull, List.length_drop] at hle
      rw [hleft, hfull, List.append_assoc, ← List.take_add] at hnext
      rw [show requested + (remaining.toNat - requested) = remaining.toNat by omega] at hnext
      exact ⟨by omega, hnext⟩

/-- What is hashed of a file is there, and has the digest that it has in memory. -/
theorem hash_of_hashFileStart {reading : FileReading} {byteCount : UInt64} {digest : SHA256Digest}
    (h : hashFileStart reading byteCount = .ok digest) :
    byteCount.toNat ≤ reading.bytes.length ∧ byteCount.toNat < 2 ^ 61 ∧
      SHA256.hash (reading.bytes.take byteCount.toNat) = .ok digest := by
  by_cases hclosed : reading.isOpen = false
  · rw [hashFileStart, if_pos hclosed] at h
    cases h
  have hopen : reading.isOpen = true := by simpa using hclosed
  have hcopy := h
  rw [hashFileStart, if_neg hclosed] at h
  cases hpieces : hashPieces reading.bytes byteCount new with
  | error e context =>
      rw [Program.bind_of_error hpieces] at h
      cases h
  | ok u context =>
      obtain ⟨hle, hcontext⟩ := represents_of_hashPieces new_represents hpieces
      have hlimit := hcontext.limit
      rw [List.nil_append, List.length_take, min_eq_left hle] at hlimit
      have hlength : (reading.bytes.take byteCount.toNat).length = byteCount.toNat :=
        List.length_take_of_le hle
      refine ⟨hle, hlimit, ?_⟩
      rw [← hashFileStart_eq hopen (List.take_append_drop byteCount.toNat _).symm hlength
        (by rwa [hlength]), hcopy]

end GiveMePi.Verification.SHA256
